import DataCatalog.Catalog.Rows
/-!
# Scan runs

A run is created running and finished once, as a success or a failure, with its counters,
its completion time and its duration. Finishing a run that is not running, or finishing
one as running, is refused and changes nothing. Runs are listed most recent first.
-/

namespace DataCatalog.Catalog

open DataCatalog.Time DataCatalog.Ident

/-- Records a new running scan. -/
def createRun (tenant : TenantId) (externalId : Option ExternalId) (mode : ScanMode)
    (targets : List String) : Store RunRow := do
  let id ← Tables.mint
  let now ← Tables.now
  let row : RunRow := ⟨⟨id⟩, tenant, externalId, mode, targets, .running, none, {}, now, none, none⟩
  modify fun c => { c with runs := c.runs ++ [row] }
  pure row

/-- Whether a run row is this tenant's run `id`. -/
def RunRow.isRun (r : RunRow) (tenant : TenantId) (id : RunId) : Bool :=
  r.tenant == tenant && r.id == id

/-- Moves a running run to a terminal status with its final counters. -/
def finishRun (tenant : TenantId) (id : RunId) (status : RunStatus) (message : Option String)
    (counts : ScanCounts) : Store RunRow := do
  if !status.isTerminal then
    Store.fail (.invalidState ("scan run " ++ id.text ++ " cannot finish as '" ++ status.name ++ "'"))
  else
    let now ← Tables.now
    let c ← get
    match c.runs.find? fun r => r.isRun tenant id && r.status == .running with
    | none => Store.fail (.invalidState ("scan run " ++ id.text ++ " is not running"))
    | some old =>
      let row : RunRow := { old with
        status := status
        errorMessage := message
        counts := counts
        completedAt := some now
        durationMs := some (now.toMillis - old.startedAt.toMillis) }
      set { c with runs := replaceWhere (·.isRun tenant id) (fun _ => row) c.runs }
      pure row

/-- A tenant's run by id. -/
def Tables.getRun (c : Tables) (tenant : TenantId) (id : RunId) : Option RunRow :=
  c.runs.find? (·.isRun tenant id)

/-- A tenant's most recent runs, newest first. -/
def Tables.listRuns (c : Tables) (tenant : TenantId) (limit : Nat) : List RunRow :=
  takeLimit limit (sortOn (fun a b => Instant.compare b.startedAt a.startedAt)
    (c.runs.filter (·.tenant == tenant)).reverse)

end DataCatalog.Catalog
