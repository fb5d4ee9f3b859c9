import DataCatalog.Scan.Pass
import DataCatalog.Scan.Tree
/-!
# Scan orchestration

A refresh of a resource (or of one of its tables) looks the resource up for the tenant,
records a manual run, makes one pass and closes the run: failed with the pass's error when
there was one, successful otherwise, with the counts gathered either way. A lookup failure
is reported before any run is recorded.

Discovery records an automatic run targeting every active resource of the tenant, makes a
discovery pass over each, and closes the run with the summed counts and one line per failed
resource, in order of external id; the run fails only when every resource failed. The passes
run side by side, at most `maxConcurrentScans` of them (and at least one) at a time, started
in order of external id; they interleave at their catalog calls, so two entries for one
resource can each scan namespaces the other has not reached. A pass that stops its task with
an error that ends the run is one more failed resource. Run alone, the passes are served
first come first served; served beside other requests, they are tasks of the request's
thread (`Scan.Service`).

Browsing a resource's namespaces or objects connects live and writes nothing to the catalog.
-/

namespace DataCatalog.Scan

open DataCatalog.Catalog DataCatalog.Connect DataCatalog.Source DataCatalog.Storage
open DataCatalog.Ident

/-- Closes a run with a pass's counts and error. -/
def closeRun (run : RunRow) (outcome : ScanCounts × Option ScanError) : Step RunRow :=
  endRun run.tenant run.id (if outcome.2.isSome then .failed else .success)
    (outcome.2.map (·.message)) outcome.1

/-- The directory entry a tenant asks for. -/
def lookupResource (tenant : TenantId) (externalId : ExternalId) : Step RegisteredResource := do
  Step.ofExcept ((← get).directory.lookup tenant externalId)

/-- Refreshes the named namespaces (or object paths) of a resource, or all of them. -/
def scanResource (tenant : TenantId) (externalId : ExternalId) (namespaces : List String) :
    Step RunRow := do
  let r ← lookupResource tenant externalId
  let run ← openRun tenant (some externalId) .manual namespaces
  closeRun run (← (scanRegistered r (.refresh namespaces)).run)

/-- Refreshes one table of a resource, recorded as a manual run targeting `schema.table`. -/
def scanTable (tenant : TenantId) (externalId : ExternalId) (schema table : String) :
    Step RunRow := do
  let r ← lookupResource tenant externalId
  let run ← openRun tenant (some externalId) .manual [schema ++ "." ++ table]
  closeRun run (← (scanRegisteredTable r schema table).run)

/-- A discovery run as first recorded, and as finished. -/
structure Dispatch where
  dispatched : RunRow
  finished : Except ScanError RunRow

/-- The line a failed resource adds to a discovery run's message. -/
def failureLine (externalId : ExternalId) (e : ScanError) : String :=
  "resource " ++ externalId.text ++ ": " ++ e.message

/-- One character as the quoted debug form of a text shows it. -/
def debugEscape (c : Char) : List Char :=
  if c = '"' then ['\\', '"']
  else if c = '\\' then ['\\', '\\']
  else if c = '\n' then ['\\', 'n']
  else if c = '\r' then ['\\', 'r']
  else if c = '\t' then ['\\', 't']
  else if c.toNat = 0 then ['\\', '0']
  else [c]

/-- A text in quotes, as its debug form shows it. -/
def debugQuote (s : String) : String :=
  String.ofList ('"' :: (s.toList.flatMap debugEscape ++ ['"']))

/-- What a scan that ends the run reports as it stops: a store failure's own text, or the
error's. -/
def ScanError.stopMessage : ScanError → String
  | .persistence e => e.message
  | e => e.message

/-- The counts and error that the supervisor of a discovery run reads off one pass. A pass
that ended in an error that stops the run stopped its task: the supervisor counts nothing for
it and fails the resource with what stopped it, leaving out the id the runtime gave the task.
A pass it did not see finish fails the resource as unfinished. -/
def passOutcome : Option (Except ScanError (ScanCounts × Option ScanError)) →
    ScanCounts × Option ScanError
  | some (.ok outcome) => outcome
  | some (.error e) => ({}, some (.internal
      ("scan task failed: task panicked with message " ++ debugQuote e.stopMessage)))
  | none => ({}, some (.internal "scan task failed: unfinished"))

/-- Lists a tenant's active resources, records the automatic run that targets them, and reads
how many passes may run at once: at least one, and asking for more than `maxPermits` fails. -/
def dispatchUnscanned (tenant : TenantId) : Step (List RegisteredResource × RunRow × Nat) := do
  let resources ← Step.ofExcept ((← get).directory.listActive tenant)
  let run ← openRun tenant none .auto (resources.map (·.externalId.text))
  let slots := max (← get).maxConcurrentScans 1
  if slots > maxPermits then throw (.permitLimit slots)
  pure (resources, run, slots)

/-- The discovery pass over one resource. -/
def discoveryPass (r : RegisteredResource) : Step (ScanCounts × Option ScanError) :=
  (scanRegistered r .unscanned).run

/-- Closes a discovery run once its passes have ended, from what each left, in the order of the
run's resources: the counts summed, one line per failed resource, and failed only when every
resource failed. -/
def superviseUnscanned (tenant : TenantId) (run : RunRow) (resources : List RegisteredResource)
    (results : List (Option (Except ScanError (ScanCounts × Option ScanError)))) :
    Step Dispatch := do
  let outcomes := (resources.zip results).map fun (r, o) => (r.externalId, passOutcome o)
  let counts := outcomes.foldl (fun acc o => acc + o.2.1) {}
  let failures := outcomes.filterMap fun (e, o) => o.2.map (failureLine e)
  let status := if !outcomes.isEmpty && failures.length == outcomes.length then RunStatus.failed
    else .success
  let message := if failures.isEmpty then none else some (Text.joinWith "; " failures)
  let finished ← Step.attempt (endRun tenant run.id status message counts)
  pure ⟨run, finished⟩

/-- Discovers the never-scanned namespaces of every active resource of a tenant, its passes
run side by side with each other alone. -/
def scanAllUnscanned (tenant : TenantId) : Step Dispatch := do
  let (resources, run, slots) ← dispatchUnscanned tenant
  superviseUnscanned tenant run resources (← Step.interleaved slots (resources.map discoveryPass))

/-- Every resource of a tenant with its forest of nodes and items. -/
def catalogTree (c : Tables) (tenant : TenantId) : List ResourceTree :=
  (c.listResources tenant).map fun r =>
    buildResourceTree r (c.listResourceNodes tenant r.id) (c.listResourceItems tenant r.id)

/-- Connects to an active resource of the tenant. -/
def connectTo (tenant : TenantId) (externalId : ExternalId) : Step Connection := do
  let r ← lookupResource tenant externalId
  if !r.active then throw (.configuration ("resource " ++ externalId.text ++ " is inactive"))
  connect (← Step.ofExcept r.descriptor)

/-- The live namespace names of a resource: its schemas, or its allowed buckets. -/
def listAvailableNamespaces (tenant : TenantId) (externalId : ExternalId) : Step (List String) := do
  let conn ← connectTo tenant externalId
  let result ← Step.attempt (match conn with
    | .relational _ => do pure ((← inRelational listSchemas).map (·.name))
    | .objectStorage => inObjects allowedBuckets)
  conn.close
  Step.ofExcept result

/-- The live children one level below a path of an object-storage resource. -/
def listObjectNodes (tenant : TenantId) (externalId : ExternalId) (path : String) :
    Step (List ObjectNode) := do
  let conn ← connectTo tenant externalId
  let result ← Step.attempt (match conn with
    | .objectStorage => inObjects (listNodes path)
    | .relational _ =>
      throw (.configuration ("resource " ++ externalId.text ++ " is not object storage")))
  conn.close
  Step.ofExcept result

/-- Drops a held guard; tells whether it was held. -/
def releaseHeld (k : SubtreeKey) : Step Bool := do
  let held := isHeld (← get).held k
  releaseGuard k
  pure held

end DataCatalog.Scan
