import DataCatalog.Scan.Reconcile.Objects
/-!
# Passes over one resource

A pass refreshes the namespaces of one resource. It resolves the resource's descriptor,
writes the resource's catalog row, refuses inactive resources, connects, chooses its
namespaces and reconciles each one under its subtree guard, then closes the connection.
A pass counts what it did as it goes, and the counts gathered before a failure are kept.

Namespaces are chosen in one of two ways. A refresh names its namespaces (or object paths),
or names none to mean all of them; a refresh of everything retires the catalog roots whose
namespace vanished at the source, and a named namespace the source lacks is counted
as skipped and its root retired. Discovery takes the namespaces with no root yet or an
unscanned one. A busy subtree fails a refresh and is skipped by discovery; a failure that
does not abort the resource skips its namespace.
-/

namespace DataCatalog.Scan

open DataCatalog.Catalog DataCatalog.Connect DataCatalog.Source DataCatalog.Storage
open DataCatalog.Ident DataCatalog.Schedule

/-- A pass: a scan step that also counts, keeping its counts when it fails. -/
abbrev Pass := ExceptT ScanError (StateT ScanCounts (Turns World))

/-- Runs a scan step inside a pass. -/
def Pass.lift {α : Type} (s : Step α) : Pass α := ExceptT.mk (StateT.lift (ExceptT.run s))

/-- Changes the pass's counts. -/
def Pass.tally (f : ScanCounts → ScanCounts) : Pass Unit := modifyThe ScanCounts f

/-- Counts one skipped namespace. -/
def Pass.skip : Pass Unit := Pass.tally fun c => { c with skipped := c.skipped + 1 }

/-- Runs a pass step and returns its failure instead of passing it on, unless it ends the run. -/
def Pass.attempt {α : Type} (body : Pass α) : Pass (Except ScanError α) :=
  tryCatch (Except.ok <$> body) fun e => if e.fatal then throw e else pure (.error e)

/-- Passes on a failure returned by `Pass.attempt`. -/
def Pass.ofExcept {α : Type} : Except ScanError α → Pass α
  | .ok a => pure a
  | .error e => throw e

/-- Runs a pass from zero counts: the counts it gathered and the error that ended it; an
error that ends the run is passed on. -/
def Pass.run (p : Pass Unit) : Step (ScanCounts × Option ScanError) := ExceptT.mk do
  let (r, counts) ← (ExceptT.run p).run {}
  pure (match r with
    | .ok _ => .ok (counts, none)
    | .error e => if e.fatal then .error e else .ok (counts, some e))

/-- How a pass chooses its namespaces. -/
inductive Selection where
  /-- The named namespaces or object paths, or all of them when none is named. -/
  | refresh (names : List String)
  /-- The namespaces never scanned. -/
  | unscanned
deriving Repr, DecidableEq

/-- Writes the catalog row of a directory entry, with the credential-free attributes. -/
def ensureResource (r : RegisteredResource) (d : Descriptor) : Step ResourceRow :=
  writeResource ⟨r.tenant, r.externalId, d.kind.name, d.engine, r.name, d.sanitized,
    if r.active then .active else .inactive⟩

/-- The guard key of a root namespace of a resource. -/
def rootKey (resource : ResourceRow) (kind : NodeKind) (name : String) : SubtreeKey :=
  ⟨resource.tenant, resource.id, kind, name⟩

/-- Retires the live root of a vanished namespace, unless its subtree is busy. -/
def retireNamespace (resource : ResourceRow) (kind : NodeKind) (name : String) : Step Unit := do
  let some node ← readCatalog (·.getNode resource.tenant resource.id none kind name) | return ()
  let key := rootKey resource kind name
  if isHeld (← get).held key then return ()
  guarded key (retireCatalogNode resource.tenant node.id)

/-- Retires each root of `kind` whose name the source no longer has. -/
def retireVanished (resource : ResourceRow) (kind : NodeKind) (present : List String) :
    List NodeRow → Step Unit
  | [] => pure ()
  | root :: rest => do
    if root.kind == kind && !present.contains root.name then retireNamespace resource kind root.name
    retireVanished resource kind present rest

/-- Keeps the requested names the source has, once each, in request order; the others
are counted as skipped and their roots retired. -/
def chooseNamed (resource : ResourceRow) (kind : NodeKind) (present : List String) :
    List String → List String → Pass (List String)
  | chosen, [] => pure chosen
  | chosen, name :: rest => do
    if chosen.contains name then chooseNamed resource kind present chosen rest
    else if present.contains name then chooseNamed resource kind present (chosen ++ [name]) rest
    else
      Pass.skip
      Pass.lift (retireNamespace resource kind name)
      chooseNamed resource kind present chosen rest

/-- Whether a namespace has not been scanned: no root yet, or an unscanned one. -/
def isUnscanned (roots : List NodeRow) (kind : NodeKind) (name : String) : Bool :=
  match roots.find? fun n => n.kind == kind && n.name == name with
  | some n => n.scanStatus == .unscanned
  | none => true

/-- The namespaces a pass reconciles, out of those the source has. -/
def selectNamespaces (resource : ResourceRow) (kind : NodeKind) (present : List String) :
    Selection → Pass (List String)
  | .refresh [] => do
    let roots ← Pass.lift (readCatalog (·.listRootNodes resource.tenant resource.id none))
    Pass.lift (retireVanished resource kind present roots)
    pure present
  | .refresh requested =>
    chooseNamed resource kind present []
      ((requested.map Text.trim).filter (!·.isEmpty))
  | .unscanned => do
    let roots ← Pass.lift (readCatalog (·.listRootNodes resource.tenant resource.id none))
    pure (present.filter (isUnscanned roots kind))

/-- Takes a namespace's guard. A busy subtree fails a refresh; discovery counts it as
skipped and answers `false`. -/
def acquireFor (key : SubtreeKey) (selection : Selection) : Pass Bool := do
  match tryAcquire (← getThe World).held key with
  | .ok held =>
    modifyThe World fun w => { w with held := held }
    pure true
  | .error e =>
    match selection with
    | .unscanned =>
      Pass.skip
      pure false
    | .refresh _ => throw e

/-- Reconciles one namespace under its guard, adding what it did to the counts; a failure
that does not abort the resource skips the namespace. -/
def reconcileGuarded (key : SubtreeKey) (selection : Selection) (body : Step ScanCounts) :
    Pass Unit := do
  if !(← acquireFor key selection) then return ()
  let result ← Pass.lift (Step.attempt body)
  Pass.lift (releaseGuard key)
  match result with
  | .ok done => Pass.tally (· + done)
  | .error e => if e.abortsResource then throw e else Pass.skip

/-- Reconciles the chosen schemas, in the order the source lists them. -/
def scanSchemas (resource : ResourceRow) (kind : ResourceKind) (selection : Selection)
    (targets : List String) : List SchemaSummary → Pass Unit
  | [] => pure ()
  | schema :: rest => do
    if targets.contains schema.name then
      reconcileGuarded (rootKey resource kind.namespaceKind schema.name) selection
        (reconcileSchema resource kind schema)
    scanSchemas resource kind selection targets rest

/-- A pass over a relational resource. -/
def scanRelational (resource : ResourceRow) (kind : ResourceKind) (selection : Selection) :
    Pass Unit := do
  let schemas ← Pass.lift (inRelational listSchemas)
  let targets ← selectNamespaces resource kind.namespaceKind (schemas.map (·.name)) selection
  scanSchemas resource kind selection targets schemas

/-- Reconciles object paths in order; a path without a bucket is skipped. -/
def scanPaths (resource : ResourceRow) (selection : Selection) : List String → Pass Unit
  | [] => pure ()
  | path :: rest => do
    match splitObjectPath path with
    | none => Pass.skip
    | some (bucket, _) =>
      reconcileGuarded (rootKey resource .bucket bucket) selection
        (reconcileObjectPath resource path)
    scanPaths resource selection rest

/-- The first requested path whose bucket is not allowed, if any. -/
def refusedBucket? (allowed : List String) (paths : List String) : Option String :=
  (paths.filterMap fun p => (splitObjectPath p).map (·.1)).find? (!allowed.contains ·)

/-- A pass over an object-storage resource: the requested paths, or chosen buckets. -/
def scanObjects (resource : ResourceRow) (selection : Selection) : Pass Unit := do
  let buckets ← Pass.lift (inObjects allowedBuckets)
  let targets ← match selection with
    | .refresh paths@(_ :: _) =>
      match refusedBucket? buckets paths with
      | some b => throw (ScanError.ofConnector (.bucketNotAllowed b))
      | none => pure paths
    | _ => selectNamespaces resource .bucket buckets selection
  scanPaths resource selection targets

/-- A pass over a directory entry. -/
def scanRegistered (r : RegisteredResource) (selection : Selection) : Pass Unit := do
  let d ← Pass.lift (Step.ofExcept r.descriptor)
  let resource ← Pass.lift (ensureResource r d)
  if !r.active then throw (.configuration ("resource " ++ r.externalId.text ++ " is inactive"))
  let conn ← Pass.lift (connect d)
  let result ← Pass.attempt (match conn with
    | .relational kind => scanRelational resource kind selection
    | .objectStorage => scanObjects resource selection)
  Pass.lift conn.close
  Pass.ofExcept result

/-- A pass over one table of a directory entry. -/
def scanRegisteredTable (r : RegisteredResource) (schema table : String) : Pass Unit := do
  let d ← Pass.lift (Step.ofExcept r.descriptor)
  let resource ← Pass.lift (ensureResource r d)
  if !r.active then throw (.configuration ("resource " ++ r.externalId.text ++ " is inactive"))
  let conn ← Pass.lift (connect d)
  let result ← Pass.attempt (match conn with
    | .relational kind => do
      let done ← Pass.lift (guarded (rootKey resource kind.namespaceKind schema)
        (reconcileTable resource kind schema table))
      Pass.tally (· + done)
    | .objectStorage =>
      throw (.configuration ("resource " ++ r.externalId.text ++ " is not relational")))
  Pass.lift conn.close
  Pass.ofExcept result

end DataCatalog.Scan
