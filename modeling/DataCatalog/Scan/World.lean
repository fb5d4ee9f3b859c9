import DataCatalog.Scan.Locks
import DataCatalog.Scan.Directory
import DataCatalog.Catalog.Items
import DataCatalog.Catalog.Runs
import DataCatalog.Source.Relational
import DataCatalog.Storage.Connector
import DataCatalog.Schedule.Interleave
/-!
# The scanning world

Everything a scan reads or writes: the catalog, the relational source and the object store
that all resources share, the resource directory, the connection factory's injected failure
and its connection counter, the held subtree guards, the object connector of the pass
in progress, how many passes a discovery run may make at once, and the platform's registry of
media types by extension, which a deployment supplies.

A scan step either succeeds or fails with a scan error. A failed catalog operation leaves the
catalog as it was; source and store calls keep their counters, and a connector keeps its
discovered buckets, whether they fail or not.

The catalog has one connection, which serves its callers one at a time. A catalog call waits
for the connection once for every statement or transaction it sends, and takes effect at its
visit that writes. Passes that run side by side (`Step.interleaved`) interleave only at these
waits, served first come first served, and each keeps its own object connector.
-/

namespace DataCatalog.Scan

open DataCatalog.Catalog DataCatalog.Connect DataCatalog.Source DataCatalog.Storage
open DataCatalog.Schedule

/-- The state scans run against. -/
structure World where
  catalog : Tables := {}
  relational : RelationalSource := {}
  objects : ObjectStore := {}
  directory : Directory := {}
  connectFailure : Option ConnectorError := none
  connects : Nat := 0
  held : List SubtreeKey := []
  connector : ObjectConnector := ObjectConnector.new []
  maxConcurrentScans : Nat := 4
  mediaTypes : List (String × String) := []
deriving Repr

/-- A scan step. -/
abbrev Step := ExceptT ScanError (Turns World)

/-- Runs a scan step alone: every wait for the catalog connection is served at once. -/
def Step.runAlone {α : Type} (s : Step α) (w : World) : Except ScanError α × World :=
  (ExceptT.run s).run w

/-- Fails a scan step. -/
def Step.fail {α : Type} (e : ScanError) : Step α := throw e

/-- Lifts a result that may have failed. -/
def Step.ofExcept {α : Type} : Except ScanError α → Step α
  | .ok a => pure a
  | .error e => throw e

/-- Runs a step and returns its failure instead of passing it on, unless it ends the run; the
state it reached stays. -/
def Step.attempt {α : Type} (body : Step α) : Step (Except ScanError α) :=
  tryCatch (Except.ok <$> body) fun e => if e.fatal then throw e else pure (.error e)

/-- Waits for the catalog connection `n` times. -/
def awaitCatalog : Nat → Step Unit
  | 0 => pure ()
  | n + 1 => do
    ExceptT.lift Turns.pause
    awaitCatalog n

/-- Runs a catalog operation that visits the catalog connection `ahead` times before the visit
at which it takes effect and `behind` times after it, as one that reads what it needs first or
reads back what it wrote. Its failure is a persistence error and changes nothing. -/
def inCatalogSpan {α : Type} (ahead behind : Nat) (op : Store α) : Step α := do
  awaitCatalog (ahead + 1)
  let a ← ExceptT.mk do
    let w ← get
    match op.run w.catalog with
    | .ok (a, c) =>
      set { w with catalog := c }
      pure (.ok a)
    | .error e => pure (.error (.persistence e))
  awaitCatalog behind
  pure a

/-- Runs a catalog operation that visits the catalog connection once. -/
def inCatalog {α : Type} (op : Store α) : Step α := inCatalogSpan 0 0 op

/-- Reads the catalog in one visit. -/
def readCatalog {α : Type} (f : Tables → α) : Step α := inCatalog fun c => .ok (f c, c)

/-- Writes a node by its natural key; a child node reads its parent first, and the node is read
back. -/
def writeNode (i : NodeInput) : Step NodeRow :=
  inCatalogSpan (if i.parent.isSome then 1 else 0) 1 (upsertNode i)

/-- Writes an item by its natural key after reading its node; the item is read back. -/
def writeItem (i : ItemInput) : Step ItemRow := inCatalogSpan 1 1 (upsertItem i)

/-- Clears the subtree below a node in one transaction, after reading the node. -/
def clearNode (tenant : Ident.TenantId) (id : Ident.NodeId) : Step (Nat × Nat) :=
  inCatalogSpan 1 0 (clearSubtree tenant id)

/-- Retires a node with its subtree in one transaction, after reading the node. -/
def retireCatalogNode (tenant : Ident.TenantId) (id : Ident.NodeId) : Step Unit :=
  inCatalogSpan 1 0 (retireNode tenant id)

/-- Writes a resource row in one transaction; the row is read back. -/
def writeResource (i : ResourceInput) : Step ResourceRow := inCatalogSpan 0 1 (upsertResource i)

/-- Records a new run; the run is read back. -/
def openRun (tenant : Ident.TenantId) (externalId : Option Ident.ExternalId) (mode : ScanMode)
    (targets : List String) : Step RunRow :=
  inCatalogSpan 0 1 (createRun tenant externalId mode targets)

/-- Records a run's end; the run is read back. -/
def endRun (tenant : Ident.TenantId) (id : Ident.RunId) (status : RunStatus)
    (message : Option String) (counts : ScanCounts) : Step RunRow :=
  inCatalogSpan 0 1 (finishRun tenant id status message counts)

/-- Runs a relational source call, keeping its connector error. -/
def tryRelational {α : Type} (call : RelationalCall α) : Step (Except ConnectorError α) := do
  let w ← get
  let (r, s) := Id.run ((ExceptT.run call).run w.relational)
  set { w with relational := s }
  pure r

/-- Runs a relational source call. -/
def inRelational {α : Type} (call : RelationalCall α) : Step α := do
  Step.ofExcept ((← tryRelational call).mapError ScanError.ofConnector)

/-- Runs a call of the pass's object connector, keeping its connector error. -/
def tryObjects {α : Type} (call : ConnectorCall α) : Step (Except ConnectorError α) := do
  let w ← get
  let (r, side) := Id.run ((ExceptT.run call).run ⟨w.connector, w.objects, w.mediaTypes⟩)
  set { w with connector := side.connector, objects := side.store }
  pure r

/-- Runs a call of the pass's object connector. -/
def inObjects {α : Type} (call : ConnectorCall α) : Step α := do
  Step.ofExcept ((← tryObjects call).mapError ScanError.ofConnector)

/-- Takes a subtree guard, or fails with the subtree busy. -/
def acquire (k : SubtreeKey) : Step Unit := do
  let held ← Step.ofExcept (tryAcquire (← get).held k)
  modify fun w => { w with held := held }

/-- Drops a subtree guard. -/
def releaseGuard (k : SubtreeKey) : Step Unit :=
  modify fun w => { w with held := release w.held k }

/-- Runs `body` holding the guard for `k`, dropping it afterwards whether `body` fails or not. -/
def guarded {α : Type} (k : SubtreeKey) (body : Step α) : Step α := do
  acquire k
  let r ← tryCatch body fun e => do
    releaseGuard k
    throw e
  releaseGuard k
  pure r

/-- The pass's object connector, as a context of its own when passes run side by side. -/
def connectorSwitch : Switch ObjectConnector World :=
  ⟨fun c w => { w with connector := c }, (·.connector)⟩

/-- More turns at the catalog connection than any run of passes takes. -/
def turnBudget : Nat := Nat.pow 2 40

/-- Runs steps side by side, at most `slots` at a time, the catalog connection serving them
first come first served; each has its own object connector. The outcome of each, in the
order given; `none` only for one still unfinished after `turnBudget` turns. -/
def Step.interleaved {α : Type} (slots : Nat) (steps : List (Step α)) :
    Step (List (Option (Except ScanError α))) :=
  ExceptT.lift (Turns.step (fun w =>
    let (outcomes, w') := interleave connectorSwitch w.connector Policy.fifo slots turnBudget
      (steps.map ExceptT.run) w
    (outcomes, { w' with connector := w.connector })) Turns.done)

/-- A connection handed out by the factory. -/
inductive Connection where
  | relational (kind : ResourceKind)
  | objectStorage
deriving Repr, DecidableEq

/-- Connects to a resource: counts the attempt, reports an injected failure, checks the
family's settings, and for object storage opens a fresh connector on the allowed buckets. -/
def connect (d : Descriptor) : Step Connection := do
  modify fun w => { w with connects := w.connects + 1 }
  if let some e := (← get).connectFailure then throw (ScanError.ofConnector e)
  match d.kind.family with
  | .relational =>
    let _ ← Step.ofExcept ((RelationalSettings.ofDescriptor d).mapError ScanError.ofConnector)
    pure (.relational d.kind)
  | .objectStorage =>
    let settings ← Step.ofExcept ((ObjectStoreSettings.ofDescriptor d).mapError ScanError.ofConnector)
    modify fun w => { w with connector := ObjectConnector.new settings.buckets }
    pure .objectStorage

/-- Closes a connection: a relational source counts it, object storage does nothing. -/
def Connection.close : Connection → Step Unit
  | .relational _ => modify fun w => { w with relational := (closeSource.run w.relational).2 }
  | .objectStorage => pure ()

end DataCatalog.Scan
