import DataCatalog.Scan.World
import DataCatalog.Connect.Namespace
import DataCatalog.Catalog.Nodes
import DataCatalog.Catalog.Items
/-!
# Reconciling relational namespaces

A schema (or database) pass is a full replace. The namespace node is written with the
counts the source reports and marked as being scanned; everything below it is cleared; each
table is read with its columns and recorded as a table or a view; the node is marked scanned
with the number and total size of the recorded tables. A table whose columns cannot be read
is skipped, unless the connection itself failed, which fails the pass. A failed pass returns
the node to unscanned with the error recorded.

A table pass refreshes one table of a namespace already in the catalog: the table is
recorded again, its row of the other kind (a table that became a view, or back) removed, or
both rows removed when the table vanished; the namespace's aggregates are then recomputed
from its children. Sibling tables and the namespace's scan status stay as they were.
-/

namespace DataCatalog.Scan

open DataCatalog.Catalog DataCatalog.Connect DataCatalog.Source

/-- The item a table is recorded as: a view when its type says so, sizes never negative. -/
def tableItem (node : NodeRow) (t : TableSummary) (fields : List Column) : ItemInput :=
  ⟨node.tenant, node.id, if t.isView then .view else .table, t.name, t.rowEstimate,
    max 0 (t.sizeBytes.getD 0), none, .table t.kind t.comment fields⟩

/-- Records a failed pass on a subtree root; a failure to record it is dropped, so the
pass's own error is the one reported. -/
def markFailed (tenant : Ident.TenantId) (id : Ident.NodeId) (error : String) : Step Unit := do
  let _ ← Step.attempt (inCatalog (failNodeScan tenant id error))

/-- Records the tables of a namespace one by one, adding up what was recorded. -/
def recordTables (node : NodeRow) :
    List TableSummary → Aggregate → ScanCounts → Step (Aggregate × ScanCounts)
  | [], agg, counts => pure (agg, counts)
  | t :: rest, agg, counts => do
    match ← tryRelational (scanFields node.name t.name) with
    | .error e =>
      if e.isConnectionLevel then throw (ScanError.ofConnector e)
      else recordTables node rest agg { counts with skipped := counts.skipped + 1 }
    | .ok fields =>
      let item ← writeItem (tableItem node t fields)
      recordTables node rest (agg.addItem item.sizeBytes)
        { counts with items := counts.items + 1, fields := counts.fields + fields.length }

/-- Clears a namespace and records its tables afresh. -/
def replaceTables (node : NodeRow) : Step (Aggregate × ScanCounts) := do
  let _ ← clearNode node.tenant node.id
  let tables ← inRelational (scanTables node.name)
  recordTables node tables {} {}

/-- A full pass over one schema or database of a relational resource of kind `kind`. -/
def reconcileSchema (resource : ResourceRow) (kind : ResourceKind) (schema : SchemaSummary) :
    Step ScanCounts := do
  let node ← writeNode ⟨resource.tenant, resource.id, none, kind.namespaceKind,
    schema.name, some (.namespaceInfo schema.tableCount schema.sizeBytes schema.charset
      schema.collation)⟩
  inCatalog (beginNodeScan resource.tenant node.id)
  match ← Step.attempt (replaceTables node) with
  | .ok (agg, counts) =>
    inCatalog (finishNodeScan resource.tenant node.id agg)
    pure { counts with namespaces := 1 }
  | .error e =>
    markFailed resource.tenant node.id e.message
    throw e

/-- Refreshes one table of a namespace that is already in the catalog. -/
def reconcileTable (resource : ResourceRow) (kind : ResourceKind) (schema table : String) :
    Step ScanCounts := do
  let tenant := resource.tenant
  let nodeKind := kind.namespaceKind
  let some node ← readCatalog (·.getNode tenant resource.id none nodeKind schema)
    | throw (.configuration (nodeKind.name ++ " '" ++ schema ++
        "' is not in the catalog yet; scan it first"))
  let tables ← inRelational (scanTables schema)
  let counts ← match tables.find? (·.name == table) with
    | some summary => do
      let fields ← inRelational (scanFields schema table)
      let item := tableItem node summary fields
      let other := if item.kind == .view then ItemKind.table else .view
      let _ ← inCatalog (deleteItem tenant node.id other table)
      let _ ← writeItem item
      pure ({ items := 1, fields := fields.length } : ScanCounts)
    | none => do
      let _ ← inCatalog (deleteItem tenant node.id .table table)
      let _ ← inCatalog (deleteItem tenant node.id .view table)
      pure {}
  let agg ← inCatalog (sumChildren tenant node.id)
  inCatalog (setNodeAggregate tenant node.id agg)
  pure counts

end DataCatalog.Scan
