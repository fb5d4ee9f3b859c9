import DataCatalog.Text.Case
/-!
# Catalog vocabulary

The small closed sets the catalog records: lifecycle status of rows, scan status of node
subtrees, node and item kinds, scan modes and run statuses. Each has one lowercase name;
reading a name ignores case.
-/

namespace DataCatalog.Catalog

/-- Lifecycle status shared by resources, nodes and items. -/
inductive EntityStatus where
  | active | inactive | deleted
deriving Repr, DecidableEq

/-- Scan status of a node subtree: unscanned, being scanned, or scanned. -/
inductive ScanStatus where
  | unscanned | scanning | scanned
deriving Repr, DecidableEq

/-- The level of a hierarchy node: relational namespaces, buckets and prefixes. -/
inductive NodeKind where
  | schema | database | bucket | keyPrefix
deriving Repr, DecidableEq

/-- The kind of a leaf. -/
inductive ItemKind where
  | table | view | object
deriving Repr, DecidableEq

/-- Who started a scan run. -/
inductive ScanMode where
  | manual | auto
deriving Repr, DecidableEq

/-- Where a scan run stands. -/
inductive RunStatus where
  | running | success | failed
deriving Repr, DecidableEq

/-- The name of a status. -/
def EntityStatus.name : EntityStatus → String
  | .active => "active" | .inactive => "inactive" | .deleted => "deleted"

/-- The name of a scan status. -/
def ScanStatus.name : ScanStatus → String
  | .unscanned => "unscanned" | .scanning => "scanning" | .scanned => "scanned"

/-- The name of a node kind. -/
def NodeKind.name : NodeKind → String
  | .schema => "schema" | .database => "database" | .bucket => "bucket" | .keyPrefix => "prefix"

/-- The name of an item kind. -/
def ItemKind.name : ItemKind → String
  | .table => "table" | .view => "view" | .object => "object"

/-- The name of a scan mode. -/
def ScanMode.name : ScanMode → String
  | .manual => "manual" | .auto => "auto"

/-- The name of a run status. -/
def RunStatus.name : RunStatus → String
  | .running => "running" | .success => "success" | .failed => "failed"

/-- A run is finished once it is no longer running. -/
def RunStatus.isTerminal : RunStatus → Bool
  | .running => false
  | _ => true

/-- The separator between a node's full name and a child's name: a dot below relational
namespaces, a slash below buckets and prefixes. -/
def NodeKind.separator : NodeKind → String
  | .schema => "." | .database => "." | .bucket => "/" | .keyPrefix => "/"

/-- The member of `all` whose name is the lowercase of `s`. -/
def readName? {α : Type} (all : List α) (name : α → String) (s : String) : Option α :=
  let l := Text.lower s
  all.find? (name · = l)

/-- Reads a status name in any case. -/
def EntityStatus.parse? : String → Option EntityStatus :=
  readName? [.active, .inactive, .deleted] EntityStatus.name

/-- Reads a scan status name in any case. -/
def ScanStatus.parse? : String → Option ScanStatus :=
  readName? [.unscanned, .scanning, .scanned] ScanStatus.name

/-- Reads a node kind name in any case. -/
def NodeKind.parse? : String → Option NodeKind :=
  readName? [.schema, .database, .bucket, .keyPrefix] NodeKind.name

/-- Reads an item kind name in any case. -/
def ItemKind.parse? : String → Option ItemKind :=
  readName? [.table, .view, .object] ItemKind.name

/-- Reads a scan mode name in any case. -/
def ScanMode.parse? : String → Option ScanMode :=
  readName? [.manual, .auto] ScanMode.name

/-- Reads a run status name in any case. -/
def RunStatus.parse? : String → Option RunStatus :=
  readName? [.running, .success, .failed] RunStatus.name

end DataCatalog.Catalog
