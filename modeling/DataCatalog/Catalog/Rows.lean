import DataCatalog.Catalog.Kinds
import DataCatalog.Catalog.Attributes
import DataCatalog.Catalog.Error
import DataCatalog.Ident.Basic
import DataCatalog.Word
/-!
# Catalog rows

The catalog records external systems as resources, a tree of nodes per resource (relational
namespaces, buckets and prefixes), items hanging off nodes (tables, views and objects), and
scan runs. Every row belongs to a tenant.

A node records its depth (roots are at depth 1), its path of ancestor ids ending with its
own id (`/root/child/`), and its full name built from its ancestors' names. It is live until
retired; a retired node keeps its row with a deletion time.

The catalog keeps rows in the order they were first written, mints serial ids, and reads a
clock that moves one millisecond on every reading.
-/

namespace DataCatalog.Catalog

open DataCatalog.Json DataCatalog.Time DataCatalog.Ident

/-- The catalog's copy of an external system's registration. -/
structure ResourceRow where
  id : ResourceId
  tenant : TenantId
  externalId : ExternalId
  kind : String
  engine : String
  name : String
  config : List (String × Value)
  status : EntityStatus
  syncVersion : Nat
  lastSyncedAt : Option Instant
  createdAt : Instant
  updatedAt : Instant
deriving Repr

/-- A level of a resource's hierarchy. -/
structure NodeRow where
  id : NodeId
  tenant : TenantId
  resource : ResourceId
  parent : Option NodeId
  kind : NodeKind
  name : String
  depth : Nat
  path : String
  fullName : String
  status : EntityStatus
  scanStatus : ScanStatus
  scanStartedAt : Option Instant
  lastScanAt : Option Instant
  itemCount : Int
  totalSize : Int
  attributes : NodeAttributes
  errorMessage : Option String
  syncVersion : Nat
  deletedAt : Option Instant
deriving Repr

/-- A leaf of a resource's hierarchy. -/
structure ItemRow where
  id : ItemId
  tenant : TenantId
  resource : ResourceId
  node : NodeId
  kind : ItemKind
  name : String
  fullName : String
  status : EntityStatus
  rowCount : Option Int
  sizeBytes : Int
  lastModifiedMs : Option Int
  attributes : ItemAttributes
  syncVersion : Nat
deriving Repr

/-- Counters of a scan. -/
structure ScanCounts where
  namespaces : Nat := 0
  items : Nat := 0
  fields : Nat := 0
  skipped : Nat := 0
deriving Repr, DecidableEq

instance : Add ScanCounts :=
  ⟨fun a b => ⟨a.namespaces + b.namespaces, a.items + b.items, a.fields + b.fields,
    a.skipped + b.skipped⟩⟩

/-- A recorded scan. -/
structure RunRow where
  id : RunId
  tenant : TenantId
  externalId : Option ExternalId
  mode : ScanMode
  targets : List String
  status : RunStatus
  errorMessage : Option String
  counts : ScanCounts
  startedAt : Instant
  completedAt : Option Instant
  durationMs : Option Int
deriving Repr

/-- Item count and total size of a subtree. -/
structure Aggregate where
  itemCount : Int := 0
  totalSize : Int := 0
deriving Repr, DecidableEq

/-- The aggregate with one more item of the given size, added as words. -/
def Aggregate.addItem (a : Aggregate) (size : Int) : Aggregate :=
  ⟨Word.wrap (a.itemCount + 1), Word.wrap (a.totalSize + size)⟩

/-- The whole catalog: its four tables, the serial of the next minted id, and its clock. -/
structure Tables where
  resources : List ResourceRow := []
  nodes : List NodeRow := []
  items : List ItemRow := []
  runs : List RunRow := []
  serial : Nat := 0
  clock : Int := 1700000000000
deriving Repr

/-- A catalog operation: it reads and writes the catalog, or fails and leaves it as it was. -/
abbrev Store := StateT Tables (Except StoreError)

/-- Fails a store operation. -/
def Store.fail {α : Type} (e : StoreError) : Store α := fun _ => .error e

/-- A fresh UUID text. -/
def Tables.mint : Store String := fun c =>
  .ok (Uuid.ofSerial c.serial, { c with serial := c.serial + 1 })

/-- The current time; each reading is one millisecond after the previous one. -/
def Tables.now : Store Instant := fun c =>
  .ok (Instant.ofMillis c.clock, { c with clock := c.clock + 1 })

/-- Whether a node is live. -/
def NodeRow.isLive (n : NodeRow) : Bool := n.deletedAt.isNone

/-- Replaces the first row that satisfies `p`. -/
def replaceWhere {α : Type} (p : α → Bool) (f : α → α) : List α → List α
  | [] => []
  | x :: xs => if p x then f x :: xs else x :: replaceWhere p f xs

/-- Changes every row that satisfies `p`. -/
def updateWhere {α : Type} (p : α → Bool) (f : α → α) (xs : List α) : List α :=
  xs.map fun x => if p x then f x else x

end DataCatalog.Catalog

namespace DataCatalog.Catalog

/-- Stable sort by a comparison: rows that compare equal keep their order. -/
def sortOn {α : Type} (cmp : α → α → Ordering) (xs : List α) : List α :=
  xs.mergeSort fun a b => cmp a b != .gt

/-- Keeps at most `limit` rows. -/
def takeLimit {α : Type} (limit : Nat) (xs : List α) : List α := xs.take limit

end DataCatalog.Catalog
