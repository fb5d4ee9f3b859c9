import DataCatalog.Catalog.Nodes
/-!
# Items in the catalog

An item is identified by its tenant, resource, node, kind and name. Writing an item needs its
node to be live; the item takes its resource from the node and its full name from the
node's full name, the node kind's separator and its own name. Writing it again replaces its
measurements and attributes and raises its sync version.
-/

namespace DataCatalog.Catalog

open DataCatalog.Time DataCatalog.Ident

/-- What an item write gives. -/
structure ItemInput where
  tenant : TenantId
  node : NodeId
  kind : ItemKind
  name : String
  rowCount : Option Int
  sizeBytes : Int
  lastModified : Option Instant
  attributes : ItemAttributes

/-- Whether an item row has this natural key below its node. -/
def ItemRow.hasKey (i : ItemRow) (tenant : TenantId) (node : NodeId) (kind : ItemKind)
    (name : String) : Bool :=
  i.tenant == tenant && i.node == node && i.kind == kind && i.name == name

/-- An item by tenant, node, kind and name. -/
def Tables.getItem (c : Tables) (tenant : TenantId) (node : NodeId) (kind : ItemKind)
    (name : String) : Option ItemRow :=
  c.items.find? (·.hasKey tenant node kind name)

/-- Inserts or updates an item below a live node and returns it. -/
def upsertItem (i : ItemInput) : Store ItemRow := do
  let node ← requireNode i.tenant i.node
  let fullName := node.fullName ++ node.kind.separator ++ i.name
  let newId ← Tables.mint
  let c ← get
  let ms := i.lastModified.map Instant.toMillis
  match c.items.find? (·.hasKey i.tenant node.id i.kind i.name) with
  | some old =>
    let row : ItemRow := { old with
      fullName := fullName
      status := .active
      rowCount := i.rowCount
      sizeBytes := i.sizeBytes
      lastModifiedMs := ms
      attributes := i.attributes
      syncVersion := old.syncVersion + 1 }
    set { c with items := replaceWhere (·.id == old.id) (fun _ => row) c.items }
    pure row
  | none =>
    let row : ItemRow := ⟨⟨newId⟩, i.tenant, node.resource, node.id, i.kind, i.name, fullName,
      .active, i.rowCount, i.sizeBytes, ms, i.attributes, 1⟩
    set { c with items := c.items ++ [row] }
    pure row

/-- The items attached to a node, by kind and name. -/
def Tables.listItems (c : Tables) (tenant : TenantId) (node : NodeId) : List ItemRow :=
  sortOn (fun a b => (compare a.kind.name b.kind.name).then (compare a.name b.name))
    (c.items.filter fun i => i.tenant == tenant && i.node == node)

/-- Orders items by full name, then kind. -/
def compareFullName (a b : ItemRow) : Ordering :=
  (compare a.fullName b.fullName).then (compare a.kind.name b.kind.name)

/-- The items of a resource by full name. -/
def Tables.listResourceItems (c : Tables) (tenant : TenantId) (resource : ResourceId) :
    List ItemRow :=
  sortOn compareFullName (c.items.filter fun i => i.tenant == tenant && i.resource == resource)

/-- Removes one item; tells whether it existed. -/
def deleteItem (tenant : TenantId) (node : NodeId) (kind : ItemKind) (name : String) :
    Store Bool := do
  let c ← get
  let (gone, kept) := c.items.partition (·.hasKey tenant node kind name)
  set { c with items := kept }
  pure !gone.isEmpty

end DataCatalog.Catalog
