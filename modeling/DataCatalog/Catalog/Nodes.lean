import DataCatalog.Catalog.Resources
import DataCatalog.Text.Segments
/-!
# Nodes in the catalog

A node is identified by its tenant, resource, parent, kind and name, whether live or
retired. Writing a node derives its depth, path and full name from its live parent (which
must belong to the same resource); writing it again updates those, revives a retired node
and raises its sync version, keeping its scan state and aggregates. Attributes are replaced
only when given.

The subtree of a node is the node and every node whose path starts with its path. Clearing a
subtree removes every item in it and every node below the root; retiring a node clears its
subtree and marks the node deleted, unscanned and empty.
-/

namespace DataCatalog.Catalog

open DataCatalog.Time DataCatalog.Ident

/-- What a node write gives. -/
structure NodeInput where
  tenant : TenantId
  resource : ResourceId
  parent : Option NodeId
  kind : NodeKind
  name : String
  attributes : Option NodeAttributes

/-- Whether a node row has this natural key. -/
def NodeRow.hasKey (n : NodeRow) (tenant : TenantId) (resource : ResourceId)
    (parent : Option NodeId) (kind : NodeKind) (name : String) : Bool :=
  n.tenant == tenant && n.resource == resource && n.parent == parent && n.kind == kind &&
    n.name == name

/-- Whether a node row is this tenant's node `id`. -/
def NodeRow.isNode (n : NodeRow) (tenant : TenantId) (id : NodeId) : Bool :=
  n.tenant == tenant && n.id == id

/-- A tenant's live node by id. -/
def Tables.nodeById? (c : Tables) (tenant : TenantId) (id : NodeId) : Option NodeRow :=
  c.nodes.find? fun n => n.isNode tenant id && n.isLive

/-- A live node by natural key. -/
def Tables.getNode (c : Tables) (tenant : TenantId) (resource : ResourceId)
    (parent : Option NodeId) (kind : NodeKind) (name : String) : Option NodeRow :=
  c.nodes.find? fun n => n.hasKey tenant resource parent kind name && n.isLive

/-- A tenant's live node by id, or a not-found error naming it. -/
def requireNode (tenant : TenantId) (id : NodeId) : Store NodeRow := do
  match (← get).nodeById? tenant id with
  | some n => pure n
  | none => Store.fail (.notFound ("node " ++ id.text))

/-- Depth, path prefix and full name of a node below `parent`. -/
def placement (parent : Option NodeRow) (kind : NodeKind) (name : String) : Nat × String × String :=
  match parent with
  | some p => (p.depth + 1, p.path, p.fullName ++ kind.separator ++ name)
  | none => (1, "/", name)

/-- The live parent a node write names, checked to be in the same resource. -/
def parentFor (i : NodeInput) : Store (Option NodeRow) := do
  match i.parent with
  | none => pure none
  | some pid =>
    match (← get).nodeById? i.tenant pid with
    | none => Store.fail (.notFound ("parent node " ++ pid.text))
    | some p =>
      if p.resource == i.resource then pure (some p)
      else Store.fail (.constraint ("parent node " ++ pid.text ++ " belongs to resource " ++
        p.resource.text ++ ", not " ++ i.resource.text))

/-- Inserts or updates a node by natural key and returns it. -/
def upsertNode (i : NodeInput) : Store NodeRow := do
  let parent ← parentFor i
  let (depth, pathPrefix, fullName) := placement parent i.kind i.name
  let newId ← Tables.mint
  let c ← get
  match c.nodes.find? (·.hasKey i.tenant i.resource i.parent i.kind i.name) with
  | some old =>
    let row : NodeRow := { old with
      depth := depth
      path := pathPrefix ++ old.id.text ++ "/"
      fullName := fullName
      attributes := i.attributes.getD old.attributes
      status := .active
      deletedAt := none
      syncVersion := old.syncVersion + 1 }
    set { c with nodes := replaceWhere (·.id == old.id) (fun _ => row) c.nodes }
    pure row
  | none =>
    if c.resources.any (·.id == i.resource) then
      let row : NodeRow := ⟨⟨newId⟩, i.tenant, i.resource, i.parent, i.kind, i.name, depth,
        pathPrefix ++ newId ++ "/", fullName, .active, .unscanned, none, none, 0, 0,
        i.attributes.getD .empty, none, 1, none⟩
      set { c with nodes := c.nodes ++ [row] }
      pure row
    else Store.fail foreignKeyFailure

/-- Orders nodes by name, then kind. -/
def compareNameKind (a b : NodeRow) : Ordering :=
  (compare a.name b.name).then (compare a.kind.name b.kind.name)

/-- Orders nodes by depth, name, kind and full name. -/
def compareDepthFirst (a b : NodeRow) : Ordering :=
  (compare a.depth b.depth).then ((compareNameKind a b).then (compare a.fullName b.fullName))

/-- The live roots of a resource by name, optionally of one scan status. -/
def Tables.listRootNodes (c : Tables) (tenant : TenantId) (resource : ResourceId)
    (status : Option ScanStatus) : List NodeRow :=
  sortOn compareNameKind ((c.liveRoots tenant resource).filter fun n =>
    match status with
    | some s => n.scanStatus == s
    | none => true)

/-- The live children of a node by kind and name. -/
def Tables.listChildNodes (c : Tables) (tenant : TenantId) (parent : NodeId) : List NodeRow :=
  sortOn (fun a b => (compare a.kind.name b.kind.name).then (compare a.name b.name))
    (c.nodes.filter fun n => n.tenant == tenant && n.parent == some parent && n.isLive)

/-- Whether `n` is in the subtree whose root has path `rootPath`. -/
def NodeRow.inSubtree (n : NodeRow) (rootPath : String) : Bool := Text.hasPrefix n.path rootPath

/-- The live nodes strictly below a live node, shallowest first. -/
def listDescendantNodes (tenant : TenantId) (id : NodeId) : Store (List NodeRow) := do
  let node ← requireNode tenant id
  let c ← get
  pure (sortOn compareDepthFirst (c.nodes.filter fun n =>
    n.tenant == tenant && n.inSubtree node.path && n.id != node.id && n.isLive))

/-- The live nodes of a resource, shallowest first. -/
def Tables.listResourceNodes (c : Tables) (tenant : TenantId) (resource : ResourceId) :
    List NodeRow :=
  sortOn compareDepthFirst (c.nodes.filter fun n =>
    n.tenant == tenant && n.resource == resource && n.isLive)

/-- Ids of a tenant's nodes (live or retired) in the subtree with root path `rootPath`. -/
def Tables.subtreeIds (c : Tables) (tenant : TenantId) (rootPath : String) : List NodeId :=
  (c.nodes.filter fun n => n.tenant == tenant && n.inSubtree rootPath).map (·.id)

/-- Removes the items of a tenant that hang off one of `ids`, returning how many. -/
def dropItemsOf (tenant : TenantId) (ids : List NodeId) : Store Nat := do
  let c ← get
  let (gone, kept) := c.items.partition fun i => i.tenant == tenant && ids.contains i.node
  set { c with items := kept }
  pure gone.length

/-- Removes the items attached directly to a node, returning how many. -/
def deleteNodeItems (tenant : TenantId) (id : NodeId) : Store Nat := dropItemsOf tenant [id]

/-- Removes every item in a live node's subtree, the node's own included. -/
def deleteSubtreeItems (tenant : TenantId) (id : NodeId) : Store Nat := do
  let node ← requireNode tenant id
  dropItemsOf tenant ((← get).subtreeIds tenant node.path)

/-- Removes the nodes strictly below `node` and returns how many. -/
def dropNodesBelow (node : NodeRow) : Store Nat := do
  let c ← get
  let (gone, kept) := c.nodes.partition fun n =>
    n.tenant == node.tenant && n.inSubtree node.path && n.id != node.id
  set { c with nodes := kept }
  pure gone.length

/-- Removes the nodes strictly below a live node with their items; returns the node count. -/
def deleteDescendantNodes (tenant : TenantId) (id : NodeId) : Store Nat := do
  let node ← requireNode tenant id
  let below := ((← get).subtreeIds tenant node.path).filter (· != node.id)
  let _ ← dropItemsOf tenant below
  dropNodesBelow node

/-- Removes every item of a node's subtree and every node below it. -/
def clearBelow (node : NodeRow) : Store (Nat × Nat) := do
  let items ← dropItemsOf node.tenant ((← get).subtreeIds node.tenant node.path)
  let nodes ← dropNodesBelow node
  pure (items, nodes)

/-- Clears a live node's subtree: (items removed, nodes removed). -/
def clearSubtree (tenant : TenantId) (id : NodeId) : Store (Nat × Nat) := do
  clearBelow (← requireNode tenant id)

/-- Changes the tenant's node `id`, live or not. -/
def updateNode (tenant : TenantId) (id : NodeId) (f : NodeRow → NodeRow) : Store Unit :=
  modify fun c => { c with nodes := updateWhere (·.isNode tenant id) f c.nodes }

/-- Clears a live node's subtree and marks the node deleted, unscanned and empty. -/
def retireNode (tenant : TenantId) (id : NodeId) : Store Unit := do
  let node ← requireNode tenant id
  let _ ← clearBelow node
  let now ← Tables.now
  updateNode tenant id fun n => { n with
    status := .deleted
    deletedAt := some now
    itemCount := 0
    totalSize := 0
    scanStatus := .unscanned }

/-- Marks a live node as being scanned and clears its error. -/
def beginNodeScan (tenant : TenantId) (id : NodeId) : Store Unit := do
  let now ← Tables.now
  if ((← get).nodeById? tenant id).isSome then
    updateNode tenant id fun n => { n with
      scanStatus := .scanning
      scanStartedAt := some now
      errorMessage := none }
  else Store.fail (.notFound ("node " ++ id.text))

/-- Records a finished scan of a node with its aggregates. -/
def finishNodeScan (tenant : TenantId) (id : NodeId) (a : Aggregate) : Store Unit := do
  let now ← Tables.now
  updateNode tenant id fun n => { n with
    scanStatus := .scanned
    lastScanAt := some now
    errorMessage := none
    itemCount := a.itemCount
    totalSize := a.totalSize }

/-- Records a failed scan of a node: unscanned with the error, aggregates kept. -/
def failNodeScan (tenant : TenantId) (id : NodeId) (error : String) : Store Unit :=
  updateNode tenant id fun n => { n with scanStatus := .unscanned, errorMessage := some error }

/-- Overwrites a node's aggregates. -/
def setNodeAggregate (tenant : TenantId) (id : NodeId) (a : Aggregate) : Store Unit :=
  updateNode tenant id fun n => { n with itemCount := a.itemCount, totalSize := a.totalSize }

/-- The recorded aggregates of a node's live children plus its own items. Each column is
summed in row order as the database sums it, refusing a partial sum that overflows; the
children's part and the items' part are then added, and a total that leaves the words turns
real and cannot be read back, the count before the size. -/
def Tables.sumChildren (c : Tables) (tenant : TenantId) (id : NodeId) : Except StoreError Aggregate :=
  let kids := c.nodes.filter fun n => n.tenant == tenant && n.parent == some id && n.isLive
  let own := c.items.filter fun i => i.tenant == tenant && i.node == id
  match Word.checkedSum? 0 (kids.map (·.itemCount)), Word.checkedSum? 0 (kids.map (·.totalSize)),
      Word.checkedSum? 0 (own.map (·.sizeBytes)) with
  | some count, some kidSize, some ownSize =>
    if !Word.fits (count + own.length) then .error (.realInWordColumn "item_count")
    else if !Word.fits (kidSize + ownSize) then .error (.realInWordColumn "total_size_bytes")
    else .ok ⟨count + own.length, kidSize + ownSize⟩
  | _, _, _ => .error integerOverflow

/-- The aggregates of a node's children and items, as a store operation. -/
def sumChildren (tenant : TenantId) (id : NodeId) : Store Aggregate := do
  match (← get).sumChildren tenant id with
  | .ok a => pure a
  | .error e => Store.fail e

/-- Count and size of the items hanging off live nodes of a live node's subtree. -/
def aggregateSubtree (tenant : TenantId) (id : NodeId) : Store Aggregate := do
  let node ← requireNode tenant id
  let c ← get
  let live := (c.nodes.filter fun n => n.tenant == tenant && n.inSubtree node.path && n.isLive).map
    (·.id)
  let its := c.items.filter fun i => i.tenant == tenant && live.contains i.node
  match Word.checkedSum? 0 (its.map (·.sizeBytes)) with
  | some size => pure ⟨its.length, size⟩
  | none => Store.fail integerOverflow

end DataCatalog.Catalog
