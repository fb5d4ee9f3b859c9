import DataCatalog.Catalog.Nodes
import DataCatalog.Catalog.Items
import DataCatalog.Catalog.Encode
/-!
# The nested view of a resource

A resource's flat node and item lists assemble into a forest: the roots are the nodes without
a parent, in list order, and each node holds the nodes whose parent it is and the items that
hang off it. A node whose parent is not in the list is left out, with everything below it.
Children and items are sorted by name, rows of one name keeping list order.

Assembly recurses on a depth bound: the number of nodes bounds the depth of any node, since
parents are written before their children.
-/

namespace DataCatalog.Scan

open DataCatalog.Catalog DataCatalog.Json

/-- A node with its children and items. -/
inductive NodeTree where
  | mk (node : NodeRow) (children : List NodeTree) (items : List ItemRow)
deriving Repr

/-- The node at the top of a tree. -/
def NodeTree.node : NodeTree → NodeRow
  | .mk n _ _ => n

/-- The trees directly below a tree's node. -/
def NodeTree.children : NodeTree → List NodeTree
  | .mk _ children _ => children

/-- The items that hang off a tree's node. -/
def NodeTree.items : NodeTree → List ItemRow
  | .mk _ _ items => items

mutual
/-- The items of a tree: those of its node and of every tree below it. -/
def NodeTree.totalItems : NodeTree → Nat
  | .mk _ children items => items.length + NodeTree.listTotalItems children
/-- The items of a list of trees. -/
def NodeTree.listTotalItems : List NodeTree → Nat
  | [] => 0
  | t :: ts => t.totalItems + NodeTree.listTotalItems ts
end

/-- A resource with its forest of nodes. -/
structure ResourceTree where
  resource : ResourceRow
  nodes : List NodeTree

/-- Orders trees by their node's name. -/
def compareTrees (a b : NodeTree) : Ordering := compare a.node.name b.node.name

/-- Orders items by name. -/
def compareItemNames (a b : ItemRow) : Ordering := compare a.name b.name

/-- The tree below `n`, at most `depth` levels of children deep. -/
def buildNode (nodes : List NodeRow) (items : List ItemRow) : Nat → NodeRow → NodeTree
  | 0, n => .mk n [] (sortOn compareItemNames (items.filter (·.node == n.id)))
  | depth + 1, n =>
    .mk n (sortOn compareTrees
        ((nodes.filter (·.parent == some n.id)).map (buildNode nodes items depth)))
      (sortOn compareItemNames (items.filter (·.node == n.id)))

/-- Assembles a resource's flat node and item lists into its forest. -/
def buildResourceTree (resource : ResourceRow) (nodes : List NodeRow) (items : List ItemRow) :
    ResourceTree :=
  ⟨resource, (nodes.filter (·.parent.isNone)).map (buildNode nodes items nodes.length)⟩

mutual
/-- The JSON object of a tree. -/
def NodeTree.toJson : NodeTree → Value
  | .mk n children items => Value.ofMembers [("node", n.toJson),
      ("children", .array (NodeTree.listToJson children)), ("items", .array (items.map ItemRow.toJson))]
/-- The JSON objects of a list of trees. -/
def NodeTree.listToJson : List NodeTree → List Value
  | [] => []
  | t :: ts => t.toJson :: NodeTree.listToJson ts
end

/-- The JSON object of a resource tree. -/
def ResourceTree.toJson (t : ResourceTree) : Value :=
  Value.ofMembers [("resource", t.resource.toJson), ("nodes", .array (NodeTree.listToJson t.nodes))]

end DataCatalog.Scan
