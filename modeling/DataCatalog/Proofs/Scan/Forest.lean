import Mathlib
import DataCatalog.Proofs.Catalog.Ordering
import DataCatalog.Proofs.Catalog.Shape
import DataCatalog.Scan.Orchestrator
/-!
# Assembling the catalog forest

A resource's flat lists of nodes and items assemble into a forest. With node ids distinct, the
forest holds exactly the nodes whose chain of parent ids climbs, inside the list, to a node
without a parent: each of them once, below its parent. A dangling parent id or a cycle keeps a
node out. Each item shows once, below the node of its id, when that node is in the forest.
The roots keep list order; children and items are sorted by name, keeping list order among rows
of one name; and a tree's item total counts the items of its subtree. On a catalog of the tree invariant, the forest of
every resource therefore shows each live node and each item of that resource exactly once.

Assembly recurses on a depth bound, the number of nodes. The bound is never reached: the nodes
on a chain from a root are distinct, so a node of the forest lies fewer levels below its root
than there are nodes.
-/

namespace DataCatalog.Scan

open DataCatalog.Catalog DataCatalog.Ident

/-! ## Views of a forest -/

mutual
/-- The nodes of a tree, its own first, then those of the trees below it. -/
def NodeTree.rows : NodeTree → List NodeRow
  | .mk n children _ => n :: NodeTree.listRows children
/-- The nodes of a list of trees. -/
def NodeTree.listRows : List NodeTree → List NodeRow
  | [] => []
  | t :: ts => t.rows ++ NodeTree.listRows ts
end

mutual
/-- The items of a tree: its node's, then those of the trees below it. -/
def NodeTree.allItems : NodeTree → List ItemRow
  | .mk _ children items => items ++ NodeTree.listAllItems children
/-- The items of a list of trees. -/
def NodeTree.listAllItems : List NodeTree → List ItemRow
  | [] => []
  | t :: ts => t.allItems ++ NodeTree.listAllItems ts
end

/-- `P` holds of a tree and of every tree below it. -/
inductive NodeTree.Every (P : NodeTree → Prop) : NodeTree → Prop
  | mk {n : NodeRow} {children : List NodeTree} {items : List ItemRow} :
      P (.mk n children items) → (∀ c ∈ children, NodeTree.Every P c) →
      NodeTree.Every P (.mk n children items)

namespace NodeTree

theorem listRows_eq (ts : List NodeTree) : listRows ts = ts.flatMap rows := by
  induction ts with
  | nil => rfl
  | cons t ts ih => rw [listRows, ih, List.flatMap_cons]

theorem listAllItems_eq (ts : List NodeTree) : listAllItems ts = ts.flatMap allItems := by
  induction ts with
  | nil => rfl
  | cons t ts ih => rw [listAllItems, ih, List.flatMap_cons]

mutual
/-- The item total of a tree is the number of its items. -/
theorem totalItems_eq : ∀ t : NodeTree, t.totalItems = t.allItems.length
  | .mk _ children items => by
    rw [totalItems, allItems, List.length_append, listTotalItems_eq children]
theorem listTotalItems_eq : ∀ ts : List NodeTree, listTotalItems ts = (listAllItems ts).length
  | [] => rfl
  | t :: ts => by
    rw [listTotalItems, listAllItems, List.length_append, totalItems_eq t, listTotalItems_eq ts]
end

end NodeTree

/-! ## Chains of parent ids -/

section Chains

variable {nodes : List NodeRow}

variable (nodes) in
/-- `a` lies `k` child links below `n` in the list: each node on the way down is in the list and
names the one before it as its parent. -/
inductive ChildPath : Nat → NodeRow → NodeRow → Prop
  | refl (n : NodeRow) : ChildPath 0 n n
  | child {k : Nat} {n c a : NodeRow} : c ∈ nodes → c.parent = some n.id → ChildPath k c a →
      ChildPath (k + 1) n a

variable (nodes) in
/-- The chain of parent ids of `a` climbs, inside the list, to a node without a parent. -/
def InForest (a : NodeRow) : Prop :=
  ∃ r ∈ nodes, r.parent = none ∧ ∃ k, ChildPath nodes k r a

namespace ChildPath

variable {j k : Nat} {n m a : NodeRow}

theorem zero_iff : ChildPath nodes 0 n a ↔ a = n := by
  constructor
  · rintro ⟨⟩
    rfl
  · rintro rfl
    exact .refl _

theorem mem (h : ChildPath nodes k n a) (hn : n ∈ nodes) : a ∈ nodes := by
  induction h with
  | refl => exact hn
  | child hc _ _ ih => exact ih hc

theorem trans (h₁ : ChildPath nodes j n m) (h₂ : ChildPath nodes k m a) :
    ChildPath nodes (k + j) n a := by
  induction h₁ with
  | refl => exact h₂
  | child hc hp _ ih => exact .child hc hp (ih h₂)

theorem snoc {p : NodeRow} (h : ChildPath nodes k n p) (ha : a ∈ nodes)
    (hap : a.parent = some p.id) : ChildPath nodes (k + 1) n a := by
  induction h with
  | refl => exact .child ha hap (.refl a)
  | child hc hp _ ih => exact .child hc hp (ih hap)

/-- A path one link longer ends one link below a node of the shorter path. -/
theorem succ_iff : ChildPath nodes (k + 1) n a ↔
    ∃ p, ChildPath nodes k n p ∧ a ∈ nodes ∧ a.parent = some p.id := by
  constructor
  · intro h
    induction k generalizing n with
    | zero =>
      obtain ⟨⟩ := h
      rename_i c hc hp h
      rw [zero_iff.1 h]
      exact ⟨n, .refl n, hc, hp⟩
    | succ k ih =>
      obtain ⟨⟩ := h
      rename_i c hc hp h
      obtain ⟨p, hcp, ha, hap⟩ := ih h
      exact ⟨p, .child hc hp hcp, ha, hap⟩
  · rintro ⟨p, h, ha, hap⟩
    exact h.snoc ha hap

theorem split : ∀ {j : Nat} {n : NodeRow}, ChildPath nodes (k + j) n a →
    ∃ m, ChildPath nodes j n m ∧ ChildPath nodes k m a
  | 0, n, h => ⟨n, .refl n, h⟩
  | j + 1, _, h => by
    cases h with
    | child hc hp h =>
      obtain ⟨m, hm, hma⟩ := split (j := j) h
      exact ⟨m, .child hc hp hm, hma⟩

end ChildPath

variable (hid : (nodes.map (·.id)).Nodup)
include hid

/-- Two nodes of the list the same number of links above `a` are one node: `a` names one parent. -/
theorem ChildPath.eq_top {k : Nat} {n n' a : NodeRow} (h : ChildPath nodes k n a)
    (h' : ChildPath nodes k n' a) (hn : n ∈ nodes) (hn' : n' ∈ nodes) : n = n' := by
  induction k generalizing a with
  | zero => rw [← ChildPath.zero_iff.1 h, ChildPath.zero_iff.1 h']
  | succ k ih =>
    obtain ⟨p, hp, -, hap⟩ := ChildPath.succ_iff.1 h
    obtain ⟨p', hp', -, hap'⟩ := ChildPath.succ_iff.1 h'
    have hid' : p.id = p'.id := Option.some.inj (hap.symm.trans hap')
    exact ih hp (List.inj_on_of_nodup_map hid (hp.mem hn) (hp'.mem hn') hid' ▸ hp')

/-- A node lies below at most one root, at one depth. -/
theorem ChildPath.root_unique {k k' : Nat} {r r' a : NodeRow} (hr : r ∈ nodes)
    (hr₀ : r.parent = none) (hr' : r' ∈ nodes) (hr₀' : r'.parent = none)
    (h : ChildPath nodes k r a) (h' : ChildPath nodes k' r' a) : k = k' ∧ r = r' := by
  -- the shorter chain ends at a root that the longer one passes, so it passes no link
  have key : ∀ {k k' : Nat} {r r' : NodeRow}, r ∈ nodes → r.parent = none → r' ∈ nodes →
      ChildPath nodes k r a → ChildPath nodes k' r' a → k ≤ k' → k = k' ∧ r = r' := by
    intro k k' r r' hr hr₀ hr' h h' hle
    obtain ⟨d, rfl⟩ := Nat.exists_eq_add_of_le hle
    obtain ⟨m, hm, hma⟩ := h'.split
    obtain rfl := ChildPath.eq_top hid h hma hr (hm.mem hr')
    cases d with
    | zero => exact ⟨rfl, ChildPath.zero_iff.1 hm⟩
    | succ d =>
      obtain ⟨p, -, -, hp⟩ := ChildPath.succ_iff.1 hm
      exact absurd (hr₀.symm.trans hp) (by simp)
  rcases le_total k k' with hle | hle
  · exact key hr hr₀ hr' h h' hle
  · obtain ⟨he, hrr⟩ := key hr' hr₀' hr h' h hle
    exact ⟨he.symm, hrr.symm⟩

/-- The nodes from a root down to `a` are distinct nodes of the list, so `a` lies fewer levels
below the root than there are nodes. -/
theorem ChildPath.lt_length {k : Nat} {r a : NodeRow} (hr : r ∈ nodes) (hr₀ : r.parent = none)
    (h : ChildPath nodes k r a) : k < nodes.length := by
  -- induction on the depth: the chain of the parent, with `a` put at its end
  have chain : ∀ {k : Nat} {a : NodeRow}, ChildPath nodes k r a → ∃ ps : List NodeRow,
      ps.length = k + 1 ∧ ps.Nodup ∧ ∀ m ∈ ps, m ∈ nodes ∧ ∃ i ≤ k, ChildPath nodes i r m := by
    intro k
    induction k with
    | zero =>
      intro a _
      exact ⟨[r], rfl, List.nodup_singleton r, by simpa using ⟨hr, .refl r⟩⟩
    | succ k ih =>
      intro a h
      obtain ⟨p, hp, ha, -⟩ := ChildPath.succ_iff.1 h
      obtain ⟨ps, hlen, hnd, hps⟩ := ih hp
      refine ⟨ps ++ [a], by simp [hlen], List.nodup_append.2 ⟨hnd, List.nodup_singleton a, ?_⟩,
        fun m hm => ?_⟩
      · intro m hm b hb heq
        rw [List.mem_singleton] at hb
        subst hb heq
        obtain ⟨-, i, hi, hmi⟩ := hps m hm
        exact absurd (ChildPath.root_unique hid hr hr₀ hr hr₀ hmi h).1 (by omega)
      · rcases List.mem_append.1 hm with hm | hm
        · obtain ⟨hmn, i, hi, hmi⟩ := hps m hm
          exact ⟨hmn, i, by omega, hmi⟩
        · rw [List.mem_singleton.1 hm]
          exact ⟨ha, k + 1, le_rfl, h⟩
  obtain ⟨ps, hlen, hnd, hps⟩ := chain h
  have := hnd.length_le_of_subset fun m hm => (hps m hm).1
  omega

end Chains

/-! ## The tree below a node -/

section Build

variable {nodes : List NodeRow} {items : List ItemRow}

/-- The items that hang off the node of id `x`. -/
abbrev itemsAt (items : List ItemRow) (x : NodeId) : List ItemRow := items.filter (·.node == x)

/-- The nodes of the list that name `x` as their parent. -/
abbrev childrenAt (nodes : List NodeRow) (x : NodeId) : List NodeRow :=
  nodes.filter (·.parent == some x)

@[simp] theorem buildNode_node (d : Nat) (n : NodeRow) : (buildNode nodes items d n).node = n := by
  cases d <;> rfl

theorem buildNode_succ (d : Nat) (n : NodeRow) : buildNode nodes items (d + 1) n =
    .mk n (sortOn compareTrees ((childrenAt nodes n.id).map (buildNode nodes items d)))
      (sortOn compareItemNames (itemsAt items n.id)) := rfl

theorem rows_buildNode_succ (d : Nat) (n : NodeRow) :
    (buildNode nodes items (d + 1) n).rows.Perm
      (n :: (childrenAt nodes n.id).flatMap fun c => (buildNode nodes items d c).rows) := by
  rw [buildNode_succ, NodeTree.rows, NodeTree.listRows_eq]
  refine (((List.mergeSort_perm _ _).flatMap_right _).cons n).trans ?_
  rw [List.flatMap_map]

/-- The tree below `n`, `d` levels deep, holds the nodes at most `d` links below `n`. -/
theorem mem_rows_buildNode {a : NodeRow} :
    ∀ {d : Nat} {n : NodeRow}, a ∈ (buildNode nodes items d n).rows ↔
      ∃ k ≤ d, ChildPath nodes k n a
  | 0, n => by
    simp only [buildNode, NodeTree.rows, NodeTree.listRows, List.mem_singleton, Nat.le_zero,
      exists_eq_left, ChildPath.zero_iff]
  | d + 1, n => by
    rw [(rows_buildNode_succ d n).mem_iff, List.mem_cons, List.mem_flatMap]
    constructor
    · rintro (rfl | ⟨c, hc, ha⟩)
      · exact ⟨0, Nat.zero_le _, .refl a⟩
      · obtain ⟨k, hk, hca⟩ := mem_rows_buildNode.1 ha
        simp only [List.mem_filter, beq_iff_eq] at hc
        exact ⟨k + 1, by omega, .child hc.1 hc.2 hca⟩
    · rintro ⟨_ | k, hk, h⟩
      · exact .inl (ChildPath.zero_iff.1 h)
      · cases h with
        | child hc hp h =>
          exact .inr ⟨_, List.mem_filter.2 ⟨hc, by simpa using hp⟩,
            mem_rows_buildNode.2 ⟨k, by omega, h⟩⟩

/-- The items of the tree below `n` are the items of its nodes. -/
theorem allItems_buildNode :
    ∀ (d : Nat) (n : NodeRow), (buildNode nodes items d n).allItems.Perm
      ((buildNode nodes items d n).rows.flatMap fun a => itemsAt items a.id)
  | 0, n => by
    simp only [buildNode, NodeTree.allItems, NodeTree.listAllItems, NodeTree.rows,
      NodeTree.listRows, List.append_nil, List.flatMap_cons, List.flatMap_nil]
    exact List.mergeSort_perm _ _
  | d + 1, n => by
    have hrows := (@rows_buildNode_succ nodes items d n).flatMap_right fun a => itemsAt items a.id
    rw [List.flatMap_cons, List.flatMap_assoc] at hrows
    refine List.Perm.trans ?_ hrows.symm
    rw [buildNode_succ, NodeTree.allItems, NodeTree.listAllItems_eq]
    refine (List.mergeSort_perm _ _).append ?_
    refine ((List.mergeSort_perm _ _).flatMap_right _).trans ?_
    rw [List.flatMap_map]
    exact List.Perm.flatMap_left _ fun c _ => allItems_buildNode d c

/-- The item total of the tree below `n` counts the items of each of its nodes. -/
theorem totalItems_buildNode (d : Nat) (n : NodeRow) : (buildNode nodes items d n).totalItems =
    ((buildNode nodes items d n).rows.map fun a => (itemsAt items a.id).length).sum := by
  rw [NodeTree.totalItems_eq, (allItems_buildNode d n).length_eq, List.length_flatMap]

section Distinct

variable {nodes : List NodeRow} {items : List ItemRow} (hid : (nodes.map (·.id)).Nodup)
include hid

/-- Below a node of the forest the tree holds each node once: the subtrees of two children
share no node, since a node below both would climb to one root along two chains. -/
theorem rows_buildNode_nodup {r : NodeRow} (hr : r ∈ nodes) (hr₀ : r.parent = none) :
    ∀ {d j : Nat} {n : NodeRow}, ChildPath nodes j r n → (buildNode nodes items d n).rows.Nodup
  | 0, _, n, _ => List.nodup_singleton n
  | d + 1, j, n, hj => by
    have hnodes : nodes.Nodup := List.Nodup.of_map _ hid
    rw [(rows_buildNode_succ d n).nodup_iff, List.nodup_cons, List.nodup_flatMap]
    refine ⟨fun hn => ?_, fun c hc => ?_, ?_⟩
    · -- `n` below one of its children would put it on a cycle
      obtain ⟨c, hc, hnc⟩ := List.mem_flatMap.1 hn
      obtain ⟨k, -, hk⟩ := mem_rows_buildNode.1 hnc
      simp only [List.mem_filter, beq_iff_eq] at hc
      have := (ChildPath.root_unique hid hr hr₀ hr hr₀ hj (hj.trans (.child hc.1 hc.2 hk))).1
      omega
    · simp only [List.mem_filter, beq_iff_eq] at hc
      exact rows_buildNode_nodup hr hr₀ (hj.snoc hc.1 hc.2)
    · refine ((hnodes.filter _).imp_of_mem ?_)
      intro c c' hc hc' hne
      simp only [List.mem_filter, beq_iff_eq] at hc hc'
      refine List.disjoint_left.2 fun a ha ha' => hne ?_
      obtain ⟨k, -, hk⟩ := mem_rows_buildNode.1 ha
      obtain ⟨k', -, hk'⟩ := mem_rows_buildNode.1 ha'
      have h₁ := (hj.snoc hc.1 hc.2).trans hk
      have h₂ := (hj.snoc hc'.1 hc'.2).trans hk'
      obtain ⟨hkk, -⟩ := ChildPath.root_unique hid hr hr₀ hr hr₀ h₁ h₂
      obtain rfl : k = k' := by omega
      exact ChildPath.eq_top hid hk hk' hc.1 hc'.1

end Distinct

/-- The nodes of the children of the tree below `n` are the nodes that name `n` as their parent,
sorted by name. -/
theorem children_buildNode_succ (d : Nat) (n : NodeRow) :
    (buildNode nodes items (d + 1) n).children.map NodeTree.node =
      sortOn (fun a b => compare a.name b.name) (childrenAt nodes n.id) := by
  rw [buildNode_succ, NodeTree.children, sortOn, sortOn,
    @List.map_mergeSort _ _ (fun a b => compareTrees a b != .gt)
      (fun a b => compare a.name b.name != .gt) NodeTree.node _ fun _ _ _ _ => rfl,
    List.map_map]
  congr 1
  exact (List.map_congr_left fun c _ => buildNode_node d c).trans (List.map_id' _)

end Build

/-! ## How each tree is assembled -/

/-- A tree assembled from the lists: its children are the trees of the nodes that name its node
as their parent and its items those of its node, each sorted by name, with rows of one name kept
in list order; its item total counts the items of its nodes. -/
structure Assembled (nodes : List NodeRow) (items : List ItemRow) (t : NodeTree) : Prop where
  childrenPerm : (t.children.map NodeTree.node).Perm (childrenAt nodes t.node.id)
  childrenSorted : (t.children.map NodeTree.node).Pairwise fun a b => a.name ≤ b.name
  childrenStable : ∀ v, (t.children.map NodeTree.node).filter (fun a => a.name = v) =
    (childrenAt nodes t.node.id).filter (fun a => a.name = v)
  itemsPerm : t.items.Perm (itemsAt items t.node.id)
  itemsSorted : t.items.Pairwise fun a b => a.name ≤ b.name
  itemsStable : ∀ v, t.items.filter (fun a => a.name = v) =
    (itemsAt items t.node.id).filter (fun a => a.name = v)
  total : t.totalItems = (t.rows.map fun a => (itemsAt items a.id).length).sum

section Assembly

variable {nodes : List NodeRow} {items : List ItemRow}

theorem assembled_buildNode_succ (d : Nat) (n : NodeRow) :
    Assembled nodes items (buildNode nodes items (d + 1) n) := by
  have hitems_eq : (buildNode nodes items (d + 1) n).items =
      sortOn compareItemNames (itemsAt items n.id) := rfl
  -- both sorts compare names alone, so they order by name and keep list order within a name
  refine ⟨?_, ?_, fun v => ?_, ?_, ?_, fun v => ?_, totalItems_buildNode _ _⟩ <;>
    simp only [children_buildNode_succ, hitems_eq, buildNode_node]
  · exact List.mergeSort_perm _ _
  · exact sortOn_pairwise (fun _ _ => rfl) _
  · exact sortOn_filter_key (fun _ _ => rfl) _ v
  · exact List.mergeSort_perm _ _
  · exact sortOn_pairwise (fun _ _ => rfl) _
  · exact sortOn_filter_key (fun _ _ => rfl) _ v

/-- Below a node of the forest, every tree is assembled from the lists: the depth bound runs out
only past the deepest level that a chain of distinct nodes reaches. -/
theorem every_assembled_buildNode (hid : (nodes.map (·.id)).Nodup) {r : NodeRow} (hr : r ∈ nodes)
    (hr₀ : r.parent = none) : ∀ {d j : Nat} {n : NodeRow}, ChildPath nodes j r n →
      j + d = nodes.length → (buildNode nodes items d n).Every (Assembled nodes items)
  | 0, _, _, hj, hjd => absurd (hj.lt_length hid hr hr₀) (by omega)
  | d + 1, _, n, hj, hjd => by
    rw [buildNode_succ]
    refine .mk (assembled_buildNode_succ d n) fun c hc => ?_
    obtain ⟨m, hm, rfl⟩ := List.mem_map.1 (List.mem_mergeSort.1 hc)
    obtain ⟨hm, hp⟩ := List.mem_filter.1 hm
    exact every_assembled_buildNode hid hr hr₀ (hj.snoc hm (beq_iff_eq.1 hp)) (by omega)

end Assembly

/-! ## The forest of a resource -/

/-- What the forest assembled from lists of nodes and items holds: each node whose chain of
parent ids climbs to a root of the list, once; the roots of the list at the top, in list order;
the items of its nodes, once; and every tree assembled from the lists. -/
structure ForestOf (nodes : List NodeRow) (items : List ItemRow) (forest : List NodeTree) :
    Prop where
  nodup : (NodeTree.listRows forest).Nodup
  mem_rows : ∀ a, a ∈ NodeTree.listRows forest ↔ InForest nodes a
  roots : forest.map NodeTree.node = nodes.filter (·.parent.isNone)
  allItems : (NodeTree.listAllItems forest).Perm
    (items.filter fun i => (NodeTree.listRows forest).any fun a => i.node == a.id)
  assembled : ∀ t ∈ forest, t.Every (Assembled nodes items)

section Forest

variable (resource : ResourceRow) (nodes : List NodeRow) (items : List ItemRow)

/-- The roots of the list, each with the tree below it, as deep as there are nodes. -/
abbrev rootTrees : List NodeTree :=
  (nodes.filter (·.parent.isNone)).map (buildNode nodes items nodes.length)

theorem nodes_buildResourceTree :
    (buildResourceTree resource nodes items).nodes = rootTrees nodes items := rfl

/-- The roots of the forest are the roots of the list, in list order. -/
theorem roots_buildResourceTree :
    (buildResourceTree resource nodes items).nodes.map NodeTree.node =
      nodes.filter (·.parent.isNone) := by
  rw [nodes_buildResourceTree, List.map_map]
  exact (List.map_congr_left fun c _ => buildNode_node _ c).trans (List.map_id' _)

theorem listRows_buildResourceTree :
    (NodeTree.listRows (buildResourceTree resource nodes items).nodes).Perm
      ((nodes.filter (·.parent.isNone)).flatMap
        fun r => (buildNode nodes items nodes.length r).rows) := by
  rw [NodeTree.listRows_eq, nodes_buildResourceTree, List.flatMap_map]

/-- The items of the forest are the items of its nodes. -/
theorem listAllItems_buildResourceTree :
    (NodeTree.listAllItems (buildResourceTree resource nodes items).nodes).Perm
      ((NodeTree.listRows (buildResourceTree resource nodes items).nodes).flatMap
        fun a => itemsAt items a.id) := by
  refine List.Perm.trans ?_ ((listRows_buildResourceTree resource nodes items).flatMap_right _).symm
  rw [NodeTree.listAllItems_eq, List.flatMap_assoc, nodes_buildResourceTree, List.flatMap_map]
  exact List.Perm.flatMap_left _ fun r _ => allItems_buildNode _ r

/-- The items of nodes of distinct ids, taken node by node, are the items that hang off one of
them. -/
theorem flatMap_itemsAt_perm : ∀ {rows : List NodeRow}, (rows.map (·.id)).Nodup →
    (rows.flatMap fun a => itemsAt items a.id).Perm
      (items.filter fun i => rows.any fun a => i.node == a.id)
  | [], _ => by simp
  | a :: rows, h => by
    rw [List.map_cons, List.nodup_cons] at h
    rw [List.flatMap_cons]
    refine ((flatMap_itemsAt_perm h.2).append_left _).trans
      (List.Perm.trans (List.Perm.of_eq ?_) (List.filter_append_perm (fun i => i.node == a.id) _))
    rw [List.filter_filter, List.filter_filter]
    congr 1 <;> refine List.filter_congr fun i _ => ?_
    · simp only [List.any_cons, Bool.and_or_distrib_left, Bool.and_self]
      cases i.node == a.id <;> rfl
    · -- an item of one of the other nodes does not hang off `a`, whose id is not theirs
      by_cases hi : i.node = a.id
      · simp only [hi, beq_self_eq_true, Bool.not_true, Bool.false_and, List.any_eq_false,
          beq_iff_eq]
        intro b hb hab
        exact h.1 (List.mem_map.2 ⟨b, hb, hab.symm⟩)
      · simp only [List.any_cons, beq_eq_false_iff_ne.2 hi, Bool.not_false, Bool.true_and,
          Bool.false_or]

/-- Assembly: with node ids distinct, the forest holds each node whose chain of parent ids climbs
inside the list to a node without a parent, once, and the items of those nodes, once; every tree
of it is assembled from the lists. -/
theorem forestOf_buildResourceTree (hid : (nodes.map (·.id)).Nodup) :
    ForestOf nodes items (buildResourceTree resource nodes items).nodes := by
  have hrows := listRows_buildResourceTree resource nodes items
  have hroot : ∀ r ∈ nodes.filter (·.parent.isNone), r ∈ nodes ∧ r.parent = none := by
    intro r hr
    simpa using hr
  have hmem : ∀ a, a ∈ NodeTree.listRows (buildResourceTree resource nodes items).nodes ↔
      InForest nodes a := by
    intro a
    rw [hrows.mem_iff, List.mem_flatMap]
    constructor
    · rintro ⟨r, hr, ha⟩
      obtain ⟨k, -, hk⟩ := mem_rows_buildNode.1 ha
      exact ⟨r, (hroot r hr).1, (hroot r hr).2, k, hk⟩
    · rintro ⟨r, hr, hr₀, k, hk⟩
      exact ⟨r, by simpa [hr₀] using hr, mem_rows_buildNode.2
        ⟨k, (hk.lt_length hid hr hr₀).le, hk⟩⟩
  have hnodup : (NodeTree.listRows (buildResourceTree resource nodes items).nodes).Nodup := by
    rw [hrows.nodup_iff, List.nodup_flatMap]
    refine ⟨fun r hr => rows_buildNode_nodup hid (hroot r hr).1 (hroot r hr).2 (.refl r), ?_⟩
    -- the trees of two roots share no node: a node climbs to one root only
    refine ((List.Nodup.of_map _ hid).filter _).imp_of_mem fun {r r'} hr hr' hne => ?_
    refine List.disjoint_left.2 fun a ha ha' => hne ?_
    obtain ⟨k, -, hk⟩ := mem_rows_buildNode.1 ha
    obtain ⟨k', -, hk'⟩ := mem_rows_buildNode.1 ha'
    exact (ChildPath.root_unique hid (hroot r hr).1 (hroot r hr).2 (hroot r' hr').1
      (hroot r' hr').2 hk hk').2
  have hids : ((NodeTree.listRows (buildResourceTree resource nodes items).nodes).map
      (·.id)).Nodup := by
    refine hnodup.map_on fun a ha b hb hab => List.inj_on_of_nodup_map hid ?_ ?_ hab
    · obtain ⟨r, hr, -, k, hk⟩ := (hmem a).1 ha
      exact hk.mem hr
    · obtain ⟨r, hr, -, k, hk⟩ := (hmem b).1 hb
      exact hk.mem hr
  refine ⟨hnodup, hmem, roots_buildResourceTree resource nodes items,
    (listAllItems_buildResourceTree resource nodes items).trans (flatMap_itemsAt_perm items hids),
    fun t ht => ?_⟩
  rw [nodes_buildResourceTree] at ht
  obtain ⟨r, hr, rfl⟩ := List.mem_map.1 ht
  exact every_assembled_buildNode hid (hroot r hr).1 (hroot r hr).2 (.refl r) (Nat.zero_add _)

end Forest

/-! ## The catalog tree -/

section Catalog

variable {c : Tables} {t : TenantId} {resource : ResourceId}

@[simp] theorem mem_listResourceNodes {n : NodeRow} : n ∈ c.listResourceNodes t resource ↔
    n ∈ c.nodes ∧ n.tenant = t ∧ n.resource = resource ∧ n.isLive := by
  simp [Tables.listResourceNodes, sortOn, and_assoc]

@[simp] theorem mem_listResourceItems {i : ItemRow} : i ∈ c.listResourceItems t resource ↔
    i ∈ c.items ∧ i.tenant = t ∧ i.resource = resource := by
  simp [Tables.listResourceItems, sortOn]

/-- On a catalog of the tree invariant, each live node of a resource climbs along live nodes of
the resource to one of its roots. -/
theorem inForest_of_wf (hw : c.Wf) {n : NodeRow} (hn : n ∈ c.listResourceNodes t resource) :
    InForest (c.listResourceNodes t resource) n := by
  -- induction on the depth: a node that is not a root sits one level below a live node
  induction hd : n.depth using Nat.strong_induction_on generalizing n with
  | _ d ih =>
    obtain ⟨hc, ht, hr, -⟩ := mem_listResourceNodes.1 hn
    rcases hw.placed n hc with hroot | ⟨p, hp, hbelow⟩
    · exact ⟨n, hn, hroot.parent, 0, .refl n⟩
    · have hpn : p ∈ c.listResourceNodes t resource :=
        mem_listResourceNodes.2 ⟨hp, hbelow.tenant.trans ht, hbelow.resource.trans hr, hbelow.live⟩
      obtain ⟨root, hroot, hroot₀, k, hk⟩ := ih p.depth (by have := hbelow.depth; omega) hpn rfl
      exact ⟨root, hroot, hroot₀, k + 1, hk.snoc hn hbelow.parent⟩

/-- On a catalog of the tree invariant, the forest of each resource of a tenant shows each live
node of the resource once and each of its items once. -/
theorem catalogTree_rows_items (hw : c.Wf) {rt : ResourceTree} (hrt : rt ∈ catalogTree c t) :
    (NodeTree.listRows rt.nodes).Perm (c.listResourceNodes t rt.resource.id) ∧
      (NodeTree.listAllItems rt.nodes).Perm (c.listResourceItems t rt.resource.id) := by
  obtain ⟨r, -, rfl⟩ := List.mem_map.1 hrt
  have hid : ((c.listResourceNodes t r.id).map (·.id)).Nodup :=
    ((List.mergeSort_perm _ _).map _).nodup_iff.2 (hw.nodeIds.sublist (List.filter_sublist.map _))
  have hF := forestOf_buildResourceTree r (c.listResourceNodes t r.id)
    (c.listResourceItems t r.id) hid
  have hrows : ∀ a, a ∈ NodeTree.listRows (buildResourceTree r (c.listResourceNodes t r.id)
      (c.listResourceItems t r.id)).nodes ↔ a ∈ c.listResourceNodes t r.id := by
    intro a
    rw [hF.mem_rows]
    constructor
    · rintro ⟨m, hm, -, k, hk⟩
      exact hk.mem hm
    · exact inForest_of_wf hw
  refine ⟨(List.perm_ext_iff_of_nodup hF.nodup (List.Nodup.of_map _ hid)).2 hrows,
    hF.allItems.trans (List.Perm.of_eq (List.filter_eq_self.2 fun i hi => ?_))⟩
  -- every item of the resource hangs off a live node of the resource, which the forest shows
  obtain ⟨hi, ht, hr⟩ := mem_listResourceItems.1 hi
  obtain ⟨n, hn, hang⟩ := hw.itemsHang i hi
  have hnr : n ∈ c.listResourceNodes t r.id :=
    mem_listResourceNodes.2 ⟨hn, hang.tenant.trans ht, hang.resource.trans hr, hang.live⟩
  exact List.any_eq_true.2 ⟨n, (hrows n).2 hnr, beq_iff_eq.2 hang.node⟩

end Catalog

/-- Assembly partitions a resource's lists: with node ids distinct, dangling parent ids and
cycles allowed, the forest holds each node that climbs to a root of the list once, below its
parent, and each item of those nodes once, below its node, the roots in list order and children
and items sorted by name, stably; and on a
catalog of the tree invariant, the catalog tree shows every live node and every item of each
resource once. -/
theorem buildResourceTree_partitions (resource : ResourceRow) (nodes : List NodeRow)
    (items : List ItemRow) (hid : (nodes.map (·.id)).Nodup) :
    ForestOf nodes items (buildResourceTree resource nodes items).nodes ∧
      ∀ (c : Tables) (t : TenantId), c.Wf → ∀ rt ∈ catalogTree c t,
        (NodeTree.listRows rt.nodes).Perm (c.listResourceNodes t rt.resource.id) ∧
          (NodeTree.listAllItems rt.nodes).Perm (c.listResourceItems t rt.resource.id) :=
  ⟨forestOf_buildResourceTree resource nodes items hid,
    fun _ _ hw _ hrt => catalogTree_rows_items hw hrt⟩

/-- A root with a child, a node below a parent that is not in the list, and two nodes that name
each other as parent. -/
theorem forest_with_dangling_parent_and_cycle :
    let row : NodeRow := ⟨⟨"r"⟩, ⟨1⟩, ⟨"res"⟩, none, .bucket, "r", 1, "/r/", "r", .active,
      .unscanned, none, none, 0, 0, .empty, none, 0, none⟩
    let nodes := [row, { row with id := ⟨"c"⟩, parent := some ⟨"r"⟩, name := "c" },
      { row with id := ⟨"o"⟩, parent := some ⟨"gone"⟩, name := "o" },
      { row with id := ⟨"x"⟩, parent := some ⟨"y"⟩, name := "x" },
      { row with id := ⟨"y"⟩, parent := some ⟨"x"⟩, name := "y" }]
    let res : ResourceRow := ⟨⟨"res"⟩, ⟨1⟩, ⟨1⟩, "s3", "", "res", [], .active, 0, none, ⟨0, 0⟩,
      ⟨0, 0⟩⟩
    (nodes.map (·.id)).Nodup ∧ ForestOf nodes [] (buildResourceTree res nodes []).nodes ∧
      ∀ (c : Tables) (t : TenantId), c.Wf → ∀ rt ∈ catalogTree c t,
        (NodeTree.listRows rt.nodes).Perm (c.listResourceNodes t rt.resource.id) ∧
          (NodeTree.listAllItems rt.nodes).Perm (c.listResourceItems t rt.resource.id) := by
  intro row nodes res
  have hid : (nodes.map (·.id)).Nodup := by decide
  exact ⟨hid, buildResourceTree_partitions res nodes [] hid⟩

end DataCatalog.Scan
