import DataCatalog.Proofs.Catalog.Shape
/-!
# Every reachable catalog is tree-shaped

Each write operation of the catalog keeps the tree invariant: node writes place the row below
its live parent (or at the root) and keep natural keys unique, item writes hang the row off a
live node, deletions cut whole subtrees by path, and retiring clears everything below a node
before marking it deleted. A failed operation leaves the tables as they were, so the
catalogs reachable from the empty one by any sequence of operations are all tree-shaped.
-/

namespace DataCatalog.Catalog

open DataCatalog.Ident

section Operations

variable {c c' : Tables}

/-- Rewriting a node by its natural key keeps its placement: the parent it resolves is the
one its row already sits below. -/
theorem NodeRow.rewritten_refines (hw : c.Wf) {i : NodeInput} {old : NodeRow}
    {parent : Option NodeRow} (hold : old ∈ c.nodes)
    (hkey : old.naturalKey = (i.tenant, i.resource, i.parent, i.kind, i.name))
    (hpf : ParentFound i c parent) : (old.rewritten i parent).Refines old := by
  simp only [NodeRow.naturalKey, Prod.mk.injEq] at hkey
  obtain ⟨-, -, hpar, hk, hname⟩ := hkey
  unfold ParentFound at hpf
  rcases hw.placed old hold with hroot | ⟨p, hp, hb⟩
  · rw [← hpar, hroot.parent] at hpf
    subst hpf
    exact ⟨rfl, rfl, hroot.depth.symm, hroot.path.symm, hroot.fullName ▸ hname.symm⟩
  · rw [← hpar, hb.parent] at hpf
    obtain ⟨q, hq, -, rfl⟩ := hpf
    obtain ⟨hqm, -, hqid, -⟩ := Tables.nodeById?_some hq
    obtain rfl := hw.node_eq_of_id hqm hp hqid
    exact ⟨rfl, rfl, hb.depth.symm, hb.path.symm, by rw [hb.fullName, hk, hname]; rfl⟩

/-- A freshly inserted node is a root or sits below the parent its write resolved. -/
theorem NodeRow.fresh_placed {i : NodeInput} {parent : Option NodeRow} (id : String)
    (hpf : ParentFound i c parent) :
    (NodeRow.fresh i id parent).Rooted ∨ ∃ p ∈ c.nodes, (NodeRow.fresh i id parent).SitsBelow p := by
  unfold ParentFound at hpf
  cases hp : i.parent with
  | none =>
    rw [hp] at hpf
    subst hpf
    exact .inl ⟨hp, rfl, rfl, rfl⟩
  | some pid =>
    rw [hp] at hpf
    obtain ⟨q, hq, hres, rfl⟩ := hpf
    obtain ⟨hqm, hqt, hqid, hql⟩ := Tables.nodeById?_some hq
    have hpar : (NodeRow.fresh i id (some q)).parent = some q.id := hqid ▸ hp
    exact .inr ⟨q, hqm, ⟨hpar, hql, hqt, hres, rfl, rfl, rfl⟩⟩

theorem upsertNode_wf {i : NodeInput} {row : NodeRow} (hw : c.Wf)
    (h : upsertNode i c = .ok (row, c')) : c'.Wf := by
  obtain ⟨parent, hpf, ⟨old, hfind, rfl, rfl⟩ | ⟨hfind, -, rfl, rfl⟩⟩ := upsertNode_ok h
  · -- the row of that key is rewritten in place
    have hold := List.mem_of_find?_eq_some hfind
    have hk := List.find?_some hfind
    have href := NodeRow.rewritten_refines hw hold (NodeRow.hasKey_iff.1 hk) hpf
    refine hw.of_map (fun x => if x.id = old.id then old.rewritten i parent else x)
      (replaceWhere_eq_map (·.id) old.id _ c.nodes hw.nodeIds) rfl (by simp) ?_ ?_
    · intro n hn
      by_cases he : n.id = old.id
      · obtain rfl := hw.node_eq_of_id hn hold he
        simpa using href
      · simpa [he] using NodeRow.Refines.refl n
    · intro n _ hl hg
      by_cases he : n.id = old.id
      · simp [he, NodeRow.isLive, NodeRow.rewritten] at hg
      · simp [he, hl] at hg
  · -- no row has that key: a new one is appended
    refine hw.of_append_node rfl rfl rfl rfl ?_ (NodeRow.fresh_placed _ hpf)
    simp only [List.mem_map, not_exists, not_and]
    intro n hn hk
    exact List.find?_eq_none.1 hfind n hn (NodeRow.hasKey_iff.2 hk)

theorem upsertItem_wf {i : ItemInput} {row : ItemRow} (hw : c.Wf)
    (h : upsertItem i c = .ok (row, c')) : c'.Wf := by
  obtain ⟨node, hnode, ⟨old, hfind, rfl, rfl⟩ | ⟨hfind, rfl, rfl⟩⟩ := upsertItem_ok h
  · -- the item of that key is rewritten in place, below the node it already hangs off
    have hold := List.mem_of_find?_eq_some hfind
    have hk := List.find?_some hfind
    obtain ⟨-, hon, -, hname⟩ := ItemRow.hasKey_iff.1 hk
    obtain ⟨n, hn, hh⟩ := hw.itemsHang old hold
    obtain ⟨hnm, -, -, -⟩ := Tables.nodeById?_some hnode
    obtain rfl := hw.node_eq_of_id hn hnm (hh.node.symm.trans hon)
    refine hw.of_replace_item hold rfl
      (replaceWhere_eq_map (·.id) old.id (fun _ => old.rewritten i n) c.items hw.itemIds)
      (by simp) (by rfl) (by rfl) ⟨n, hn, ?_⟩
    exact ⟨hh.node, hh.live, hh.tenant, hh.resource, by simp [ItemRow.rewritten, hname]⟩
  · obtain ⟨hnm, hnt, -, hnl⟩ := Tables.nodeById?_some hnode
    refine hw.of_append_item rfl rfl rfl rfl ?_ ⟨node, hnm, ⟨rfl, hnl, hnt, rfl, rfl⟩⟩
    simp only [List.mem_map, not_exists, not_and]
    intro x hx hk
    simp only [ItemRow.naturalKey, ItemRow.fresh, Prod.mk.injEq] at hk
    exact List.find?_eq_none.1 hfind x hx
      (ItemRow.hasKey_iff.2 ⟨hk.1, hk.2.2.1, hk.2.2.2.1, hk.2.2.2.2⟩)

theorem ItemRow.keptOf_iff {i : ItemRow} {t : TenantId} {ids : List NodeId} :
    (!(i.tenant == t && ids.contains i.node)) = true ↔ (i.tenant = t → i.node ∉ ids) := by
  by_cases ht : i.tenant = t <;> simp [ht]

/-- Clearing below a live node keeps the invariant: its items go with the nodes they hang
off. -/
theorem Tables.Wf.clearedBelow (hw : c.Wf) {node : NodeRow} (hnode : node ∈ c.nodes) :
    (c.clearedBelow node).Wf := by
  refine hw.of_drop_below hnode rfl rfl (Nat.le_refl _) ?_
  intro i hi hkeep n hn hh hnt hns
  rw [ItemRow.keptOf_iff] at hkeep
  exact absurd (Tables.mem_subtreeIds.2 ⟨n, hn, hnt, hns, hh.node.symm⟩)
    (hkeep (hh.tenant.symm.trans hnt))

theorem clearSubtree_wf {t : TenantId} {id : NodeId} {r : Nat × Nat} (hw : c.Wf)
    (h : clearSubtree t id c = .ok (r, c')) : c'.Wf := by
  obtain ⟨node, hnode, rfl⟩ := clearSubtree_ok h
  exact hw.clearedBelow (Tables.nodeById?_some hnode).1

theorem deleteDescendantNodes_wf {t : TenantId} {id : NodeId} {r : Nat} (hw : c.Wf)
    (h : deleteDescendantNodes t id c = .ok (r, c')) : c'.Wf := by
  obtain ⟨node, hnode, rfl⟩ := deleteDescendantNodes_ok h
  obtain ⟨hnm, rfl, -, -⟩ := Tables.nodeById?_some hnode
  refine hw.of_drop_below hnm rfl rfl (Nat.le_refl _) ?_
  intro i hi hkeep n hn hh hnt hns
  rw [ItemRow.keptOf_iff] at hkeep
  by_contra hne
  refine hkeep (hh.tenant.symm.trans hnt) (List.mem_filter.2 ⟨?_, by simpa [hh.node] using hne⟩)
  exact Tables.mem_subtreeIds.2 ⟨n, hn, hnt, hns, hh.node.symm⟩

/-- Once the subtree below a node is cleared, nothing sits below it or hangs off it. -/
theorem Tables.Wf.clearedBelow_childless (hw : c.Wf) {node : NodeRow} (hnm : node ∈ c.nodes) :
    (c.clearedBelow node).Childless node.id := by
  have hw₁ := hw.clearedBelow hnm
  have hkept : node ∈ (c.clearedBelow node).nodes := by
    simpa [Tables.clearedBelow, NodeRow.keptBelow_iff] using hnm
  constructor
  · intro m hm hpar
    rcases hw₁.placed m hm with hr | ⟨p, hp, hb⟩
    · simp [hr.parent] at hpar
    · obtain rfl : p = node := hw₁.node_eq_of_id hp hkept (Option.some.inj (hb.parent.symm.trans hpar))
      have hm' := hm
      simp only [Tables.clearedBelow, List.mem_filter, NodeRow.keptBelow_iff] at hm'
      have hmid := hm'.2 hb.tenant.symm (hb.inSubtree p.inSubtree_self)
      exact hb.ne (hw₁.node_eq_of_id hm hkept hmid)
  · intro i hi hin
    obtain ⟨p, hp, hh⟩ := hw₁.itemsHang i hi
    obtain rfl : p = node := hw₁.node_eq_of_id hp hkept (hh.node.symm.trans hin)
    simp only [Tables.clearedBelow, List.mem_filter, ItemRow.keptOf_iff] at hi
    exact hi.2 hh.tenant.symm (Tables.mem_subtreeIds.2 ⟨p, hnm, rfl, p.inSubtree_self, hin.symm⟩)

/-- Retiring keeps the invariant: once the subtree below the node is cleared, nothing hangs
off it any more. -/
theorem retireNode_wf {t : TenantId} {id : NodeId} (hw : c.Wf)
    (h : retireNode t id c = .ok ((), c')) : c'.Wf := by
  obtain ⟨node, hnode, rfl⟩ := retireNode_ok h
  obtain ⟨hnm, hnt, hnid, -⟩ := Tables.nodeById?_some hnode
  have hw₁ := hw.clearedBelow hnm
  have hkept : node ∈ (c.clearedBelow node).nodes := by
    simpa [Tables.clearedBelow, NodeRow.keptBelow_iff] using hnm
  refine hw₁.of_map _ rfl rfl (Nat.le_refl _) (fun n _ => ?_) (fun n hn hl hg => ?_)
  · by_cases hq : n.isNode t id
    · simpa [hq] using (⟨rfl, rfl, rfl, rfl, rfl⟩ : (n.retired _).Refines n)
    · simpa [hq] using NodeRow.Refines.refl n
  · -- only `node` itself loses its liveness
    have hq : n.isNode t id := by
      by_contra hq
      simp [hq, hl] at hg
    simp only [NodeRow.isNode, Bool.and_eq_true, beq_iff_eq] at hq
    obtain rfl : n = node := hw₁.node_eq_of_id hn hkept (hq.2.trans hnid.symm)
    exact hw.clearedBelow_childless hnm

theorem beginNodeScan_wf {t : TenantId} {id : NodeId} (hw : c.Wf)
    (h : beginNodeScan t id c = .ok ((), c')) : c'.Wf := by
  obtain ⟨-, rfl⟩ := beginNodeScan_ok h
  exact hw.of_update rfl rfl (Nat.le_refl _) (fun _ => ⟨rfl, rfl, rfl, rfl, rfl⟩) (fun _ => rfl)

theorem finishNodeScan_wf {t : TenantId} {id : NodeId} {a : Aggregate} (hw : c.Wf)
    (h : finishNodeScan t id a c = .ok ((), c')) : c'.Wf := by
  obtain rfl := finishNodeScan_ok h
  exact hw.of_update rfl rfl (Nat.le_refl _) (fun _ => ⟨rfl, rfl, rfl, rfl, rfl⟩) (fun _ => rfl)

theorem failNodeScan_wf {t : TenantId} {id : NodeId} {e : String} (hw : c.Wf)
    (h : failNodeScan t id e c = .ok ((), c')) : c'.Wf := by
  obtain rfl := failNodeScan_ok h
  exact hw.of_update rfl rfl (Nat.le_refl _) (fun _ => ⟨rfl, rfl, rfl, rfl, rfl⟩) (fun _ => rfl)

theorem setNodeAggregate_wf {t : TenantId} {id : NodeId} {a : Aggregate} (hw : c.Wf)
    (h : setNodeAggregate t id a c = .ok ((), c')) : c'.Wf := by
  obtain rfl := setNodeAggregate_ok h
  exact hw.of_update rfl rfl (Nat.le_refl _) (fun _ => ⟨rfl, rfl, rfl, rfl, rfl⟩) (fun _ => rfl)

end Operations

/-! ## Reachable catalogs -/

/-- The catalog's write operations with their arguments. -/
inductive StoreOp where
  | upsertResource (i : ResourceInput)
  | upsertNode (i : NodeInput)
  | upsertItem (i : ItemInput)
  | deleteItem (t : TenantId) (node : NodeId) (kind : ItemKind) (name : String)
  | deleteNodeItems (t : TenantId) (id : NodeId)
  | deleteSubtreeItems (t : TenantId) (id : NodeId)
  | deleteDescendantNodes (t : TenantId) (id : NodeId)
  | clearSubtree (t : TenantId) (id : NodeId)
  | retireNode (t : TenantId) (id : NodeId)
  | beginNodeScan (t : TenantId) (id : NodeId)
  | finishNodeScan (t : TenantId) (id : NodeId) (a : Aggregate)
  | failNodeScan (t : TenantId) (id : NodeId) (error : String)
  | setNodeAggregate (t : TenantId) (id : NodeId) (a : Aggregate)
  | createRun (t : TenantId) (externalId : Option ExternalId) (mode : ScanMode)
      (targets : List String)
  | finishRun (t : TenantId) (id : RunId) (status : RunStatus) (message : Option String)
      (counts : ScanCounts)

/-- The tables an operation leaves when it succeeds. -/
def StoreOp.run : StoreOp → Tables → Except StoreError Tables
  | .upsertResource i, c => (Catalog.upsertResource i c).map Prod.snd
  | .upsertNode i, c => (Catalog.upsertNode i c).map Prod.snd
  | .upsertItem i, c => (Catalog.upsertItem i c).map Prod.snd
  | .deleteItem t node kind name, c => (Catalog.deleteItem t node kind name c).map Prod.snd
  | .deleteNodeItems t id, c => (Catalog.deleteNodeItems t id c).map Prod.snd
  | .deleteSubtreeItems t id, c => (Catalog.deleteSubtreeItems t id c).map Prod.snd
  | .deleteDescendantNodes t id, c => (Catalog.deleteDescendantNodes t id c).map Prod.snd
  | .clearSubtree t id, c => (Catalog.clearSubtree t id c).map Prod.snd
  | .retireNode t id, c => (Catalog.retireNode t id c).map Prod.snd
  | .beginNodeScan t id, c => (Catalog.beginNodeScan t id c).map Prod.snd
  | .finishNodeScan t id a, c => (Catalog.finishNodeScan t id a c).map Prod.snd
  | .failNodeScan t id e, c => (Catalog.failNodeScan t id e c).map Prod.snd
  | .setNodeAggregate t id a, c => (Catalog.setNodeAggregate t id a c).map Prod.snd
  | .createRun t e m ts, c => (Catalog.createRun t e m ts c).map Prod.snd
  | .finishRun t id st msg counts, c => (Catalog.finishRun t id st msg counts c).map Prod.snd

/-- The catalogs reachable from the empty one by successful operations; a failed operation
leaves the tables unchanged. -/
inductive Reachable : Tables → Prop
  | empty : Reachable {}
  | step {c c' : Tables} (op : StoreOp) : Reachable c → op.run c = .ok c' → Reachable c'

theorem Except.map_snd_eq_ok {α : Type} {x : Except StoreError (α × Tables)} {c' : Tables}
    (h : x.map Prod.snd = .ok c') : ∃ a, x = .ok (a, c') := by
  cases x with
  | error e => cases h
  | ok p =>
    obtain ⟨a, c⟩ := p
    cases h
    exact ⟨a, rfl⟩

/-- One successful operation keeps the invariant. -/
theorem StoreOp.run_wf {c c' : Tables} (op : StoreOp) (hw : c.Wf) (h : op.run c = .ok c') :
    c'.Wf := by
  -- each case reads the operation's own statement of what it leaves behind
  cases op <;> simp only [StoreOp.run] at h
  case upsertResource i =>
    obtain ⟨_, h⟩ := Except.map_snd_eq_ok h
    obtain ⟨hn, hi, hs⟩ := upsertResource_frame h
    exact hw.of_frame hn hi hs
  case upsertNode i =>
    obtain ⟨_, h⟩ := Except.map_snd_eq_ok h
    exact upsertNode_wf hw h
  case upsertItem i =>
    obtain ⟨_, h⟩ := Except.map_snd_eq_ok h
    exact upsertItem_wf hw h
  case deleteItem t node kind name =>
    obtain ⟨_, h⟩ := Except.map_snd_eq_ok h
    obtain ⟨-, rfl⟩ := deleteItem_ok h
    exact hw.of_filter_items rfl rfl (Nat.le_refl _)
  case deleteNodeItems t id =>
    obtain ⟨_, h⟩ := Except.map_snd_eq_ok h
    obtain rfl := deleteNodeItems_ok h
    exact hw.of_filter_items rfl rfl (Nat.le_refl _)
  case deleteSubtreeItems t id =>
    obtain ⟨_, h⟩ := Except.map_snd_eq_ok h
    obtain ⟨_, -, rfl⟩ := deleteSubtreeItems_ok h
    exact hw.of_filter_items rfl rfl (Nat.le_refl _)
  case deleteDescendantNodes t id =>
    obtain ⟨_, h⟩ := Except.map_snd_eq_ok h
    exact deleteDescendantNodes_wf hw h
  case clearSubtree t id =>
    obtain ⟨_, h⟩ := Except.map_snd_eq_ok h
    exact clearSubtree_wf hw h
  case retireNode t id =>
    obtain ⟨⟨⟩, h⟩ := Except.map_snd_eq_ok h
    exact retireNode_wf hw h
  case beginNodeScan t id =>
    obtain ⟨⟨⟩, h⟩ := Except.map_snd_eq_ok h
    exact beginNodeScan_wf hw h
  case finishNodeScan t id a =>
    obtain ⟨⟨⟩, h⟩ := Except.map_snd_eq_ok h
    exact finishNodeScan_wf hw h
  case failNodeScan t id e =>
    obtain ⟨⟨⟩, h⟩ := Except.map_snd_eq_ok h
    exact failNodeScan_wf hw h
  case setNodeAggregate t id a =>
    obtain ⟨⟨⟩, h⟩ := Except.map_snd_eq_ok h
    exact setNodeAggregate_wf hw h
  case createRun t e m ts =>
    obtain ⟨_, h⟩ := Except.map_snd_eq_ok h
    obtain ⟨hn, hi, hs⟩ := createRun_frame h
    exact hw.of_frame hn hi hs
  case finishRun t id st msg counts =>
    obtain ⟨_, h⟩ := Except.map_snd_eq_ok h
    obtain ⟨hn, hi, hs⟩ := finishRun_frame h
    exact hw.of_frame hn hi hs

theorem Reachable.wf {c : Tables} (h : Reachable c) : c.Wf := by
  induction h with
  | empty => exact Tables.wf_empty
  | step op _ hrun ih => exact op.run_wf ih hrun

/-- Every catalog reachable from the empty one is tree-shaped: live nodes are roots or sit
below a live parent with consistent depth, path and full name, items hang off live nodes,
and natural keys are unique. -/
theorem treeShaped_of_reachable {c : Tables} (h : Reachable c) : c.TreeShaped :=
  h.wf.treeShaped

/-- A resource with a bucket and a prefix below it is reachable and tree-shaped. -/
theorem treeShaped_bucket_with_prefix :
    ∃ c : Tables, Reachable c ∧ c.nodes.length = 2 ∧ c.TreeShaped := by
  have reach := Reachable.step
    (.upsertNode ⟨⟨1⟩, ⟨Uuid.ofSerial 0⟩, some ⟨Uuid.ofSerial 1⟩, .keyPrefix, "raw", none⟩)
    (Reachable.step (.upsertNode ⟨⟨1⟩, ⟨Uuid.ofSerial 0⟩, none, .bucket, "b", none⟩)
      (Reachable.step (.upsertResource ⟨⟨1⟩, ⟨7⟩, "s3", "s3", "lake", [], .active⟩) .empty rfl)
      rfl) rfl
  exact ⟨_, reach, rfl, treeShaped_of_reachable reach⟩

end DataCatalog.Catalog
