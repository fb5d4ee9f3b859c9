import DataCatalog.Proofs.Catalog.Effects
import DataCatalog.Proofs.Catalog.Minted
import Mathlib
/-!
# The tree representation invariant

A node row carries denormalized copies of its parent chain: its depth, its path of ids and its
full name. The catalog keeps them right by recomputing them on every write from the live
parent, and by deleting whole subtrees by path. The invariant says that every node is a root
or sits below a live parent with those copies agreeing, that every item hangs off a live node
of its tenant and resource with the right full name, and that natural keys are unique.

The invariant is proved for every state reachable from the empty catalog by the catalog's
operations. Its inductive form also keeps ids minted below the serial counter and distinct,
and places soft-deleted nodes as well as live ones: a retired node keeps its live parent
until that parent's subtree goes.
-/

namespace DataCatalog.Catalog

open DataCatalog.Ident

/-- A root: depth one, its own id as its path, its name as its full name. -/
structure NodeRow.Rooted (n : NodeRow) : Prop where
  parent : n.parent = none
  depth : n.depth = 1
  path : n.path = "/" ++ n.id.text ++ "/"
  fullName : n.fullName = n.name

/-- `n` sits directly below the live node `p` of its tenant and resource, one level deeper,
with `p`'s path and full name extended by its own id and name. -/
structure NodeRow.SitsBelow (n p : NodeRow) : Prop where
  parent : n.parent = some p.id
  live : p.isLive
  tenant : p.tenant = n.tenant
  resource : p.resource = n.resource
  depth : n.depth = p.depth + 1
  path : n.path = p.path ++ n.id.text ++ "/"
  fullName : n.fullName = p.fullName ++ n.kind.separator ++ n.name

/-- `i` hangs off the live node `n` of its tenant and resource, named below it. -/
structure ItemRow.HangsOff (i : ItemRow) (n : NodeRow) : Prop where
  node : i.node = n.id
  live : n.isLive
  tenant : n.tenant = i.tenant
  resource : n.resource = i.resource
  fullName : i.fullName = n.fullName ++ n.kind.separator ++ i.name

/-- The natural key of a node: tenant, resource, parent, kind and name. -/
def NodeRow.naturalKey (n : NodeRow) : TenantId × ResourceId × Option NodeId × NodeKind × String :=
  (n.tenant, n.resource, n.parent, n.kind, n.name)

/-- The natural key of an item: tenant, resource, node, kind and name. -/
def ItemRow.naturalKey (i : ItemRow) : TenantId × ResourceId × NodeId × ItemKind × String :=
  (i.tenant, i.resource, i.node, i.kind, i.name)

/-- The catalog's tree representation: live nodes placed, items hanging off live nodes,
natural keys unique. -/
structure Tables.TreeShaped (c : Tables) : Prop where
  nodesPlaced : ∀ n ∈ c.nodes, n.isLive → n.Rooted ∨ ∃ p ∈ c.nodes, n.SitsBelow p
  itemsHang : ∀ i ∈ c.items, ∃ n ∈ c.nodes, i.HangsOff n
  nodeKeys : (c.nodes.map NodeRow.naturalKey).Nodup
  itemKeys : (c.items.map ItemRow.naturalKey).Nodup

/-- The inductive form of the tree invariant. -/
structure Tables.Wf (c : Tables) : Prop where
  nodesMinted : ∀ n ∈ c.nodes, ∃ k < c.serial, n.id.text = Uuid.ofSerial k
  itemsMinted : ∀ i ∈ c.items, ∃ k < c.serial, i.id.text = Uuid.ofSerial k
  nodeIds : (c.nodes.map (·.id)).Nodup
  itemIds : (c.items.map (·.id)).Nodup
  placed : ∀ n ∈ c.nodes, n.Rooted ∨ ∃ p ∈ c.nodes, n.SitsBelow p
  itemsHang : ∀ i ∈ c.items, ∃ n ∈ c.nodes, i.HangsOff n
  nodeKeys : (c.nodes.map NodeRow.naturalKey).Nodup
  itemKeys : (c.items.map ItemRow.naturalKey).Nodup

theorem Tables.Wf.treeShaped {c : Tables} (hw : c.Wf) : c.TreeShaped :=
  ⟨fun n hn _ => hw.placed n hn, hw.itemsHang, hw.nodeKeys, hw.itemKeys⟩

theorem Tables.wf_empty : ({} : Tables).Wf := by
  constructor <;> simp

/-! ## Rows with equal ids -/

section Ids

variable {c : Tables}

theorem Tables.Wf.node_eq_of_id (hw : c.Wf) {a b : NodeRow} (ha : a ∈ c.nodes) (hb : b ∈ c.nodes)
    (h : a.id = b.id) : a = b :=
  List.inj_on_of_nodup_map hw.nodeIds ha hb h

theorem Tables.Wf.item_eq_of_id (hw : c.Wf) {a b : ItemRow} (ha : a ∈ c.items) (hb : b ∈ c.items)
    (h : a.id = b.id) : a = b :=
  List.inj_on_of_nodup_map hw.itemIds ha hb h

theorem Tables.Wf.fresh_node_id (hw : c.Wf) {n : NodeRow} (hn : n ∈ c.nodes) :
    n.id ≠ ⟨Uuid.ofSerial c.serial⟩ := by
  obtain ⟨k, hk, he⟩ := hw.nodesMinted n hn
  intro h
  rw [h] at he
  exact absurd (ofSerial_injective he) (by omega)

theorem Tables.Wf.fresh_item_id (hw : c.Wf) {i : ItemRow} (hi : i ∈ c.items) :
    i.id ≠ ⟨Uuid.ofSerial c.serial⟩ := by
  obtain ⟨k, hk, he⟩ := hw.itemsMinted i hi
  intro h
  rw [h] at he
  exact absurd (ofSerial_injective he) (by omega)

end Ids

/-- Replacing the row of a unique id is a map over the rows. -/
theorem replaceWhere_eq_map {α β : Type} [DecidableEq β] (key : α → β) (k : β) (f : α → α) :
    ∀ (l : List α), (l.map key).Nodup →
      replaceWhere (fun x => key x == k) f l = l.map fun x => if key x = k then f x else x
  | [], _ => rfl
  | x :: xs, hnd => by
    rw [List.map_cons, List.nodup_cons] at hnd
    by_cases hx : key x = k
    · have keep : ∀ y ∈ xs, (if key y = k then f y else y) = id y := by
        intro y hy
        have : key y ≠ k := fun e => hnd.1 (hx ▸ e ▸ List.mem_map_of_mem hy)
        simp [this]
      have rest : xs.map (fun y => if key y = k then f y else y) = xs := by
        rw [List.map_congr_left keep, List.map_id]
      simp [replaceWhere, hx, rest]
    · simp [replaceWhere, hx, replaceWhere_eq_map key k f xs hnd.2]

theorem Tables.nodeById?_some {c : Tables} {t : TenantId} {id : NodeId} {n : NodeRow}
    (h : c.nodeById? t id = some n) : n ∈ c.nodes ∧ n.tenant = t ∧ n.id = id ∧ n.isLive := by
  have hp := List.find?_some h
  simp only [NodeRow.isNode, Bool.and_eq_true, beq_iff_eq] at hp
  exact ⟨List.mem_of_find?_eq_some h, hp.1.1, hp.1.2, hp.2⟩

theorem NodeRow.naturalKey_eq {a b : NodeRow} :
    a.naturalKey = b.naturalKey ↔
      a.tenant = b.tenant ∧ a.resource = b.resource ∧ a.parent = b.parent ∧ a.kind = b.kind ∧
        a.name = b.name := by
  simp [NodeRow.naturalKey]

theorem NodeRow.hasKey_iff {n : NodeRow} {t : TenantId} {r : ResourceId} {p : Option NodeId}
    {k : NodeKind} {name : String} : n.hasKey t r p k name ↔ n.naturalKey = (t, r, p, k, name) := by
  simp [NodeRow.hasKey, NodeRow.naturalKey, and_assoc]

theorem ItemRow.hasKey_iff {i : ItemRow} {t : TenantId} {n : NodeId} {k : ItemKind}
    {name : String} :
    i.hasKey t n k name ↔ i.tenant = t ∧ i.node = n ∧ i.kind = k ∧ i.name = name := by
  simp [ItemRow.hasKey, and_assoc]

/-! ## Paths

Subtrees are cut by path prefix. A node's path extends its parent's, so whatever is below a
subtree's member is in the subtree, and no node is in the subtree of one of its children. -/

theorem NodeRow.inSubtree_iff {n : NodeRow} {r : String} :
    n.inSubtree r ↔ r.toList <+: n.path.toList := by
  simp [NodeRow.inSubtree, Text.hasPrefix]

theorem NodeRow.inSubtree_self (n : NodeRow) : n.inSubtree n.path :=
  NodeRow.inSubtree_iff.2 (List.prefix_refl _)

theorem NodeRow.SitsBelow.inSubtree {n p : NodeRow} (h : n.SitsBelow p) {r : String}
    (hp : p.inSubtree r) : n.inSubtree r := by
  rw [NodeRow.inSubtree_iff] at hp ⊢
  rw [h.path, String.toList_append, String.toList_append, List.append_assoc]
  exact hp.trans (List.prefix_append _ _)

theorem NodeRow.inSubtree_trans {m a : NodeRow} {r : String} (h : m.inSubtree a.path)
    (ha : a.inSubtree r) : m.inSubtree r := by
  rw [NodeRow.inSubtree_iff] at *
  exact ha.trans h

theorem NodeRow.SitsBelow.inSubtree_parent {n p : NodeRow} (h : n.SitsBelow p) :
    n.inSubtree p.path :=
  h.inSubtree p.inSubtree_self

theorem NodeRow.SitsBelow.not_inSubtree {n p : NodeRow} (h : n.SitsBelow p) :
    ¬p.inSubtree n.path := by
  rw [NodeRow.inSubtree_iff, h.path]
  intro hp
  have hlen := hp.length_le
  have slash : "/".toList.length = 1 := rfl
  simp only [String.toList_append, List.length_append, slash] at hlen
  omega

theorem NodeRow.SitsBelow.ne {n p : NodeRow} (h : n.SitsBelow p) : n ≠ p := by
  rintro rfl
  have := h.depth
  omega

/-- A node survives the removal of the tenant's nodes strictly below `id`'s subtree path `r`. -/
theorem NodeRow.keptBelow_iff {n : NodeRow} {t : TenantId} {r : String} {id : NodeId} :
    (!(n.tenant == t && n.inSubtree r && n.id != id)) = true ↔
      (n.tenant = t → n.inSubtree r → n.id = id) := by
  cases n.inSubtree r <;> simp [Decidable.imp_iff_not_or]

theorem Tables.mem_subtreeIds {c : Tables} {t : TenantId} {r : String} {id : NodeId} :
    id ∈ c.subtreeIds t r ↔ ∃ n ∈ c.nodes, n.tenant = t ∧ n.inSubtree r ∧ n.id = id := by
  simp [Tables.subtreeIds, and_assoc]

/-! ## Shapes of changes that keep the invariant -/

/-- `a` keeps the placement of `b`: its id, natural key, depth, path and full name. -/
structure NodeRow.Refines (a b : NodeRow) : Prop where
  id : a.id = b.id
  key : a.naturalKey = b.naturalKey
  depth : a.depth = b.depth
  path : a.path = b.path
  fullName : a.fullName = b.fullName

theorem NodeRow.Refines.refl (n : NodeRow) : n.Refines n := ⟨rfl, rfl, rfl, rfl, rfl⟩

theorem NodeRow.Refines.rooted {a b : NodeRow} (h : a.Refines b) (hb : b.Rooted) : a.Rooted := by
  obtain ⟨-, -, hpar, -, hname⟩ := NodeRow.naturalKey_eq.1 h.key
  exact ⟨hpar.trans hb.parent, h.depth.trans hb.depth, by rw [h.path, hb.path, h.id],
    by rw [h.fullName, hb.fullName, hname]⟩

theorem NodeRow.Refines.sitsBelow {a b pa pb : NodeRow} (h : a.Refines b) (hp : pa.Refines pb)
    (hl : pa.isLive) (hb : b.SitsBelow pb) : a.SitsBelow pa := by
  obtain ⟨ht, hr, hpar, hk, hname⟩ := NodeRow.naturalKey_eq.1 h.key
  obtain ⟨pt, pr, -, -, -⟩ := NodeRow.naturalKey_eq.1 hp.key
  exact ⟨by rw [hpar, hb.parent, hp.id], hl, by rw [pt, ht, hb.tenant], by rw [pr, hr, hb.resource],
    by rw [h.depth, hb.depth, hp.depth], by rw [h.path, hb.path, hp.path, h.id],
    by rw [h.fullName, hb.fullName, hp.fullName, hk, hname]⟩

theorem ItemRow.HangsOff.refines {i : ItemRow} {a b : NodeRow} (h : i.HangsOff b)
    (hr : a.Refines b) (hl : a.isLive) : i.HangsOff a := by
  obtain ⟨ht, hres, -, hk, -⟩ := NodeRow.naturalKey_eq.1 hr.key
  exact ⟨h.node.trans hr.id.symm, hl, ht.trans h.tenant, hres.trans h.resource,
    by rw [h.fullName, hr.fullName, hk]⟩

/-- Nothing hangs below the node `id`: no node names it as its parent, no item as its node. -/
def Tables.Childless (c : Tables) (id : NodeId) : Prop :=
  (∀ m ∈ c.nodes, m.parent ≠ some id) ∧ ∀ i ∈ c.items, i.node ≠ id

section Preservation

variable {c c' : Tables}

/-- Rewriting nodes in place keeps the invariant when each keeps its placement and only
childless nodes are retired. -/
theorem Tables.Wf.of_map (hw : c.Wf) (g : NodeRow → NodeRow) (hn : c'.nodes = c.nodes.map g)
    (hi : c'.items = c.items) (hs : c.serial ≤ c'.serial)
    (hg : ∀ n ∈ c.nodes, (g n).Refines n)
    (hlive : ∀ n ∈ c.nodes, n.isLive → ¬(g n).isLive → c.Childless n.id) : c'.Wf where
  nodesMinted n h := by
    rw [hn, List.mem_map] at h
    obtain ⟨m, hm, rfl⟩ := h
    obtain ⟨k, hk, he⟩ := hw.nodesMinted m hm
    exact ⟨k, by omega, (hg m hm).id ▸ he⟩
  itemsMinted i h := by
    obtain ⟨k, hk, he⟩ := hw.itemsMinted i (hi ▸ h)
    exact ⟨k, by omega, he⟩
  nodeIds := by
    have same : c.nodes.map ((·.id) ∘ g) = c.nodes.map (·.id) :=
      List.map_congr_left fun n hm => (hg n hm).id
    rw [hn, List.map_map, same]
    exact hw.nodeIds
  itemIds := hi ▸ hw.itemIds
  placed n h := by
    rw [hn, List.mem_map] at h
    obtain ⟨m, hm, rfl⟩ := h
    rcases hw.placed m hm with hr | ⟨p, hp, hb⟩
    · exact .inl ((hg m hm).rooted hr)
    · -- a parent stays live: retiring it would need it childless
      have hl : (g p).isLive := by
        by_contra hd
        exact (hlive p hp hb.live hd).1 m hm hb.parent
      exact .inr ⟨g p, hn ▸ List.mem_map_of_mem hp, (hg m hm).sitsBelow (hg p hp) hl hb⟩
  itemsHang i h := by
    obtain ⟨n, hm, hh⟩ := hw.itemsHang i (hi ▸ h)
    have hl : (g n).isLive := by
      by_contra hd
      exact (hlive n hm hh.live hd).2 i (hi ▸ h) hh.node
    exact ⟨g n, hn ▸ List.mem_map_of_mem hm, hh.refines (hg n hm) hl⟩
  nodeKeys := by
    have same : c.nodes.map (NodeRow.naturalKey ∘ g) = c.nodes.map NodeRow.naturalKey :=
      List.map_congr_left fun n hm => (hg n hm).key
    rw [hn, List.map_map, same]
    exact hw.nodeKeys
  itemKeys := hi ▸ hw.itemKeys

/-- Changing the fields of some nodes that no placement reads keeps the invariant. -/
theorem Tables.Wf.of_update (hw : c.Wf) {q : NodeRow → Bool} {f : NodeRow → NodeRow}
    (hn : c'.nodes = updateWhere q f c.nodes) (hi : c'.items = c.items)
    (hs : c.serial ≤ c'.serial) (hf : ∀ n, (f n).Refines n)
    (hd : ∀ n, (f n).deletedAt = n.deletedAt) : c'.Wf := by
  refine hw.of_map (fun x => if q x then f x else x) hn hi hs (fun n _ => ?_) (fun n _ hl hg => ?_)
  · by_cases hq : q n
    · simpa [hq] using hf n
    · simpa [hq] using NodeRow.Refines.refl n
  · exfalso
    apply hg
    by_cases hq : q n
    · simpa [hq, NodeRow.isLive, hd] using hl
    · simpa [hq] using hl

/-- Dropping rows keeps the invariant when no kept node loses its parent and no kept item
loses its node. -/
theorem Tables.Wf.of_sublist (hw : c.Wf) (hn : c'.nodes.Sublist c.nodes)
    (hi : c'.items.Sublist c.items) (hs : c.serial ≤ c'.serial)
    (parents : ∀ n ∈ c'.nodes, ∀ p ∈ c.nodes, n.SitsBelow p → p ∈ c'.nodes)
    (owners : ∀ i ∈ c'.items, ∀ n ∈ c.nodes, i.HangsOff n → n ∈ c'.nodes) : c'.Wf where
  nodesMinted n h := by
    obtain ⟨k, hk, he⟩ := hw.nodesMinted n (hn.subset h)
    exact ⟨k, by omega, he⟩
  itemsMinted i h := by
    obtain ⟨k, hk, he⟩ := hw.itemsMinted i (hi.subset h)
    exact ⟨k, by omega, he⟩
  nodeIds := hw.nodeIds.sublist (hn.map _)
  itemIds := hw.itemIds.sublist (hi.map _)
  placed n h := by
    rcases hw.placed n (hn.subset h) with hr | ⟨p, hp, hb⟩
    · exact .inl hr
    · exact .inr ⟨p, parents n h p hp hb, hb⟩
  itemsHang i h := by
    obtain ⟨n, hm, hh⟩ := hw.itemsHang i (hi.subset h)
    exact ⟨n, owners i h n hm hh, hh⟩
  nodeKeys := hw.nodeKeys.sublist (hn.map _)
  itemKeys := hw.itemKeys.sublist (hi.map _)

theorem Tables.Wf.of_frame (hw : c.Wf) (hn : c'.nodes = c.nodes) (hi : c'.items = c.items)
    (hs : c.serial ≤ c'.serial) : c'.Wf :=
  hw.of_sublist (hn ▸ .refl _) (hi ▸ .refl _) hs (fun _ _ _ hp _ => hn ▸ hp)
    (fun _ _ _ hm _ => hn ▸ hm)

theorem Tables.Wf.of_filter_items (hw : c.Wf) {keep : ItemRow → Bool} (hn : c'.nodes = c.nodes)
    (hi : c'.items = c.items.filter keep) (hs : c.serial ≤ c'.serial) : c'.Wf :=
  hw.of_sublist (hn ▸ .refl _) (hi ▸ List.filter_sublist) hs (fun _ _ _ hp _ => hn ▸ hp)
    (fun _ _ _ hm _ => hn ▸ hm)

/-- Appending a node with the next minted id and a new key, rooted or below a live node. -/
theorem Tables.Wf.of_append_node (hw : c.Wf) {row : NodeRow} (hn : c'.nodes = c.nodes ++ [row])
    (hi : c'.items = c.items) (hs : c'.serial = c.serial + 1)
    (hid : row.id = ⟨Uuid.ofSerial c.serial⟩)
    (hkey : row.naturalKey ∉ c.nodes.map NodeRow.naturalKey)
    (hplaced : row.Rooted ∨ ∃ p ∈ c.nodes, row.SitsBelow p) : c'.Wf where
  nodesMinted n h := by
    rw [hn, List.mem_append, List.mem_singleton] at h
    rcases h with h | rfl
    · obtain ⟨k, hk, he⟩ := hw.nodesMinted n h
      exact ⟨k, by omega, he⟩
    · exact ⟨c.serial, by omega, by rw [hid]⟩
  itemsMinted i h := by
    obtain ⟨k, hk, he⟩ := hw.itemsMinted i (hi ▸ h)
    exact ⟨k, by omega, he⟩
  nodeIds := by
    have fresh : row.id ∉ c.nodes.map (·.id) := by
      simp only [List.mem_map, not_exists, not_and]
      exact fun n hm he => hw.fresh_node_id hm (he.trans hid)
    rw [hn, List.map_append, List.map_singleton, ← List.concat_eq_append]
    exact hw.nodeIds.concat fresh
  itemIds := hi ▸ hw.itemIds
  placed n h := by
    rw [hn, List.mem_append, List.mem_singleton] at h
    rcases h with h | rfl
    · rcases hw.placed n h with hr | ⟨p, hp, hb⟩
      · exact .inl hr
      · exact .inr ⟨p, hn ▸ List.mem_append_left _ hp, hb⟩
    · rcases hplaced with hr | ⟨p, hp, hb⟩
      · exact .inl hr
      · exact .inr ⟨p, hn ▸ List.mem_append_left _ hp, hb⟩
  itemsHang i h := by
    obtain ⟨n, hm, hh⟩ := hw.itemsHang i (hi ▸ h)
    exact ⟨n, hn ▸ List.mem_append_left _ hm, hh⟩
  nodeKeys := by
    rw [hn, List.map_append, List.map_singleton, ← List.concat_eq_append]
    exact hw.nodeKeys.concat hkey
  itemKeys := hi ▸ hw.itemKeys

/-- Appending an item with the next minted id and a new key, hanging off a live node. -/
theorem Tables.Wf.of_append_item (hw : c.Wf) {row : ItemRow} (hn : c'.nodes = c.nodes)
    (hi : c'.items = c.items ++ [row]) (hs : c'.serial = c.serial + 1)
    (hid : row.id = ⟨Uuid.ofSerial c.serial⟩)
    (hkey : row.naturalKey ∉ c.items.map ItemRow.naturalKey)
    (hhang : ∃ n ∈ c.nodes, row.HangsOff n) : c'.Wf where
  nodesMinted n h := by
    obtain ⟨k, hk, he⟩ := hw.nodesMinted n (hn ▸ h)
    exact ⟨k, by omega, he⟩
  itemsMinted i h := by
    rw [hi, List.mem_append, List.mem_singleton] at h
    rcases h with h | rfl
    · obtain ⟨k, hk, he⟩ := hw.itemsMinted i h
      exact ⟨k, by omega, he⟩
    · exact ⟨c.serial, by omega, by rw [hid]⟩
  nodeIds := hn ▸ hw.nodeIds
  itemIds := by
    have fresh : row.id ∉ c.items.map (·.id) := by
      simp only [List.mem_map, not_exists, not_and]
      exact fun i hm he => hw.fresh_item_id hm (he.trans hid)
    rw [hi, List.map_append, List.map_singleton, ← List.concat_eq_append]
    exact hw.itemIds.concat fresh
  placed := hn ▸ hw.placed
  itemsHang i h := by
    rw [hi, List.mem_append, List.mem_singleton] at h
    rcases h with h | rfl
    · exact hn ▸ hw.itemsHang i h
    · exact hn ▸ hhang
  nodeKeys := hn ▸ hw.nodeKeys
  itemKeys := by
    rw [hi, List.map_append, List.map_singleton, ← List.concat_eq_append]
    exact hw.itemKeys.concat hkey

/-- Replacing an item by a row of the same id and key that hangs off a live node. -/
theorem Tables.Wf.of_replace_item (hw : c.Wf) {old row : ItemRow} (hold : old ∈ c.items)
    (hn : c'.nodes = c.nodes) (hi : c'.items = c.items.map fun x => if x.id = old.id then row else x)
    (hs : c.serial ≤ c'.serial) (hid : row.id = old.id) (hkey : row.naturalKey = old.naturalKey)
    (hhang : ∃ n ∈ c.nodes, row.HangsOff n) : c'.Wf where
  nodesMinted n h := by
    obtain ⟨k, hk, he⟩ := hw.nodesMinted n (hn ▸ h)
    exact ⟨k, by omega, he⟩
  itemsMinted i h := by
    rw [hi, List.mem_map] at h
    obtain ⟨x, hx, rfl⟩ := h
    obtain ⟨k, hk, he⟩ := hw.itemsMinted x hx
    by_cases hxo : x.id = old.id
    · exact ⟨k, by omega, by simpa [hxo, hid] using he⟩
    · exact ⟨k, by omega, by simpa [hxo] using he⟩
  nodeIds := hn ▸ hw.nodeIds
  itemIds := by
    have same : c.items.map ((·.id) ∘ fun x => if x.id = old.id then row else x) =
        c.items.map (·.id) := by
      refine List.map_congr_left fun x _ => ?_
      by_cases hxo : x.id = old.id <;> simp [hxo, hid]
    rw [hi, List.map_map, same]
    exact hw.itemIds
  placed := hn ▸ hw.placed
  itemsHang i h := by
    rw [hi, List.mem_map] at h
    obtain ⟨x, hx, rfl⟩ := h
    by_cases hxo : x.id = old.id
    · simpa [hxo, hn] using hhang
    · simpa [hxo, hn] using hw.itemsHang x hx
  nodeKeys := hn ▸ hw.nodeKeys
  itemKeys := by
    -- the only row with `old`'s id is `old` itself, whose key the new row keeps
    have same : c.items.map (ItemRow.naturalKey ∘ fun x => if x.id = old.id then row else x) =
        c.items.map ItemRow.naturalKey := by
      refine List.map_congr_left fun x hx => ?_
      by_cases hxo : x.id = old.id
      · simp [hkey, hw.item_eq_of_id hx hold hxo]
      · simp [hxo]
    rw [hi, List.map_map, same]
    exact hw.itemKeys

/-- Dropping a tenant's nodes strictly below `node`, together with at least the items of the
dropped nodes. -/
theorem Tables.Wf.of_drop_below (hw : c.Wf) {node : NodeRow} (hnode : node ∈ c.nodes)
    {keep : ItemRow → Bool}
    (hn : c'.nodes = c.nodes.filter fun n =>
      !(n.tenant == node.tenant && n.inSubtree node.path && n.id != node.id))
    (hi : c'.items = c.items.filter keep) (hs : c.serial ≤ c'.serial)
    (hkeep : ∀ i ∈ c.items, keep i → ∀ n ∈ c.nodes, i.HangsOff n →
      n.tenant = node.tenant → n.inSubtree node.path → n.id = node.id) : c'.Wf := by
  refine hw.of_sublist (hn ▸ List.filter_sublist) (hi ▸ List.filter_sublist) hs ?_ ?_
  · intro n h p hp hb
    rw [hn, List.mem_filter, NodeRow.keptBelow_iff] at h ⊢
    refine ⟨hp, fun hpt hps => ?_⟩
    -- a dropped parent would put the child in the subtree as well, making the child `node`
    -- itself, which is not in the subtree of its own parent
    have hid := h.2 (hb.tenant.symm.trans hpt) (hb.inSubtree hps)
    obtain rfl := hw.node_eq_of_id h.1 hnode hid
    exact (hb.not_inSubtree hps).elim
  · intro i h n hm hh
    rw [hi, List.mem_filter] at h
    rw [hn, List.mem_filter, NodeRow.keptBelow_iff]
    exact ⟨hm, hkeep i h.1 h.2 n hm hh⟩

end Preservation

end DataCatalog.Catalog
