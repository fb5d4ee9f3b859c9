import Mathlib
import DataCatalog.Proofs.Scan.Isolation
import DataCatalog.Proofs.Catalog.Lineage
/-!
# Writes inside one root's subtree

A reconciliation works on the subtree of one root namespace, the one its subtree key names: the
root row of that natural key, live or retired, and every node of its tenant whose path extends
the root's path. A write stays inside when it writes the root itself, or names its nodes by ids
that only rows of the subtree carry (`StoreOp.Inside`). Such a write leaves everything else as it
was (`Tables.Confined`): the nodes outside the subtree are the same rows in the same order, so
are the items that hang off no node of it, the root keeps its path, and resources and runs are
untouched. Confinement composes, so a whole run of inside writes is confined, and what a
reconciliation knows of the nodes it holds survives any such run.
-/

namespace DataCatalog.Catalog

open DataCatalog.Ident DataCatalog.Scan

/-- The root row a subtree key names, live or retired. -/
def Tables.rootOf (c : Tables) (k : SubtreeKey) : Option NodeRow :=
  c.nodes.find? (·.hasKey k.tenant k.resource none k.kind k.name)

/-- Whether a node lies in the subtree of the root `k` names: a node of its tenant whose path
extends the root's path, the root among them. -/
def Tables.inSubtree (c : Tables) (k : SubtreeKey) (n : NodeRow) : Bool :=
  match c.rootOf k with
  | some root => n.tenant == k.tenant && n.inSubtree root.path
  | none => false

/-- Whether an item hangs off a node of the subtree of `k`. -/
def Tables.holdsItem (c : Tables) (k : SubtreeKey) (i : ItemRow) : Bool :=
  c.nodes.any fun n => n.id == i.node && c.inSubtree k n

/-- `c'` is `c` changed only inside the subtree of `k`: the root keeps its path, the nodes
outside the subtree and the items off it are the same rows in the same order, and the
resources and runs are as they were. -/
structure Tables.Confined (k : SubtreeKey) (c c' : Tables) : Prop where
  root : ∀ r, c.rootOf k = some r → ∃ r', c'.rootOf k = some r' ∧ r'.path = r.path
  nodes : c'.nodes.filter (!c'.inSubtree k ·) = c.nodes.filter (!c'.inSubtree k ·)
  items : c'.items.filter (!c'.holdsItem k ·) = c.items.filter (!c.holdsItem k ·)
  resources : c'.resources = c.resources
  runs : c'.runs = c.runs

/-- Every row of `c` with the id `id` lies in the subtree of `k`. -/
def Tables.Below (c : Tables) (k : SubtreeKey) (id : NodeId) : Prop :=
  ∀ n ∈ c.nodes, n.id = id → c.inSubtree k n = true

/-- What a reconciliation of `k` knows of a node row it holds: the rows of its id lie in the
subtree, and writing the row again under its natural key stays inside: a root is the root of
`k`, any other hangs below an id of the subtree. -/
structure NodeRow.Held (k : SubtreeKey) (c : Tables) (n : NodeRow) : Prop where
  id : c.Below k n.id
  root : n.parent = none →
    n.tenant = k.tenant ∧ n.resource = k.resource ∧ n.kind = k.kind ∧ n.name = k.name
  parent : ∀ p, n.parent = some p → c.Below k p

/-- The writes a reconciliation of `k` makes, at the catalog `c`: the root of `k` written by
its key, nodes written below an id of the subtree, and items written, removed or stamps set
on ids of the subtree. -/
def StoreOp.Inside (k : SubtreeKey) : StoreOp → Tables → Prop
  | .upsertNode i, c => match i.parent with
    | none => i.tenant = k.tenant ∧ i.resource = k.resource ∧ i.kind = k.kind ∧ i.name = k.name
    | some p => c.Below k p
  | .upsertItem i, c => c.Below k i.node
  | .deleteItem _ node _ _, c => c.Below k node
  | .clearSubtree _ id, c | .retireNode _ id, c | .beginNodeScan _ id, c
  | .finishNodeScan _ id _, c | .failNodeScan _ id _, c | .setNodeAggregate _ id _, c =>
    c.Below k id
  | _, _ => False

section Roots

variable {c c' : Tables} {k : SubtreeKey} {r : NodeRow}

theorem Tables.rootOf_some (h : c.rootOf k = some r) :
    r ∈ c.nodes ∧ r.naturalKey = (k.tenant, k.resource, none, k.kind, k.name) := by
  unfold Tables.rootOf at h
  have hk := List.find?_some h
  exact ⟨List.mem_of_find?_eq_some h, NodeRow.hasKey_iff.1 hk⟩

/-- In a well-formed catalog the row of the root's key is the root. -/
theorem Tables.Wf.rootOf_eq (hw : c.Wf) (hr : r ∈ c.nodes)
    (hk : r.naturalKey = (k.tenant, k.resource, none, k.kind, k.name)) : c.rootOf k = some r := by
  cases h : c.rootOf k with
  | none =>
    have := List.find?_eq_none.1 h r hr
    simp [NodeRow.hasKey_iff, hk] at this
  | some r' =>
    obtain ⟨hr', hk'⟩ := Tables.rootOf_some h
    rw [List.inj_on_of_nodup_map hw.nodeKeys hr' hr (hk'.trans hk.symm)]

theorem Tables.inSubtree_iff {n : NodeRow} :
    c.inSubtree k n = true ↔ ∃ r, c.rootOf k = some r ∧ n.tenant = k.tenant ∧ n.inSubtree r.path := by
  unfold Tables.inSubtree
  cases c.rootOf k <;> simp

/-- Two catalogs whose roots of `k` share a path agree on what lies in the subtree. -/
theorem Tables.inSubtree_congr (h : c.rootOf k = some r) {r' : NodeRow}
    (h' : c'.rootOf k = some r') (hp : r'.path = r.path) : c'.inSubtree k = c.inSubtree k := by
  funext n
  simp [Tables.inSubtree, h, h', hp]

theorem Tables.inSubtree_of_none (h : c.rootOf k = none) (n : NodeRow) :
    c.inSubtree k n = false := by
  simp [Tables.inSubtree, h]

/-- A root of a well-formed catalog is its own root's key's subtree. -/
theorem Tables.Wf.root_inSubtree (hw : c.Wf) (hr : r ∈ c.nodes)
    (hk : r.naturalKey = (k.tenant, k.resource, none, k.kind, k.name)) : c.inSubtree k r = true := by
  have ht : r.tenant = k.tenant := congrArg Prod.fst hk
  exact Tables.inSubtree_iff.2 ⟨r, hw.rootOf_eq hr hk, ht, r.inSubtree_self⟩

/-- Every node of a well-formed catalog lies below a root of its tenant. -/
theorem Tables.Wf.exists_root (hw : c.Wf) {n : NodeRow} (hn : n ∈ c.nodes) :
    ∃ r ∈ c.nodes, r.Rooted ∧ n.tenant = r.tenant ∧ n.inSubtree r.path := by
  -- induction on the depth: a node that is no root sits one level below its parent
  induction hd : n.depth using Nat.strong_induction_on generalizing n with
  | _ d ih =>
    rcases hw.placed n hn with hr | ⟨p, hp, hb⟩
    · exact ⟨n, hn, hr, rfl, n.inSubtree_self⟩
    · obtain ⟨r, hr, hroot, ht, hpr⟩ := ih p.depth (by have := hb.depth; omega) hp rfl
      exact ⟨r, hr, hroot, hb.tenant.symm.trans ht, hb.inSubtree hpr⟩

/-- No node of a well-formed catalog lies below the path a root minted next would have. -/
theorem Tables.Wf.not_inSubtree_fresh (hw : c.Wf) {n : NodeRow} (hn : n ∈ c.nodes) :
    ¬n.inSubtree ("/" ++ Uuid.ofSerial c.serial ++ "/") := by
  intro hfresh
  obtain ⟨r, hr, hroot, -, hin⟩ := hw.exists_root hn
  rw [NodeRow.inSubtree_iff] at hfresh hin
  rw [hroot.path] at hin
  -- two prefixes `/x/` of one path, with `x` slash-free, name the same `x`
  have hx : '/' ∉ (Uuid.ofSerial c.serial).toList := slash_not_mem_ofSerial _
  have hr' := hw.id_slash_free hr
  have key : r.id.text.toList = (Uuid.ofSerial c.serial).toList := by
    rcases List.prefix_or_prefix_of_prefix hfresh hin with h | h
    · simp only [String.toList_append] at h
      exact (eq_of_prefix_slash hr' (by simpa using h)).symm
    · simp only [String.toList_append] at h
      exact eq_of_prefix_slash hx (by simpa using h)
  have hfr := hw.fresh_node_id hr
  apply hfr
  cases hid : r.id
  rw [hid] at key
  exact congrArg NodeId.mk (String.ext key)

/-- The subtree is read off the node rows alone. -/
theorem Tables.inSubtree_of_nodes (h : c'.nodes = c.nodes) : c'.inSubtree k = c.inSubtree k := by
  funext n
  simp [Tables.inSubtree, Tables.rootOf, h]

theorem Tables.holdsItem_of_nodes (h : c'.nodes = c.nodes) : c'.holdsItem k = c.holdsItem k := by
  funext i
  simp [Tables.holdsItem, h, Tables.inSubtree_of_nodes h]

/-- Changing node rows in place, keeping their ids, keys and paths, moves no root and nothing in
or out of the subtree. -/
theorem Tables.rootOf_of_map {g : NodeRow → NodeRow} (hn : c'.nodes = c.nodes.map g)
    (hg : ∀ n, (g n).naturalKey = n.naturalKey) : c'.rootOf k = (c.rootOf k).map g := by
  have hkey : ∀ n, (g n).hasKey k.tenant k.resource none k.kind k.name =
      n.hasKey k.tenant k.resource none k.kind k.name := fun n => by
    rw [Bool.eq_iff_iff, NodeRow.hasKey_iff, NodeRow.hasKey_iff, hg]
  simp only [Tables.rootOf, hn, List.find?_map]
  congr 2
  funext n
  exact hkey n

theorem Tables.inSubtree_of_map {g : NodeRow → NodeRow} (hn : c'.nodes = c.nodes.map g)
    (hg : ∀ n, (g n).naturalKey = n.naturalKey ∧ (g n).path = n.path) :
    ∀ n, c'.inSubtree k (g n) = c.inSubtree k n := by
  intro n
  have ht : (g n).tenant = n.tenant := congrArg Prod.fst (hg n).1
  simp only [Tables.inSubtree, Tables.rootOf_of_map hn fun n => (hg n).1]
  cases c.rootOf k with
  | none => rfl
  | some r => simp [ht, NodeRow.inSubtree, (hg n).2, (hg r).2]

end Roots

/-! ## Confinement composes -/

section Compose

variable {c c' c'' : Tables} {k : SubtreeKey}

theorem Tables.Confined.refl (c : Tables) (k : SubtreeKey) : c.Confined k c :=
  ⟨fun r h => ⟨r, h, rfl⟩, rfl, rfl, rfl, rfl⟩

theorem Tables.Confined.trans (h₁ : c.Confined k c') (h₂ : c'.Confined k c'') :
    c.Confined k c'' := by
  refine ⟨fun r hr => ?_, ?_, h₂.items.trans h₁.items, h₂.resources.trans h₁.resources,
    h₂.runs.trans h₁.runs⟩
  · obtain ⟨r', hr', hp'⟩ := h₁.root r hr
    obtain ⟨r'', hr'', hp''⟩ := h₂.root r' hr'
    exact ⟨r'', hr'', hp''.trans hp'⟩
  · rw [h₂.nodes]
    cases hr' : c'.rootOf k with
    | none =>
      -- with no root in the middle, nothing was inside, so no node changed
      have hn := h₁.nodes
      simp only [Tables.inSubtree_of_none hr', Bool.not_false, List.filter_true] at hn
      rw [hn]
    | some r' =>
      obtain ⟨r'', hr'', hp⟩ := h₂.root r' hr'
      rw [Tables.inSubtree_congr hr' hr'' hp]
      exact h₁.nodes

/-- What lies in the subtree stays so across a confined change. -/
theorem Tables.Confined.below (h : c.Confined k c') {id : NodeId} (hb : c.Below k id) :
    c'.Below k id := by
  intro n hn hid
  by_contra hout
  have hmem : n ∈ c'.nodes.filter (!c'.inSubtree k ·) := List.mem_filter.2 ⟨hn, by simpa using hout⟩
  rw [h.nodes, List.mem_filter] at hmem
  obtain ⟨r, hr, -⟩ := Tables.inSubtree_iff.1 (hb n hmem.1 hid)
  obtain ⟨r', hr', hp⟩ := h.root r hr
  rw [Tables.inSubtree_congr hr hr' hp, hb n hmem.1 hid] at hmem
  simp at hmem

theorem NodeRow.Held.confined {n : NodeRow} (h : c.Confined k c') (hn : n.Held k c) :
    n.Held k c' :=
  ⟨h.below hn.id, hn.root, fun p hp => h.below (hn.parent p hp)⟩

end Compose

/-! ## Each inside write is confined -/

section Writes

variable {c c' : Tables} {k : SubtreeKey}

/-- Dropping rows of `l` that `keep` refuses, and filtering by `q'`, is filtering by `q`, when
`q'` agrees with `q` on what is kept and `q` keeps nothing `keep` refuses. -/
theorem filter_filter_eq {α : Type} {l : List α} {keep q q' : α → Bool}
    (hq : ∀ x ∈ l, keep x = true → q' x = q x) (hk : ∀ x ∈ l, q x = true → keep x = true) :
    (l.filter keep).filter q' = l.filter q := by
  rw [List.filter_filter]
  refine List.filter_congr fun x hx => ?_
  by_cases hkx : keep x = true
  · simp [hkx, hq x hx hkx]
  · have : q x = false := by
      by_contra h
      exact hkx (hk x hx (by simpa using h))
    simp [hkx, this]

/-- An item of a well-formed catalog hangs off the node row of its id, of its tenant. -/
theorem Tables.Wf.item_node (hw : c.Wf) {i : ItemRow} (hi : i ∈ c.items) {n : NodeRow}
    (hn : n ∈ c.nodes) (hid : n.id = i.node) : n.tenant = i.tenant := by
  obtain ⟨m, hm, hh⟩ := hw.itemsHang i hi
  rw [← hw.node_eq_of_id hm hn (hh.node.symm.trans hid.symm)]
  exact hh.tenant

/-- Changing node rows in place, keeping their ids, keys and paths and leaving the rows
outside the subtree alone. -/
theorem Tables.Confined.of_map {g : NodeRow → NodeRow}
    (hg : ∀ n, (g n).id = n.id ∧ (g n).naturalKey = n.naturalKey ∧ (g n).path = n.path)
    (hout : ∀ n ∈ c.nodes, c.inSubtree k n = false → g n = n) (hn : c'.nodes = c.nodes.map g)
    (hi : c'.items = c.items) (hr : c'.resources = c.resources) (hru : c'.runs = c.runs) :
    c.Confined k c' := by
  have hroot := Tables.rootOf_of_map (k := k) hn fun n => (hg n).2.1
  have hin := Tables.inSubtree_of_map (k := k) hn fun n => (hg n).2
  -- the changes keep the root, so the subtree is the same before and after
  have hsame : c'.inSubtree k = c.inSubtree k := by
    funext n
    simp only [Tables.inSubtree, hroot]
    cases c.rootOf k with
    | none => rfl
    | some r => simp [(hg r).2.2]
  refine ⟨fun r h => ⟨g r, by rw [hroot, h]; rfl, (hg r).2.2⟩, ?_, ?_, hr, hru⟩
  · rw [hsame, hn, List.filter_map]
    have hcomp : ((fun n => !c.inSubtree k n) ∘ g) = fun n => !c.inSubtree k n := by
      funext n
      simp only [Function.comp_apply, ← hsame, hin]
    rw [hcomp]
    refine (List.map_congr_left fun n hmem => ?_).trans (List.map_id _)
    have := List.mem_filter.1 hmem
    exact hout n this.1 (by simpa using this.2)
  · rw [hi]
    congr 1
    funext i
    simp only [Tables.holdsItem, hn, List.any_map, Function.comp_def, hin, (hg _).1]

/-- Stamping the rows of an id of the subtree. -/
theorem Tables.Confined.of_update {t : TenantId} {id : NodeId} {f : NodeRow → NodeRow}
    (hb : c.Below k id) (hf : ∀ n, (f n).id = n.id ∧ (f n).naturalKey = n.naturalKey ∧
      (f n).path = n.path)
    (hn : c'.nodes = updateWhere (·.isNode t id) f c.nodes) (hi : c'.items = c.items)
    (hr : c'.resources = c.resources) (hru : c'.runs = c.runs) : c.Confined k c' := by
  refine Tables.Confined.of_map (g := fun n => if n.isNode t id then f n else n)
    (fun n => ?_) (fun n hn hout => ?_) hn hi hr hru
  · by_cases h : n.isNode t id <;> simp [h, hf]
  · -- a stamped row has the id of the subtree, so it is not outside
    have hnot : n.isNode t id = false := by
      by_contra h
      simp only [Bool.not_eq_false, NodeRow.isNode, Bool.and_eq_true, beq_iff_eq] at h
      rw [hb n hn h.2] at hout
      cases hout
    simp [hnot]

/-- Appending a row of a freshly minted id changes no item's node. -/
theorem Tables.holdsItem_of_append (hw : c.Wf) {row : NodeRow} (hn : c'.nodes = c.nodes ++ [row])
    (hrow : row.id = ⟨Uuid.ofSerial c.serial⟩)
    (hin : ∀ n ∈ c.nodes, c'.inSubtree k n = c.inSubtree k n) :
    ∀ i ∈ c.items, c'.holdsItem k i = c.holdsItem k i := by
  intro i hi
  obtain ⟨m, hm, hh⟩ := hw.itemsHang i hi
  have hfresh : (row.id == i.node) = false := by
    rw [hrow, hh.node]
    simpa using (hw.fresh_node_id hm).symm
  simp only [Tables.holdsItem, hn, List.any_append, List.any_cons, List.any_nil, hfresh,
    Bool.false_and, Bool.or_false]
  rw [Bool.eq_iff_iff, List.any_eq_true, List.any_eq_true]
  refine exists_congr fun n => and_congr_right fun hn' => ?_
  rw [hin n hn']

/-- Clearing below a node of the subtree removes only nodes and items of the subtree. -/
theorem Tables.Confined.of_clearedBelow (hw : c.Wf) {node : NodeRow} (hnode : node ∈ c.nodes)
    (hin : c.inSubtree k node = true) : c.Confined k (c.clearedBelow node) := by
  obtain ⟨r, hr, hnt, hnr⟩ := Tables.inSubtree_iff.1 hin
  obtain ⟨hrm, hrk⟩ := Tables.rootOf_some hr
  have hw' := hw.clearedBelow hnode
  -- the root is no node strictly below another, so it stays
  have hkeep : r ∈ (c.clearedBelow node).nodes := by
    refine List.mem_filter.2 ⟨hrm, NodeRow.keptBelow_iff.2 fun _ hrin => ?_⟩
    rcases hw.within_cases hrm hnode hrin with rfl | ⟨p, -, hb, -⟩
    · rfl
    · have := hb.parent
      simp only [NodeRow.naturalKey, Prod.mk.injEq] at hrk
      rw [hrk.2.2.1] at this
      cases this
  have hr' : (c.clearedBelow node).rootOf k = some r := hw'.rootOf_eq hkeep hrk
  have hsame := Tables.inSubtree_congr hr hr' rfl
  -- whatever hangs off the cleared part was in the subtree
  have hinside : ∀ n ∈ c.nodes, n.tenant = node.tenant → n.inSubtree node.path →
      c.inSubtree k n = true := fun n _ ht hn =>
    Tables.inSubtree_iff.2 ⟨r, hr, ht.trans hnt, NodeRow.inSubtree_trans hn hnr⟩
  refine ⟨fun r₀ h₀ => ⟨r, hr', by rw [hr] at h₀; cases h₀; rfl⟩, ?_, ?_, rfl, rfl⟩
  · rw [hsame]
    refine filter_filter_of fun x hx hq => ?_
    rw [NodeRow.keptBelow_iff]
    intro ht hxin
    simp [hinside x hx ht hxin] at hq
  · refine filter_filter_eq (fun i hi hkept => ?_) fun i hi hq => ?_
    · -- a kept item keeps its node, if the node was in the subtree
      simp only [Tables.holdsItem, hsame, Bool.not_eq_eq_eq_not, Bool.not_not]
      apply Bool.eq_iff_iff.2
      simp only [List.any_eq_true, Bool.and_eq_true, beq_iff_eq]
      constructor
      · rintro ⟨n, hn, hid, hnin⟩
        exact ⟨n, (List.mem_filter.1 hn).1, hid, hnin⟩
      · rintro ⟨n, hn, hid, hnin⟩
        refine ⟨n, List.mem_filter.2 ⟨hn, NodeRow.keptBelow_iff.2 fun ht hnin' => ?_⟩, hid, hnin⟩
        by_contra hne
        have hit := (hw.item_node hi hn hid).symm.trans ht
        simp only [Bool.not_eq_eq_eq_not, Bool.not_true, Bool.and_eq_false_imp, beq_iff_eq] at hkept
        exact absurd (Tables.mem_subtreeIds.2 ⟨n, hn, ht, hnin', hid⟩) (by simpa using hkept hit)
    · simp only [Bool.not_eq_eq_eq_not, Bool.not_true, Bool.and_eq_false_imp, beq_iff_eq]
      intro _
      by_contra hsub
      obtain ⟨n, hn, ht, hnin, hid⟩ := Tables.mem_subtreeIds.1 (by simpa using hsub)
      simp only [Bool.not_eq_eq_eq_not, Bool.not_true] at hq
      have : c.holdsItem k i = true :=
        List.any_eq_true.2 ⟨n, hn, by simp [hid, hinside n hn ht hnin]⟩
      simp [this] at hq

/-- A node placed below a node of the subtree is in the subtree. -/
theorem Tables.inSubtree_below {n p : NodeRow} (h : c.inSubtree k p = true) (hb : n.SitsBelow p) :
    c.inSubtree k n = true := by
  obtain ⟨r, hr, ht, hin⟩ := Tables.inSubtree_iff.1 h
  exact Tables.inSubtree_iff.2 ⟨r, hr, hb.tenant.symm.trans ht, hb.inSubtree hin⟩

theorem Tables.inSubtree_of_placed {n : NodeRow} {p : NodeId}
    (hplaced : n.Rooted ∨ ∃ q ∈ c.nodes, n.SitsBelow q) (hpar : n.parent = some p)
    (hb : c.Below k p) : c.inSubtree k n = true := by
  rcases hplaced with hroot | ⟨q, hq, hs⟩
  · rw [hroot.parent] at hpar
    cases hpar
  · have hid : q.id = p := Option.some.inj (hs.parent.symm.trans hpar)
    exact Tables.inSubtree_below (hb q hq hid) hs

/-- An item whose node is in the subtree is held by it. -/
theorem Tables.holdsItem_of_below (hw : c.Wf) {i : ItemRow} (hi : i ∈ c.items)
    (hb : c.Below k i.node) : c.holdsItem k i = true := by
  obtain ⟨m, hm, hh⟩ := hw.itemsHang i hi
  exact List.any_eq_true.2 ⟨m, hm, by simp [hh.node, hb m hm hh.node.symm]⟩

/-- Dropping and rewriting items of the subtree only, keeping the node each hangs off. -/
theorem Tables.Confined.of_items (keep : ItemRow → Bool) (g : ItemRow → ItemRow)
    (hg : ∀ i ∈ c.items, (g i).node = i.node)
    (hout : ∀ i ∈ c.items, c.holdsItem k i = false → keep i = true ∧ g i = i)
    (hn : c'.nodes = c.nodes) (hi : c'.items = (c.items.filter keep).map g)
    (hr : c'.resources = c.resources) (hru : c'.runs = c.runs) : c.Confined k c' := by
  have hroot : c'.rootOf k = c.rootOf k := by simp [Tables.rootOf, hn]
  refine ⟨fun r h => ⟨r, hroot.trans h, rfl⟩, by rw [Tables.inSubtree_of_nodes hn, hn], ?_, hr,
    hru⟩
  rw [Tables.holdsItem_of_nodes hn, hi, List.filter_map]
  have hcomp : (c.items.filter keep).filter ((fun i => !c.holdsItem k i) ∘ g) =
      (c.items.filter keep).filter (!c.holdsItem k ·) :=
    List.filter_congr fun x hx => by
      simp [Tables.holdsItem, hg x (List.mem_filter.1 hx).1]
  have hkept : (c.items.filter fun i => !c.holdsItem k i && keep i) =
      c.items.filter (!c.holdsItem k ·) :=
    List.filter_congr fun x hx => by
      cases h : c.holdsItem k x
      · simp [(hout x hx h).1]
      · rfl
  rw [hcomp, List.filter_filter, hkept]
  refine (List.map_congr_left fun x hmem => ?_).trans (List.map_id _)
  have := List.mem_filter.1 hmem
  exact (hout x this.1 (by simpa using this.2)).2

theorem Tables.Confined.of_deleteItem (hw : c.Wf) {t : TenantId} {node : NodeId}
    {kind : ItemKind} {name : String} (hb : c.Below k node) :
    c.Confined k { c with items := c.items.filter fun i => !i.hasKey t node kind name } := by
  refine Tables.Confined.of_items (fun i => !i.hasKey t node kind name) id (fun _ _ => rfl) (fun i hi hout => ⟨?_, rfl⟩) rfl (List.map_id _).symm rfl rfl
  -- an item of that node is held, so the items outside keep their key
  by_contra h
  have hk : i.node = node := (ItemRow.hasKey_iff.1 (by simpa using h)).2.1
  rw [Tables.holdsItem_of_below hw hi (by rw [hk]; exact hb)] at hout
  cases hout

theorem Tables.Confined.of_upsertItem (hw : c.Wf) {i : ItemInput} {row : ItemRow}
    (hb : c.Below k i.node) (h : upsertItem i c = .ok (row, c')) : c.Confined k c' := by
  obtain ⟨node, hnode, ⟨old, hfind, rfl, rfl⟩ | ⟨hfind, rfl, rfl⟩⟩ := upsertItem_ok h
  · -- the item of that key is rewritten in place; it hangs off `node`, so it is held
    obtain ⟨-, -, hnid, -⟩ := Tables.nodeById?_some hnode
    have hold := List.mem_of_find?_eq_some hfind
    have hk := List.find?_some hfind
    have hon : old.node = node.id := (ItemRow.hasKey_iff.1 hk).2.1
    have hheld : c.holdsItem k old = true :=
      Tables.holdsItem_of_below hw hold (by rw [hon, hnid]; exact hb)
    refine Tables.Confined.of_items (fun _ => true)
      (fun x => if x.id = old.id then old.rewritten i node else x) (fun x hx => ?_)
      (fun x hx hout => ⟨rfl, ?_⟩) rfl ?_ rfl rfl
    · by_cases he : x.id = old.id
      · obtain rfl := hw.item_eq_of_id hx hold he
        simp [ItemRow.rewritten]
      · simp [he]
    · by_cases he : x.id = old.id
      · obtain rfl := hw.item_eq_of_id hx hold he
        rw [hheld] at hout
        cases hout
      · simp [he]
    · rw [List.filter_true]
      exact replaceWhere_eq_map (·.id) old.id _ c.items hw.itemIds
  · -- a fresh item is appended below `node`, which is in the subtree
    obtain ⟨hnm, -, hnid, -⟩ := Tables.nodeById?_some hnode
    have hheld : c.holdsItem k (ItemRow.fresh i (Uuid.ofSerial c.serial) node) = true :=
      List.any_eq_true.2 ⟨node, hnm, by simp [ItemRow.fresh, hb node hnm hnid]⟩
    refine ⟨fun r h => ⟨r, h, rfl⟩, rfl, ?_, rfl, rfl⟩
    exact filter_append_of (show (!c.holdsItem k _) = false by simp [hheld])

/-- The row of the key that a node write inside the subtree names lies in the subtree: it is
the root, or it sits below a node of the subtree. -/
theorem Tables.Wf.keyed_inSubtree (hw : c.Wf) {i : NodeInput}
    (hin : (StoreOp.upsertNode i).Inside k c) {old : NodeRow} (hold : old ∈ c.nodes)
    (hkey : old.naturalKey = (i.tenant, i.resource, i.parent, i.kind, i.name)) :
    c.inSubtree k old = true := by
  cases hp : i.parent with
  | none =>
    simp only [StoreOp.Inside, hp] at hin
    obtain ⟨ht, hr, hkd, hn⟩ := hin
    exact hw.root_inSubtree hold (by rw [hkey, hp, ht, hr, hkd, hn])
  | some p =>
    simp only [StoreOp.Inside, hp] at hin
    exact Tables.inSubtree_of_placed (hw.placed old hold)
      (by rw [hp] at hkey; exact congrArg (·.2.2.1) hkey) hin

/-- A row of the subtree rewritten in place under its own key keeps every other row, so the
catalog is changed inside the subtree only, and the rewritten row stays in it. -/
theorem Tables.Confined.of_rewritten (hw : c.Wf) {i : NodeInput} {parent : Option NodeRow}
    {old : NodeRow} (hpf : ParentFound i c parent) (hold : old ∈ c.nodes)
    (hkey : old.naturalKey = (i.tenant, i.resource, i.parent, i.kind, i.name))
    (hheld : c.inSubtree k old = true)
    (hc' : c' = { c with
      serial := c.serial + 1
      nodes := replaceWhere (·.id == old.id) (fun _ => old.rewritten i parent) c.nodes }) :
    c.Confined k c' ∧ c'.inSubtree k (old.rewritten i parent) = true := by
  classical
  have href := NodeRow.rewritten_refines hw hold hkey hpf
  set g : NodeRow → NodeRow := fun x => if x = old then old.rewritten i parent else x with hgdef
  have hg : ∀ n, (g n).id = n.id ∧ (g n).naturalKey = n.naturalKey ∧ (g n).path = n.path := by
    intro n
    by_cases he : n = old
    · subst he
      simp [hgdef, href.id, href.key, href.path]
    · simp [hgdef, he]
  have hn : c'.nodes = c.nodes.map g := by
    rw [hc']
    refine (replaceWhere_eq_map (·.id) old.id _ c.nodes hw.nodeIds).trans
      (List.map_congr_left fun x hx => ?_)
    by_cases he : x = old
    · simp [hgdef, he]
    · have hne : x.id ≠ old.id := fun hid => he (hw.node_eq_of_id hx hold hid)
      simp [hgdef, he, hne]
  refine ⟨Tables.Confined.of_map hg (fun n _ hout => ?_) hn (by rw [hc']) (by rw [hc'])
    (by rw [hc']), ?_⟩
  · by_cases he : n = old
    · rw [he, hheld] at hout
      cases hout
    · simp [hgdef, he]
  · have hgold : g old = old.rewritten i parent := by simp [hgdef]
    rw [← hgold, Tables.inSubtree_of_map hn (fun n => (hg n).2) old, hheld]

/-- A fresh root appended by the key of the subtree, which had no root, becomes its root; every
row that was there lies outside its path. -/
theorem Tables.Confined.of_freshRoot (hw : c.Wf) (hw' : c'.Wf) {i : NodeInput}
    {parent : Option NodeRow}
    (hin : (StoreOp.upsertNode i).Inside k c) (hp : i.parent = none)
    (hpf : ParentFound i c parent)
    (hfind : c.nodes.find? (·.hasKey i.tenant i.resource i.parent i.kind i.name) = none)
    (hc' : c' = { c with
      serial := c.serial + 1
      nodes := c.nodes ++ [NodeRow.fresh i (Uuid.ofSerial c.serial) parent] }) :
    c.Confined k c' ∧ c'.inSubtree k (NodeRow.fresh i (Uuid.ofSerial c.serial) parent) = true := by
  have hnodes : c'.nodes = c.nodes ++ [NodeRow.fresh i (Uuid.ofSerial c.serial) parent] := by
    rw [hc']
  have hmem : NodeRow.fresh i (Uuid.ofSerial c.serial) parent ∈ c'.nodes := by simp [hnodes]
  simp only [StoreOp.Inside, hp] at hin
  obtain ⟨ht, hr, hkd, hnm⟩ := hin
  have hpar : parent = none := by simpa [ParentFound, hp] using hpf
  subst hpar
  have hnone : c.rootOf k = none := by
    rw [hp, ht, hr, hkd, hnm] at hfind
    exact hfind
  have hkey : (NodeRow.fresh i (Uuid.ofSerial c.serial) none).naturalKey =
      (k.tenant, k.resource, none, k.kind, k.name) := by
    simp [NodeRow.fresh, NodeRow.naturalKey, placement, hp, ht, hr, hkd, hnm]
  have hroot := hw'.rootOf_eq hmem hkey
  have hout : ∀ n ∈ c.nodes, c'.inSubtree k n = c.inSubtree k n := fun n hn => by
    simp [Tables.inSubtree, hroot, hnone, NodeRow.fresh, placement,
      hw.not_inSubtree_fresh hn]
  refine ⟨⟨fun r hr => by simp [hnone] at hr, ?_, ?_, by rw [hc'], by rw [hc']⟩,
    hw'.root_inSubtree hmem hkey⟩
  · rw [hnodes]
    exact filter_append_of (by simp [hw'.root_inSubtree hmem hkey])
  · rw [show c'.items = c.items by rw [hc']]
    exact List.filter_congr fun x hx => by
      rw [Tables.holdsItem_of_append hw hnodes rfl hout x hx]

/-- A fresh child appended below a node of the subtree lies in it; the root stays where it was,
so the subtree is read the same before and after. -/
theorem Tables.Confined.of_freshChild (hw : c.Wf) (hw' : c'.Wf) {i : NodeInput}
    {parent : Option NodeRow} {p : NodeId} (hin : (StoreOp.upsertNode i).Inside k c) (hp : i.parent = some p)
    (hpf : ParentFound i c parent)
    (hc' : c' = { c with
      serial := c.serial + 1
      nodes := c.nodes ++ [NodeRow.fresh i (Uuid.ofSerial c.serial) parent] }) :
    c.Confined k c' ∧ c'.inSubtree k (NodeRow.fresh i (Uuid.ofSerial c.serial) parent) = true := by
  have hnodes : c'.nodes = c.nodes ++ [NodeRow.fresh i (Uuid.ofSerial c.serial) parent] := by
    rw [hc']
  simp only [StoreOp.Inside, hp] at hin
  obtain ⟨q, -, -, rfl⟩ : ∃ q, c.nodeById? i.tenant p = some q ∧ q.resource = i.resource ∧
      parent = some q := by simpa [ParentFound, hp] using hpf
  have hrow : c.inSubtree k (NodeRow.fresh i (Uuid.ofSerial c.serial) (some q)) = true :=
    Tables.inSubtree_of_placed (NodeRow.fresh_placed _ hpf) hp hin
  obtain ⟨r, hr, -, -⟩ := Tables.inSubtree_iff.1 hrow
  have hr' : c'.rootOf k = some r :=
    hw'.rootOf_eq (by rw [hnodes]; exact List.mem_append_left _ (Tables.rootOf_some hr).1)
      (Tables.rootOf_some hr).2
  have hsame := Tables.inSubtree_congr hr hr' rfl
  refine ⟨⟨fun r₀ h₀ => ?_, ?_, ?_, by rw [hc'], by rw [hc']⟩, by rw [hsame]; exact hrow⟩
  · obtain rfl := Option.some.inj (h₀.symm.trans hr)
    exact ⟨r₀, hr', rfl⟩
  · rw [hnodes, hsame]
    exact filter_append_of (by simp [hrow])
  · rw [show c'.items = c.items by rw [hc']]
    exact List.filter_congr fun x hx => by
      rw [Tables.holdsItem_of_append hw hnodes rfl (fun n _ => by rw [hsame]) x hx]

/-- A node write inside the subtree is confined to it, and leaves its row in the subtree. -/
theorem Tables.Confined.of_upsertNode (hw : c.Wf) {i : NodeInput} {row : NodeRow}
    (hin : (StoreOp.upsertNode i).Inside k c) (h : upsertNode i c = .ok (row, c')) :
    c.Confined k c' ∧ c'.inSubtree k row = true := by
  obtain ⟨parent, hpf, ⟨old, hfind, rfl, hc'⟩ | ⟨hfind, -, rfl, hc'⟩⟩ := upsertNode_ok h
  · -- the row of the key is rewritten in place
    have hold := List.mem_of_find?_eq_some hfind
    have hfound := List.find?_some hfind
    have hkey := NodeRow.hasKey_iff.1 hfound
    exact Tables.Confined.of_rewritten hw hpf hold hkey (hw.keyed_inSubtree hin hold hkey) hc'
  · -- a fresh row is appended: a new root of the key, or a child of a node of the subtree
    cases hp : i.parent with
    | none => exact Tables.Confined.of_freshRoot hw (upsertNode_wf hw h) hin hp hpf hfind hc'
    | some p => exact Tables.Confined.of_freshChild hw (upsertNode_wf hw h) hin hp hpf hc'

end Writes

/-! ## Runs of inside writes -/

section Runs

variable {c c' : Tables} {k : SubtreeKey}

/-- Every store operation made inside the subtree is confined to it. -/
theorem StoreOp.run_confined (op : StoreOp) (hw : c.Wf) (hin : op.Inside k c)
    (hrun : op.run c = .ok c') : c.Confined k c' := by
  cases op <;> simp only [StoreOp.run] at hrun
  case upsertNode i =>
    obtain ⟨_, hrun⟩ := Except.map_snd_eq_ok hrun
    exact (Tables.Confined.of_upsertNode hw hin hrun).1
  case upsertItem i =>
    obtain ⟨_, hrun⟩ := Except.map_snd_eq_ok hrun
    exact Tables.Confined.of_upsertItem hw hin hrun
  case deleteItem t node kind name =>
    obtain ⟨_, hrun⟩ := Except.map_snd_eq_ok hrun
    obtain ⟨-, rfl⟩ := deleteItem_ok hrun
    exact Tables.Confined.of_deleteItem hw hin
  case clearSubtree t id =>
    obtain ⟨_, hrun⟩ := Except.map_snd_eq_ok hrun
    obtain ⟨node, hnode, rfl⟩ := clearSubtree_ok hrun
    obtain ⟨hnm, -, hid, -⟩ := Tables.nodeById?_some hnode
    exact Tables.Confined.of_clearedBelow hw hnm (hin node hnm hid)
  case retireNode t id =>
    obtain ⟨⟨⟩, hrun⟩ := Except.map_snd_eq_ok hrun
    obtain ⟨node, hnode, rfl⟩ := retireNode_ok hrun
    obtain ⟨hnm, -, hid, -⟩ := Tables.nodeById?_some hnode
    -- the stamp lands after the subtree is cleared, on a node still in it
    have hcl := Tables.Confined.of_clearedBelow hw hnm (hin node hnm hid)
    exact hcl.trans
      (Tables.Confined.of_update (hcl.below hin) (by intro; exact ⟨rfl, rfl, rfl⟩) rfl rfl rfl rfl)
  case beginNodeScan t id =>
    obtain ⟨⟨⟩, hrun⟩ := Except.map_snd_eq_ok hrun
    obtain ⟨-, rfl⟩ := beginNodeScan_ok hrun
    exact Tables.Confined.of_update hin (by intro; exact ⟨rfl, rfl, rfl⟩) rfl rfl rfl rfl
  case finishNodeScan t id a =>
    obtain ⟨⟨⟩, hrun⟩ := Except.map_snd_eq_ok hrun
    obtain rfl := finishNodeScan_ok hrun
    exact Tables.Confined.of_update hin (by intro; exact ⟨rfl, rfl, rfl⟩) rfl rfl rfl rfl
  case failNodeScan t id e =>
    obtain ⟨⟨⟩, hrun⟩ := Except.map_snd_eq_ok hrun
    obtain rfl := failNodeScan_ok hrun
    exact Tables.Confined.of_update hin (by intro; exact ⟨rfl, rfl, rfl⟩) rfl rfl rfl rfl
  case setNodeAggregate t id a =>
    obtain ⟨⟨⟩, hrun⟩ := Except.map_snd_eq_ok hrun
    obtain rfl := setNodeAggregate_ok hrun
    exact Tables.Confined.of_update hin (by intro; exact ⟨rfl, rfl, rfl⟩) rfl rfl rfl rfl
  all_goals exact (hin : False).elim

/-- A run of writes made inside the subtree is confined to it. -/
theorem Tables.Writes.confined (h : c.Writes (StoreOp.Inside k) c') : c.Confined k c' := by
  induction h with
  | refl => exact Tables.Confined.refl _ _
  | tail _ hstep ih =>
    obtain ⟨hw, op, hop, hrun⟩ := hstep
    exact ih.trans (op.run_confined hw hop hrun)

theorem Tables.kept_held (k : SubtreeKey) (n : NodeRow) :
    Tables.Kept (StoreOp.Inside k) fun c => n.Held k c :=
  fun _ _ h hn => hn.confined h.confined

end Runs

end DataCatalog.Catalog
