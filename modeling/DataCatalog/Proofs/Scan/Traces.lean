import Mathlib
import DataCatalog.Proofs.Scan.Footprint
/-!
# What a subtree pass leaves on its root

A subtree pass (a schema pass, or the rebuild of a bucket or a prefix) marks its root as being
scanned, clears and rebuilds what lies below it, and marks the root scanned with the new
aggregate, or, when the rebuild failed, unscanned with the error. In between it makes only the
writes `StoreOp.Rebuilds` admits: node and item writes, the clear of the root's own subtree, and
the finish of nodes other than the root. None of them retires the root, changes its key or its
aggregate, or marks a node as being scanned (`Tables.Spared`). That the nodes it finishes are
not the root the rebuild knows from depths: the depth of an id never changes (`Tables.IdDepths`),
and what the rebuild writes below the root lies deeper than the root.

So a pass that returns leaves its root live, scanned with no error when it succeeded, and
unscanned with the error's text and the aggregate it had when it failed, and leaves no node
being scanned that was not so before (`PassTrace`). An error that ends the run is not returned
and leaves no such trace. Recomputing the aggregates along a chain of prefixes, as a prefix
pass does after its rebuild, changes nothing but aggregates (`Tables.ResizedOnly`).
-/

namespace DataCatalog.Catalog

open DataCatalog.Ident

variable {c c' c₀ : Tables}

/-! ## Depths of ids -/

/-- `id` was minted in `c`, and every row of `c` with that id has a depth satisfying `p`. -/
structure Tables.IdDepths (c : Tables) (id : NodeId) (p : Nat → Prop) : Prop where
  minted : c.Minted id
  depth : ∀ n ∈ c.nodes, n.id = id → p n.depth

theorem Tables.IdDepths.mono {id : NodeId} {p q : Nat → Prop} (h : c.IdDepths id p)
    (hpq : ∀ d, p d → q d) : c.IdDepths id q :=
  ⟨h.minted, fun n hn hid => hpq _ (h.depth n hn hid)⟩

theorem Tables.Wf.idDepths (hw : c.Wf) {n : NodeRow} {p : Nat → Prop} (hn : n ∈ c.nodes)
    (hp : p n.depth) : c.IdDepths n.id p :=
  ⟨hw.nodesMinted n hn, fun _ hm hid => hw.node_eq_of_id hm hn hid ▸ hp⟩

/-- Whatever sits below `parent` lies at depth `d` or deeper. -/
def Tables.DeepBelow (c : Tables) (parent : Option NodeId) (d : Nat) : Prop :=
  match parent with
  | none => d ≤ 1
  | some pid => c.IdDepths pid fun e => d ≤ e + 1

theorem Tables.Wf.deepBelow (hw : c.Wf) {n : NodeRow} (hn : n ∈ c.nodes) :
    c.DeepBelow n.parent n.depth := by
  rcases hw.placed n hn with hroot | ⟨p, hp, hb⟩
  · rw [hroot.parent]
    exact hroot.depth.le
  · rw [hb.parent]
    exact hw.idDepths hp hb.depth.le

theorem Tables.Wf.le_depth (hw : c.Wf) {n : NodeRow} (hn : n ∈ c.nodes) {d : Nat}
    (ha : c.DeepBelow n.parent d) : d ≤ n.depth := by
  rcases hw.placed n hn with hroot | ⟨p, hp, hb⟩
  · rw [hroot.parent] at ha
    exact hroot.depth ▸ ha
  · rw [hb.parent] at ha
    exact hb.depth ▸ (show c.IdDepths p.id _ from ha).depth p hp rfl

/-! ## The writes of a rebuild -/

/-- The writes a rebuild of the subtree of node `t` makes: node and item writes, the clear of
`t`'s own subtree, and the finish of nodes other than `t`. -/
def StoreOp.Rebuilds (t : NodeId) : StoreOp → Tables → Prop
  | .upsertNode _, _ => True
  | .upsertItem _, _ => True
  | .clearSubtree _ id, _ => id = t
  | .finishNodeScan _ id _, _ => id ≠ t
  | _, _ => False

/-- What a write of a rebuild of `t` can do: write a node, write an item, clear below `t`, or
finish a node other than `t`. -/
theorem StoreOp.Rebuilds.cases {op : StoreOp} {t : NodeId} (hop : op.Rebuilds t c)
    (h : op.run c = .ok c') :
    (∃ i row, Catalog.upsertNode i c = .ok (row, c')) ∨
      (∃ i row, Catalog.upsertItem i c = .ok (row, c')) ∨
      (∃ tn r, Catalog.clearSubtree tn t c = .ok (r, c')) ∨
      ∃ tn id a, id ≠ t ∧ Catalog.finishNodeScan tn id a c = .ok ((), c') := by
  cases op <;> simp only [StoreOp.run] at h
  case upsertNode i =>
    obtain ⟨row, h⟩ := Except.map_snd_eq_ok h
    exact .inl ⟨i, row, h⟩
  case upsertItem i =>
    obtain ⟨row, h⟩ := Except.map_snd_eq_ok h
    exact .inr (.inl ⟨i, row, h⟩)
  case clearSubtree tn id =>
    obtain ⟨r, h⟩ := Except.map_snd_eq_ok h
    have hop : id = t := hop
    exact .inr (.inr (.inl ⟨tn, r, hop ▸ h⟩))
  case finishNodeScan tn id a =>
    obtain ⟨_, h⟩ := Except.map_snd_eq_ok h
    exact .inr (.inr (.inr ⟨tn, id, a, hop, h⟩))
  all_goals exact hop.elim

/-- A write of a rebuild keeps the depths of the ids the catalog had minted. -/
theorem StoreOp.Rebuilds.idDepths {op : StoreOp} {t x : NodeId} {p : Nat → Prop}
    (hop : op.Rebuilds t c) (hw : c.Wf) (hd : c.IdDepths x p) (h : op.run c = .ok c') :
    c'.IdDepths x p := by
  rcases hop.cases h with ⟨i, row, h⟩ | ⟨i, row, h⟩ | ⟨tn, r, h⟩ | ⟨tn, id, a, -, h⟩
  · obtain ⟨parent, hpf, ⟨old, hfind, rfl, rfl⟩ | ⟨-, -, rfl, rfl⟩⟩ := upsertNode_ok h
    · -- the row of that key is rewritten in place, at its own depth
      have hold := List.mem_of_find?_eq_some hfind
      have hfound := List.find?_some hfind
      have href := NodeRow.rewritten_refines hw hold (NodeRow.hasKey_iff.1 hfound) hpf
      refine ⟨hd.minted.mono (Nat.le_succ _),
        forall_mem_replaceWhere (P := fun n : NodeRow => n.id = x → p n.depth) hd.depth ?_⟩
      intro _ _ _ hid
      rw [href.depth]
      exact hd.depth old hold (href.id ▸ hid)
    · refine ⟨hd.minted.mono (Nat.le_succ _), fun n hn hid => ?_⟩
      rcases List.mem_append.1 hn with hn | hn
      · exact hd.depth n hn hid
      · -- the fresh row carries an id the catalog had not minted
        rw [List.mem_singleton] at hn
        subst hn
        exact absurd (hid ▸ hd.minted) Tables.not_minted_fresh
  · obtain ⟨_, -, ⟨_, -, -, rfl⟩ | ⟨-, -, rfl⟩⟩ := upsertItem_ok h <;>
      exact ⟨hd.minted.mono (Nat.le_succ _), hd.depth⟩
  · obtain ⟨node, -, rfl⟩ := clearSubtree_ok h
    exact ⟨hd.minted, fun n hn => hd.depth n (List.mem_of_mem_filter hn)⟩
  · obtain rfl := finishNodeScan_ok h
    exact ⟨hd.minted, forall_mem_updateWhere (P := fun n : NodeRow => n.id = x → p n.depth)
      hd.depth fun n hn _ => hd.depth n hn⟩

theorem Tables.kept_idDepths (t x : NodeId) (p : Nat → Prop) :
    Tables.Kept (StoreOp.Rebuilds t) fun c => c.IdDepths x p :=
  fun _ _ h hd => h.keep (fun _ _ _ hop hw hd hrun => StoreOp.Rebuilds.idDepths hop hw hd hrun) hd

theorem Tables.kept_deepBelow (t : NodeId) (parent : Option NodeId) (d : Nat) :
    Tables.Kept (StoreOp.Rebuilds t) fun c => c.DeepBelow parent d := by
  cases parent with
  | none => exact Tables.kept_const _
  | some pid => exact Tables.kept_idDepths t pid _

/-! ## The root a rebuild spares -/

/-- The row of `root`'s id is live under `root`'s key with `root`'s aggregate, and every node
being scanned has an id in `S`. -/
structure Tables.Spared (root : NodeRow) (S : NodeId → Prop) (c : Tables) : Prop where
  root : ∃ n ∈ c.nodes, n.id = root.id ∧ n.naturalKey = root.naturalKey ∧ n.isLive ∧
    n.aggregate = root.aggregate
  scanning : ∀ n ∈ c.nodes, n.scanStatus = .scanning → S n.id

/-- A write of a rebuild spares its root. -/
theorem StoreOp.Rebuilds.spared {op : StoreOp} {root : NodeRow} {S : NodeId → Prop}
    (hop : op.Rebuilds root.id c) (hw : c.Wf) (hs : c.Spared root S) (h : op.run c = .ok c') :
    c'.Spared root S := by
  obtain ⟨⟨n, hn, hroot⟩, hscan⟩ := hs
  rcases hop.cases h with ⟨i, row, h⟩ | ⟨i, row, h⟩ | ⟨tn, r, h⟩ | ⟨tn, id, a, hne, h⟩
  · obtain ⟨parent, -, ⟨old, hfind, rfl, rfl⟩ | ⟨-, -, rfl, rfl⟩⟩ := upsertNode_ok h
    · -- a rewrite keeps the id, key, scan status and aggregate of its row, and revives it
      have hold := List.mem_of_find?_eq_some hfind
      refine ⟨⟨if n.id = old.id then old.rewritten i parent else n, ?_, ?_⟩, fun m hm hsc => ?_⟩
      · rw [replaceWhere_eq_map NodeRow.id old.id _ _ hw.nodeIds]
        exact List.mem_map_of_mem hn
      · by_cases ho : n.id = old.id
        · obtain rfl := hw.node_eq_of_id hn hold ho
          simp only [if_true]
          exact ⟨hroot.1, hroot.2.1, rfl, hroot.2.2.2⟩
        · simp only [ho, if_false]
          exact hroot
      · rw [replaceWhere_eq_map NodeRow.id old.id _ _ hw.nodeIds] at hm
        obtain ⟨m₀, hm₀, rfl⟩ := List.mem_map.1 hm
        by_cases ho : m₀.id = old.id
        · simp only [ho, if_true] at hsc ⊢
          exact ho ▸ hscan old hold hsc
        · simp only [ho, if_false] at hsc ⊢
          exact hscan m₀ hm₀ hsc
    · refine ⟨⟨n, List.mem_append_left _ hn, hroot⟩, fun m hm hsc => ?_⟩
      rcases List.mem_append.1 hm with hm | hm
      · exact hscan m hm hsc
      · -- a fresh row is not being scanned
        rw [List.mem_singleton] at hm
        subst hm
        cases hsc
  · obtain ⟨_, -, ⟨_, -, -, rfl⟩ | ⟨-, -, rfl⟩⟩ := upsertItem_ok h <;>
      exact ⟨⟨n, hn, hroot⟩, hscan⟩
  · -- the clear drops what lies strictly below the root, never the root
    obtain ⟨node, hnode, rfl⟩ := clearSubtree_ok h
    obtain ⟨-, -, hid, -⟩ := Tables.nodeById?_some hnode
    refine ⟨⟨n, List.mem_filter.2 ⟨hn, ?_⟩, hroot⟩, fun m hm => hscan m (List.mem_of_mem_filter hm)⟩
    simp [hroot.1, hid]
  · obtain rfl := finishNodeScan_ok h
    have hq : n.isNode tn id = false := by simp [NodeRow.isNode, hroot.1, Ne.symm hne]
    refine ⟨⟨n, ?_, hroot⟩, fun m hm hsc => ?_⟩
    · exact List.mem_map.2 ⟨n, hn, by simp [hq]⟩
    · obtain ⟨m₀, hm₀, rfl⟩ := List.mem_map.1 hm
      by_cases hmq : m₀.isNode tn id = true
      · simp only [hmq, if_true, NodeRow.finished] at hsc
        cases hsc
      · simp only [hmq, Bool.false_eq_true, if_false] at hsc ⊢
        exact hscan m₀ hm₀ hsc

theorem Tables.Writes.spared {root : NodeRow} {S : NodeId → Prop}
    (h : c.Writes (StoreOp.Rebuilds root.id) c') (hs : c.Spared root S) : c'.Spared root S :=
  h.keep (fun _ _ _ hop hw hs hrun => StoreOp.Rebuilds.spared hop hw hs hrun) hs

end DataCatalog.Catalog

namespace DataCatalog.Scan

open DataCatalog.Catalog DataCatalog.Connect DataCatalog.Source DataCatalog.Storage
open DataCatalog.Ident

variable {α : Type} {t : NodeId} {D : Nat} {P : Tables → Prop}

/-! ## The rebuild of a subtree -/

/-- A node written below rows of depth `d - 1` or deeper lies at depth `d` or deeper, so it is
not `t` when `t` lies higher. -/
theorem writeNode_rebuilds (hP : Tables.Kept (StoreOp.Rebuilds t) P) {i : NodeInput} {d : Nat}
    (h : ∀ c, P c → c.DeepBelow i.parent d ∧ c.IdDepths t (· = D)) :
    (writeNode i).Moves (StoreOp.Rebuilds t) P
      fun row c => c.IdDepths row.id (d ≤ ·) ∧ (D < d → row.id ≠ t) :=
  storeOp_moves (.upsertNode i) hP
    (fun row => (Tables.kept_idDepths t row.id _).and (Tables.kept_const _)) (fun _ => rfl)
    (fun _ _ => trivial) fun c row c' hw hc hrun => by
      obtain ⟨hb, ht⟩ := h c hc
      have hop : (StoreOp.upsertNode i).run c = .ok c' := by
        show (upsertNode i c).map Prod.snd = _
        rw [hrun]
        rfl
      have hw' := upsertNode_wf hw hrun
      obtain ⟨-, -, hkey, -, hrow, -⟩ := upsertNode_written hrun
      have hpar : row.parent = i.parent := congrArg (·.2.2.1) hkey
      -- the row sits below the parent the write named, whose depth the write kept
      have hdepth : d ≤ row.depth := hw'.le_depth hrow
        (hpar ▸ Tables.kept_deepBelow t i.parent d c c'
          (.single ⟨hw, .upsertNode i, trivial, hop⟩) hb)
      refine ⟨hw'.idDepths hrow hdepth, fun hlt hid => ?_⟩
      have hkept : c'.IdDepths t (· = D) :=
        StoreOp.Rebuilds.idDepths (show (StoreOp.upsertNode i).Rebuilds t c from trivial) hw ht hop
      have := hkept.depth row hrow hid
      omega

/-- A rebuild of `target` writes what a rebuild of its id admits: every node it tracks lies at
the target's depth or deeper and is the target only as the entry of `base`, since a child of a
tracked node lies deeper still. -/
theorem rebuildRules_rebuilds (target : NodeRow) (base : String) :
    RebuildRules (StoreOp.Rebuilds target.id)
      (fun c => c.DeepBelow target.parent target.depth ∧ c.IdDepths target.id (· = target.depth))
      (fun e c => c.IdDepths e.2.id (target.depth ≤ ·) ∧ (e.2.id = target.id → e.1 = base))
      target base where
  kept := (Tables.kept_deepBelow _ _ _).and (Tables.kept_idDepths _ _ _)
  kept_entry e := (Tables.kept_idDepths _ e.2.id _).and (Tables.kept_const _)
  root _ h := ⟨h.2.mono fun _ h => h.ge, fun _ => rfl⟩
  clear _ _ := rfl
  rewrite _ := (writeNode_rebuilds ((Tables.kept_deepBelow _ _ _).and (Tables.kept_idDepths _ _ _))
    fun _ h => h).mono (fun _ h => h) fun _ _ h => ⟨h.1, fun _ => rfl⟩
  child _ par s a _ := (writeNode_rebuilds
      (i := ⟨par.tenant, par.resource, some par.id, .keyPrefix, s, a⟩) (d := target.depth + 1)
      (((Tables.kept_deepBelow _ _ _).and (Tables.kept_idDepths _ _ _)).and
        ((Tables.kept_idDepths _ par.id _).and (Tables.kept_const _)))
      fun _ h => ⟨h.2.1.mono fun _ h => Nat.succ_le_succ h, h.1.2⟩).mono (fun _ h => h)
    fun _ _ h => ⟨h.1.mono fun _ h => Nat.le_of_succ_le h,
      fun hid => absurd hid (h.2 (Nat.lt_succ_self _))⟩
  item _ _ _ _ _ := trivial
  finish _ _ _ hne h hid := hne (h.2 hid)

theorem replaceObjects_rebuilds (target : NodeRow) (base : String)
    (walked : Option (List ObjectRecord)) :
    (replaceObjects target base walked).Moves (StoreOp.Rebuilds target.id)
      (fun c => c.DeepBelow target.parent target.depth ∧
        c.IdDepths target.id (· = target.depth)) fun _ _ => True :=
  replaceObjects_moves (rebuildRules_rebuilds target base) (rebuildRules_rebuilds target base).kept
    (fun _ h => h) walked

theorem replaceTables_rebuilds (node : NodeRow) :
    (replaceTables node).Moves (StoreOp.Rebuilds node.id) (fun _ => True) fun _ _ => True :=
  replaceTables_moves (Tables.kept_const True) (fun _ _ => rfl) fun _ _ _ _ => trivial

end DataCatalog.Scan

namespace DataCatalog.Catalog

open DataCatalog.Ident

variable {c c' c₀ : Tables}

/-! ## Scan status at the ends of a pass -/

/-- Every node being scanned in `c'` was so in `c`. -/
def Tables.NoNewScans (c c' : Tables) : Prop :=
  ∀ n ∈ c'.nodes, n.scanStatus = .scanning → ∃ m ∈ c.nodes, m.id = n.id ∧ m.scanStatus = .scanning

theorem Tables.NoNewScans.trans {c'' : Tables} (h₁ : c.NoNewScans c') (h₂ : c'.NoNewScans c'') :
    c.NoNewScans c'' := fun n hn hs => by
  obtain ⟨m, hm, hid, hms⟩ := h₂ n hn hs
  obtain ⟨k, hk, hkid, hks⟩ := h₁ m hm hms
  exact ⟨k, hk, hkid.trans hid, hks⟩

/-- A node write marks nothing as being scanned. -/
theorem upsertNode_noNewScans {i : NodeInput} {row : NodeRow}
    (h : upsertNode i c = .ok (row, c')) : c.NoNewScans c' := by
  obtain ⟨parent, -, ⟨old, hfind, rfl, rfl⟩ | ⟨-, -, rfl, rfl⟩⟩ := upsertNode_ok h
  · exact forall_mem_replaceWhere (P := fun n : NodeRow => n.scanStatus = .scanning →
        ∃ m ∈ c.nodes, m.id = n.id ∧ m.scanStatus = .scanning)
      (fun m hm hms => ⟨m, hm, rfl, hms⟩)
      (fun _ _ _ hms => ⟨old, List.mem_of_find?_eq_some hfind, rfl, hms⟩)
  · intro n hn hs
    rcases List.mem_append.1 hn with hn | hn
    · exact ⟨n, hn, rfl, hs⟩
    · rw [List.mem_singleton] at hn
      subst hn
      cases hs

/-- The aggregate of the row a node write of this key finds, live or retired, or zero. -/
def Tables.aggregateAt (c : Tables) (tenant : TenantId) (resource : ResourceId)
    (parent : Option NodeId) (kind : NodeKind) (name : String) : Aggregate :=
  ((c.nodes.find? (·.hasKey tenant resource parent kind name)).map NodeRow.aggregate).getD {}

/-- A node write returns a live row with the aggregate of the row of its key, or zero. -/
theorem upsertNode_aggregate {i : NodeInput} {row : NodeRow} (h : upsertNode i c = .ok (row, c')) :
    row.isLive ∧ row.aggregate = c.aggregateAt i.tenant i.resource i.parent i.kind i.name := by
  obtain ⟨parent, -, ⟨old, hfind, rfl, rfl⟩ | ⟨hfind, -, rfl, rfl⟩⟩ := upsertNode_ok h <;>
    exact ⟨rfl, by simp [Tables.aggregateAt, hfind]; rfl⟩

/-- Nodes being scanned in `c'` were so in `c`, and none of them is `t`. -/
def Tables.ScanningKept (c c' : Tables) (t : NodeId) : Prop :=
  c.NoNewScans c' ∧ ∀ n ∈ c'.nodes, n.id = t → n.scanStatus ≠ .scanning

/-- `x` is `t`, or the id of a node being scanned in `c`. -/
def Tables.ScanningOr (c : Tables) (t x : NodeId) : Prop :=
  x = t ∨ ∃ m ∈ c.nodes, m.id = x ∧ m.scanStatus = .scanning

/-- Beginning the scan of a live row spares it, with the nodes being scanned before. -/
theorem beginNodeScan_spared (hw : c.Wf) {root : NodeRow} (hmem : root ∈ c.nodes)
    (hlive : root.isLive) (h : beginNodeScan root.tenant root.id c = .ok ((), c')) :
    c'.Wf ∧ c'.Spared root (c.ScanningOr root.id) ∧ c'.DeepBelow root.parent root.depth ∧
      c'.IdDepths root.id (· = root.depth) := by
  have hw' := beginNodeScan_wf hw h
  obtain ⟨-, rfl⟩ := beginNodeScan_ok h
  have hrow : root.begun (Time.Instant.ofMillis c.clock) ∈
      updateWhere (·.isNode root.tenant root.id) (·.begun (Time.Instant.ofMillis c.clock))
        c.nodes :=
    List.mem_map.2 ⟨root, hmem, by simp [NodeRow.isNode]⟩
  have hd := hw'.deepBelow hrow
  have hi := hw'.idDepths hrow (p := (· = root.depth)) rfl
  refine ⟨hw', ⟨⟨_, hrow, rfl, rfl, hlive, rfl⟩, fun m hm hs => ?_⟩, hd, hi⟩
  obtain ⟨m₀, hm₀, rfl⟩ := List.mem_map.1 hm
  by_cases hq : m₀.isNode root.tenant root.id = true
  · simp only [NodeRow.isNode, Bool.and_eq_true, beq_iff_eq] at hq
    left
    simp [NodeRow.isNode, hq, NodeRow.begun]
  · simp only [hq, Bool.false_eq_true, if_false] at hs ⊢
    exact .inr ⟨m₀, hm₀, rfl, hs⟩

/-- Rewriting the row of a spared root by `f`, which marks nothing as being scanned, leaves no
node being scanned that was not so in `c₀`, nor the root. -/
theorem Tables.Spared.close (hw : c.Wf) {root : NodeRow}
    (hs : c.Spared root (c₀.ScanningOr root.id))
    (f : NodeRow → NodeRow) (hf : ∀ n, (f n).scanStatus ≠ .scanning)
    (c' : Tables) (hnodes : c'.nodes = updateWhere (·.isNode root.tenant root.id) f c.nodes) :
    c₀.ScanningKept c' root.id ∧ ∃ n ∈ c.nodes, n.id = root.id ∧
      n.naturalKey = root.naturalKey ∧ n.isLive ∧ n.aggregate = root.aggregate ∧
        f n ∈ c'.nodes := by
  obtain ⟨⟨n, hn, hid, hkey, hlive, hagg⟩, hscan⟩ := hs
  have htn : n.tenant = root.tenant := congrArg (·.1) hkey
  have hq : n.isNode root.tenant root.id = true := by simp [NodeRow.isNode, htn, hid]
  -- a row of the root's id is the root's own row, which `f` rewrote
  have honly : ∀ m ∈ c.nodes, m.isNode root.tenant root.id = false → m.id ≠ root.id :=
    fun m hm hmq hmid => by
      rw [hw.node_eq_of_id hm hn (hmid.trans hid.symm), hq] at hmq
      cases hmq
  refine ⟨⟨fun m hm hms => ?_, fun m hm hmid => ?_⟩, n, hn, hid, hkey, hlive, hagg,
    hnodes ▸ List.mem_map.2 ⟨n, hn, by simp [hq]⟩⟩
  · rw [hnodes] at hm
    obtain ⟨m₀, hm₀, rfl⟩ := List.mem_map.1 hm
    by_cases hmq : m₀.isNode root.tenant root.id = true
    · simp only [hmq, if_true] at hms
      exact absurd hms (hf m₀)
    · simp only [hmq, Bool.false_eq_true, if_false] at hms ⊢
      rcases hscan m₀ hm₀ hms with hmid | hprev
      · exact absurd hmid (honly m₀ hm₀ (by simpa using hmq))
      · exact hprev
  · rw [hnodes] at hm
    obtain ⟨m₀, hm₀, rfl⟩ := List.mem_map.1 hm
    by_cases hmq : m₀.isNode root.tenant root.id = true
    · simp only [hmq, if_true]
      exact hf m₀
    · simp only [hmq, Bool.false_eq_true, if_false] at hmid ⊢
      exact absurd hmid (honly m₀ hm₀ (by simpa using hmq))

/-- Finishing the scan of a spared root marks it scanned, with no error and a scan time. -/
theorem Tables.Spared.finish (hw : c.Wf) {root : NodeRow}
    (hs : c.Spared root (c₀.ScanningOr root.id)) {a : Aggregate}
    (h : finishNodeScan root.tenant root.id a c = .ok ((), c')) :
    c₀.ScanningKept c' root.id ∧ ∃ n ∈ c'.nodes, n.id = root.id ∧
      n.naturalKey = root.naturalKey ∧ n.isLive ∧ n.scanStatus = .scanned ∧
      n.errorMessage = none ∧ n.lastScanAt.isSome := by
  obtain ⟨hkept, n, -, hid, hkey, hlive, -, hrow⟩ :=
    hs.close hw (·.finished (Time.Instant.ofMillis c.clock) a) (fun _ h => by cases h) c'
      (by rw [finishNodeScan_ok h])
  exact ⟨hkept, _, hrow, hid, hkey, hlive, rfl, rfl, rfl⟩

/-- Recording a failed scan on a spared root marks it unscanned with the error, and keeps its
aggregate. -/
theorem Tables.Spared.fail (hw : c.Wf) {root : NodeRow}
    (hs : c.Spared root (c₀.ScanningOr root.id)) {error : String}
    (h : failNodeScan root.tenant root.id error c = .ok ((), c')) :
    c₀.ScanningKept c' root.id ∧ ∃ n ∈ c'.nodes, n.id = root.id ∧
      n.naturalKey = root.naturalKey ∧ n.isLive ∧ n.scanStatus = .unscanned ∧
      n.errorMessage = some error ∧ n.aggregate = root.aggregate := by
  obtain ⟨hkept, n, -, hid, hkey, hlive, hagg, hrow⟩ :=
    hs.close hw (fun n => { n with scanStatus := .unscanned, errorMessage := some error })
      (fun _ h => by cases h) c' (by rw [failNodeScan_ok h])
  exact ⟨hkept, _, hrow, hid, hkey, hlive, rfl, rfl, hagg⟩

theorem Tables.nodeById?_isSome_iff {t : TenantId} {id : NodeId} :
    (c.nodeById? t id).isSome ↔ ∃ n ∈ c.nodes, n.isNode t id ∧ n.isLive := by
  simp [Tables.nodeById?, List.find?_isSome]

theorem Tables.nodeById?_isSome_of_mem {n : NodeRow} (hn : n ∈ c.nodes) (hlive : n.isLive) :
    (c.nodeById? n.tenant n.id).isSome :=
  Tables.nodeById?_isSome_iff.2 ⟨n, hn, by simp [NodeRow.isNode], hlive⟩

/-- The scan of a live node begins. -/
theorem beginNodeScan_of_live {t : TenantId} {id : NodeId} (h : (c.nodeById? t id).isSome) :
    ∃ c', beginNodeScan t id c = .ok ((), c') := by
  rw [beginNodeScan_run, if_pos h]
  exact ⟨_, rfl⟩

/-- A live row of a well-formed catalog is the node its key reads. -/
theorem Tables.Wf.getNode_of_key (hw : c.Wf) {n root : NodeRow} (hn : n ∈ c.nodes)
    (hkey : n.naturalKey = root.naturalKey) (hlive : n.isLive) :
    c.getNode root.tenant root.resource root.parent root.kind root.name = some n := by
  unfold Tables.getNode
  have hex : ∃ m ∈ c.nodes,
      (m.hasKey root.tenant root.resource root.parent root.kind root.name && m.isLive) = true :=
    ⟨n, hn, by simp [NodeRow.hasKey_iff.2 hkey, hlive]⟩
  obtain ⟨m, hm⟩ := Option.isSome_iff_exists.1 (List.find?_isSome.2 hex)
  rw [hm]
  have hp := List.find?_some hm
  simp only [Bool.and_eq_true] at hp
  have hmk : m.naturalKey = n.naturalKey := (NodeRow.hasKey_iff.1 hp.1).trans hkey.symm
  exact congrArg some (List.inj_on_of_nodup_map hw.nodeKeys (List.mem_of_find?_eq_some hm) hn hmk)

/-! ## Writes that change only aggregates -/

/-- A node row with its aggregate left out. -/
def NodeRow.withoutAggregate (n : NodeRow) : NodeRow := { n with itemCount := 0, totalSize := 0 }

/-- `c'` is `c` with at most the aggregates of its nodes changed. -/
def Tables.ResizedOnly (c c' : Tables) : Prop :=
  c' = { c with nodes := c'.nodes } ∧
    c'.nodes.map NodeRow.withoutAggregate = c.nodes.map NodeRow.withoutAggregate

theorem Tables.ResizedOnly.trans {c'' : Tables} (h₁ : c.ResizedOnly c') (h₂ : c'.ResizedOnly c'') :
    c.ResizedOnly c'' := by
  refine ⟨?_, h₂.2.trans h₁.2⟩
  rw [h₂.1, h₁.1]

/-- The writes that only set a node's aggregate. -/
def StoreOp.Resizes : StoreOp → Tables → Prop
  | .setNodeAggregate _ _ _, _ => True
  | _, _ => False

theorem StoreOp.Resizes.resizedOnly {op : StoreOp} (hop : op.Resizes c)
    (h : op.run c = .ok c') : c.ResizedOnly c' := by
  cases op
  case setNodeAggregate t id a =>
    simp only [StoreOp.run, setNodeAggregate_run, Except.map, Except.ok.injEq] at h
    subst h
    refine ⟨rfl, ?_⟩
    -- a rewritten row differs from the row it replaces only in its aggregate
    simp only [updateWhere, List.map_map]
    exact List.map_congr_left fun n _ => by
      by_cases hn : n.isNode t id <;> simp [hn, NodeRow.withoutAggregate]
  all_goals exact hop.elim

theorem Tables.Writes.resizedOnly (h : c.Writes StoreOp.Resizes c') : c.ResizedOnly c' :=
  h.keep (J := c.ResizedOnly) (fun _ _ _ hop _ hJ hrun => hJ.trans (hop.resizedOnly hrun))
    ⟨rfl, rfl⟩

end DataCatalog.Catalog

namespace DataCatalog.Scan

open DataCatalog.Catalog DataCatalog.Connect DataCatalog.Source DataCatalog.Storage
open DataCatalog.Ident

variable {α : Type}

/-! ## The pass over a subtree -/

theorem Step.runAlone_inCatalog {β : Type} (op : Store β) (w : World) :
    (inCatalog op).runAlone w = match op w.catalog with
      | .ok (a, c) => (.ok a, { w with catalog := c })
      | .error e => (.error (.persistence e), w) :=
  Step.runAlone_inCatalogSpan 0 0 op w

theorem Step.runAlone_finishNodeScan (tenant : TenantId) (id : NodeId) (a : Aggregate)
    (w : World) :
    (inCatalog (finishNodeScan tenant id a)).runAlone w =
      (.ok (), { w with catalog := { w.catalog with
        clock := w.catalog.clock + 1
        nodes := updateWhere (·.isNode tenant id)
          (·.finished (Time.Instant.ofMillis w.catalog.clock) a) w.catalog.nodes } }) := by
  rw [Step.runAlone_inCatalog, finishNodeScan_run]

theorem Step.runAlone_markFailed (tenant : TenantId) (id : NodeId) (error : String) (w : World) :
    (markFailed tenant id error).runAlone w =
      (.ok (), { w with catalog := { w.catalog with
        nodes := updateWhere (·.isNode tenant id)
          (fun n => { n with scanStatus := .unscanned, errorMessage := some error })
          w.catalog.nodes } }) := by
  unfold markFailed
  rw [Step.runAlone_bind, Step.runAlone_attempt, Step.runAlone_inCatalog, failNodeScan_run]
  rfl

/-- A pass over a subtree whose scan begins runs its rebuild from the begun catalog. A failure
of the rebuild is passed on, after the node is marked failed unless it ends the run; a success
finishes the node and counts one namespace more. -/
theorem subtreePass_runAlone {tenant : TenantId} {id : NodeId}
    (body : Step (Aggregate × ScanCounts)) {w : World} {c₁ : Tables}
    (hbegin : beginNodeScan tenant id w.catalog = .ok ((), c₁)) :
    (subtreePass tenant id body).runAlone w = match body.runAlone { w with catalog := c₁ } with
      | (.ok (agg, counts), w₂) =>
        (.ok { counts with namespaces := 1 }, { w₂ with catalog := { w₂.catalog with
          clock := w₂.catalog.clock + 1
          nodes := updateWhere (·.isNode tenant id)
            (·.finished (Time.Instant.ofMillis w₂.catalog.clock) agg) w₂.catalog.nodes } })
      | (.error e, w₂) => if e.fatal then (.error e, w₂) else
        (.error e, { w₂ with catalog := { w₂.catalog with
          nodes := updateWhere (·.isNode tenant id)
            (fun n => { n with scanStatus := .unscanned, errorMessage := some e.message })
            w₂.catalog.nodes } }) := by
  unfold subtreePass
  rw [Step.runAlone_bind, Step.runAlone_inCatalog, hbegin]
  dsimp only
  rw [Step.runAlone_bind, Step.runAlone_attempt]
  rcases body.runAlone { w with catalog := c₁ } with ⟨e | ⟨agg, counts⟩, w₂⟩
  · dsimp only
    by_cases hf : e.fatal = true
    · simp only [hf, if_true]
    · simp only [hf, Bool.false_eq_true, if_false]
      rw [Step.runAlone_bind, Step.runAlone_markFailed]
      rfl
  · dsimp only
    rw [Step.runAlone_bind, Step.runAlone_finishNodeScan]
    rfl

/-- What a pass over the subtree of node `t`, whose aggregate was `before`, leaves when it
answers `r`. A returned error leaves `t` live and unscanned, with the error's text and the
aggregate `before`; a success leaves it live and scanned, with no error and a scan time. Either
way no node is left being scanned that was not so before, and `t` is not. An error that ends the
run is not returned, and is not traced. -/
def PassTrace (c c' : Tables) (t : NodeId) (before : Aggregate) : Except ScanError α → Prop
  | .ok _ => c.ScanningKept c' t ∧ ∃ n ∈ c'.nodes, n.id = t ∧ n.isLive ∧
      n.scanStatus = .scanned ∧ n.errorMessage = none ∧ n.lastScanAt.isSome
  | .error e => e.fatal = false → c.ScanningKept c' t ∧ ∃ n ∈ c'.nodes, n.id = t ∧ n.isLive ∧
      n.scanStatus = .unscanned ∧ n.errorMessage = some e.message ∧ n.aggregate = before

theorem PassTrace.of_noNewScans {c₀ c c' : Tables} {t : NodeId} {before : Aggregate}
    {r : Except ScanError α} (h₀ : c₀.NoNewScans c) (h : PassTrace c c' t before r) :
    PassTrace c₀ c' t before r := by
  cases r with
  | ok a => exact ⟨⟨h₀.trans h.1.1, h.1.2⟩, h.2⟩
  | error e => exact fun hf => ⟨⟨h₀.trans (h hf).1.1, (h hf).1.2⟩, (h hf).2⟩

/-- A pass over the subtree of a live row whose rebuild makes only the writes of a rebuild
leaves the trace of its answer, and leaves the row where its key reads it. -/
theorem subtreePass_traced {root : NodeRow} {body : Step (Aggregate × ScanCounts)}
    (hbody : body.Moves (StoreOp.Rebuilds root.id)
      (fun c => c.DeepBelow root.parent root.depth ∧ c.IdDepths root.id (· = root.depth))
      fun _ _ => True)
    {w : World} (hw : w.catalog.Wf) (hmem : root ∈ w.catalog.nodes) (hlive : root.isLive) :
    PassTrace w.catalog ((subtreePass root.tenant root.id body).runAlone w).2.catalog root.id
        root.aggregate ((subtreePass root.tenant root.id body).runAlone w).1 ∧
      ∃ n, ((subtreePass root.tenant root.id body).runAlone w).2.catalog.getNode root.tenant
        root.resource root.parent root.kind root.name = some n ∧ n.id = root.id := by
  -- the root is live, so its scan begins
  obtain ⟨c₁, hbegin⟩ := beginNodeScan_of_live (Tables.nodeById?_isSome_of_mem hmem hlive)
  obtain ⟨hw₁, hs₁, hd₁, hi₁⟩ := beginNodeScan_spared hw hmem hlive hbegin
  obtain ⟨hwrites, -⟩ := hbody.run (w := { w with catalog := c₁ }) hw₁ ⟨hd₁, hi₁⟩
  rw [subtreePass_runAlone body hbegin]
  -- the rebuild spares the root, whatever it answers
  rcases hb : body.runAlone { w with catalog := c₁ } with ⟨e | ⟨agg, counts⟩, w₂⟩ <;>
    rw [hb] at hwrites <;> dsimp only at hwrites ⊢ <;>
    have hs₂ := hwrites.spared hs₁ <;> have hw₂ := hwrites.wf hw₁
  · by_cases hf : e.fatal = true
    · -- an error that ends the run is passed on at once
      simp only [hf, if_true]
      obtain ⟨n, hn, hid, hkey, hlive₂, -⟩ := hs₂.root
      exact ⟨fun hf' => absurd hf (by simp [hf']), n, hw₂.getNode_of_key hn hkey hlive₂, hid⟩
    · -- a returned error is recorded on the root, which keeps its aggregate
      simp only [hf, Bool.false_eq_true, if_false]
      have hfail := failNodeScan_run root.tenant root.id e.message w₂.catalog
      obtain ⟨hkept, n, hrow, hid, hkey, hlive₃, hun, hmsg, hagg⟩ := hs₂.fail hw₂ hfail
      exact ⟨fun _ => ⟨hkept, n, hrow, hid, hlive₃, hun, hmsg, hagg⟩, n,
        (failNodeScan_wf hw₂ hfail).getNode_of_key hrow hkey hlive₃, hid⟩
  · -- a finished rebuild marks the root scanned
    have hfinish := finishNodeScan_run root.tenant root.id agg w₂.catalog
    obtain ⟨hkept, n, hrow, hid, hkey, hlive₃, hdone⟩ := hs₂.finish hw₂ hfinish
    exact ⟨⟨hkept, n, hrow, hid, hlive₃, hdone⟩, n,
      (finishNodeScan_wf hw₂ hfinish).getNode_of_key hrow hkey hlive₃, hid⟩

/-- What a pass that writes the node of a key and then passes over its subtree leaves when it
answers `r`: either the write failed and the catalog is as it was, or the key reads a node whose
pass left the trace of `r`, against the aggregate that the key's row had before. -/
def KeyedTrace (c c' : Tables) (tenant : TenantId) (resource : ResourceId)
    (parent : Option NodeId) (kind : NodeKind) (name : String) (r : Except ScanError α) : Prop :=
  (c' = c ∧ ∃ e, r = .error e) ∨
    ∃ n, c'.getNode tenant resource parent kind name = some n ∧
      PassTrace c c' n.id (c.aggregateAt tenant resource parent kind name) r

/-- Writing a node and passing over its subtree, with a rebuild that makes only the writes of a
rebuild, leaves the keyed trace of the answer. -/
theorem keyedPass_traced {i : NodeInput} {k : NodeRow → Step ScanCounts}
    {body : NodeRow → Step (Aggregate × ScanCounts)}
    (hk : ∀ row, row.tenant = i.tenant → k row = subtreePass row.tenant row.id (body row))
    (hbody : ∀ row, (body row).Moves (StoreOp.Rebuilds row.id)
      (fun c => c.DeepBelow row.parent row.depth ∧ c.IdDepths row.id (· = row.depth))
      fun _ _ => True)
    {w : World} (hw : w.catalog.Wf) :
    KeyedTrace w.catalog ((writeNode i >>= k).runAlone w).2.catalog i.tenant i.resource i.parent
      i.kind i.name ((writeNode i >>= k).runAlone w).1 := by
  unfold writeNode
  rw [Step.runAlone_bind, Step.runAlone_inCatalogSpan]
  rcases hu : upsertNode i w.catalog with e | ⟨row, c₁⟩
  · -- the write failed: nothing changed
    exact .inl ⟨rfl, _, rfl⟩
  · dsimp only
    obtain ⟨-, -, hkey, -, hmem, -, -⟩ := upsertNode_written hu
    obtain ⟨hlive, hagg⟩ := upsertNode_aggregate hu
    simp only [NodeRow.naturalKey, Prod.mk.injEq] at hkey
    obtain ⟨ht, hr, hp, hkd, hn⟩ := hkey
    rw [hk row ht]
    rw [← ht, ← hr, ← hp, ← hkd, ← hn] at hagg ⊢
    obtain ⟨htrace, n, hget, hid⟩ :=
      subtreePass_traced (hbody row) (w := { w with catalog := c₁ }) (upsertNode_wf hw hu) hmem
        hlive
    refine .inr ⟨n, hget, ?_⟩
    rw [hid, ← hagg]
    exact htrace.of_noNewScans (upsertNode_noNewScans hu)

/-- A rebuild of a subtree below a live row leaves the trace of its answer. -/
theorem reconcileSubtree_traced {target : NodeRow} {w : World} (hw : w.catalog.Wf)
    (hmem : target ∈ w.catalog.nodes) (hlive : target.isLive) (base : String)
    (walked : Option (List ObjectRecord)) :
    PassTrace w.catalog ((reconcileSubtree target base walked).runAlone w).2.catalog target.id
      target.aggregate ((reconcileSubtree target base walked).runAlone w).1 := by
  rw [reconcileSubtree_eq]
  exact (subtreePass_traced (replaceObjects_rebuilds target base walked) hw hmem hlive).1

/-- A schema pass leaves the keyed trace of its answer on the schema's node. -/
theorem reconcileSchema_traced (resource : ResourceRow) (kind : ResourceKind)
    (schema : SchemaSummary) {w : World} (hw : w.catalog.Wf) :
    KeyedTrace w.catalog ((reconcileSchema resource kind schema).runAlone w).2.catalog
      resource.tenant resource.id none kind.namespaceKind schema.name
      ((reconcileSchema resource kind schema).runAlone w).1 := by
  rw [reconcileSchema_eq]
  refine keyedPass_traced (fun row ht => by rw [ht]) (fun row => ?_) hw
  exact (replaceTables_rebuilds row).mono (fun _ _ => trivial) fun _ _ h => h

/-- The pass over a path naming a whole bucket writes the bucket's node and rebuilds its
subtree. -/
theorem reconcileObjectPath_whole_bucket (resource : ResourceRow) {path bucket : String}
    (hsplit : splitObjectPath path = some (bucket, ""))
    (hres : hasReservedSegment bucket = false) :
    reconcileObjectPath resource path =
      (writeNode ⟨resource.tenant, resource.id, none, .bucket, bucket, none⟩ >>= fun node =>
        reconcileSubtree node "" none) := by
  unfold reconcileObjectPath
  have hkey : hasReservedSegment "" = false := by decide
  rw [hsplit]
  simp [hres, hkey]

/-- The pass over a whole bucket leaves the keyed trace of its answer on the bucket's node. -/
theorem reconcileBucket_traced (resource : ResourceRow) {path bucket : String}
    (hsplit : splitObjectPath path = some (bucket, ""))
    (hres : hasReservedSegment bucket = false) {w : World} (hw : w.catalog.Wf) :
    KeyedTrace w.catalog ((reconcileObjectPath resource path).runAlone w).2.catalog
      resource.tenant resource.id none .bucket bucket
      ((reconcileObjectPath resource path).runAlone w).1 := by
  rw [reconcileObjectPath_whole_bucket resource hsplit hres]
  exact keyedPass_traced (fun row _ => reconcileSubtree_eq row "" none)
    (fun row => replaceObjects_rebuilds row "" none) hw

/-! ## Recomputing aggregates along a chain -/

theorem rollUp_resizes (chain : List NodeRow) :
    (rollUp chain).Moves StoreOp.Resizes (fun _ => True) fun _ _ => True :=
  Step.Moves.forM fun _ _ =>
    Step.Moves.bind (sumChildren_moves (Tables.kept_const True)) fun _ =>
      storeOp_moves (.setNodeAggregate _ _ _) (Tables.kept_const True)
        (fun _ => Tables.kept_const True) (fun _ => rfl) (fun _ _ => trivial)
        fun _ _ _ _ _ _ => trivial

/-- Recomputing the aggregates along a chain changes nothing but aggregates, whether it
succeeds or fails. -/
theorem rollUp_resizedOnly (chain : List NodeRow) {w : World} (hw : w.catalog.Wf) :
    w.catalog.ResizedOnly ((rollUp chain).runAlone w).2.catalog :=
  ((rollUp_resizes chain).run hw trivial).1.resizedOnly

end DataCatalog.Scan
