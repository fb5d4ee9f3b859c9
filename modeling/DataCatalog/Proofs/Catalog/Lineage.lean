import Mathlib
import DataCatalog.Proofs.Catalog.Reachable
/-!
# Node ids keep their kind

The catalog mints each node id from its serial counter, mints no id twice, and no write changes
the kind of a row it keeps. So once an id is minted, every row that carries it, now or later,
has one kind. `Tables.KeepsKinds c c'` says this of two catalogs: the counter did not go back,
and every row of `c'` whose id `c` had minted was in `c` with the same kind. Every successful
store operation keeps kinds, and so does every run of writes, `Tables.Writes W`, whatever the
writes `W` admits. What a scan once read of an id's kind, `Tables.IdKind`, therefore stays true
while other scans write (`Tables.Kept`).
-/

namespace DataCatalog.Catalog

open DataCatalog.Ident

section Rows

variable {α : Type} {P : α → Prop} {p : α → Bool} {f : α → α}

/-- A property of every row survives replacing the first row that matches by one that has it. -/
theorem forall_mem_replaceWhere :
    ∀ {l : List α}, (∀ x ∈ l, P x) → (∀ x ∈ l, p x = true → P (f x)) →
      ∀ x ∈ replaceWhere p f l, P x
  | [], _, _ => by simp [replaceWhere]
  | y :: l, hl, hf => by
    obtain ⟨hy, hrest⟩ := List.forall_mem_cons.1 hl
    unfold replaceWhere
    split
    · exact List.forall_mem_cons.2 ⟨hf y List.mem_cons_self ‹_›, hrest⟩
    · exact List.forall_mem_cons.2
        ⟨hy, forall_mem_replaceWhere hrest fun x hx => hf x (List.mem_cons_of_mem _ hx)⟩

/-- A property of every row survives changing the rows that match into rows that have it. -/
theorem forall_mem_updateWhere {l : List α} (hl : ∀ x ∈ l, P x)
    (hf : ∀ x ∈ l, p x = true → P (f x)) : ∀ x ∈ updateWhere p f l, P x := by
  intro x hx
  obtain ⟨y, hy, rfl⟩ := List.mem_map.1 hx
  split
  · exact hf y hy ‹_›
  · exact hl y hy

end Rows

variable {c c' c'' : Tables}

/-- The catalog `c` has minted the id `id`. -/
def Tables.Minted (c : Tables) (id : NodeId) : Prop := ∃ k < c.serial, id.text = Uuid.ofSerial k

theorem Tables.Minted.mono {id : NodeId} (h : c.Minted id) (hs : c.serial ≤ c'.serial) :
    c'.Minted id := by
  obtain ⟨k, hk, he⟩ := h
  exact ⟨k, by omega, he⟩

theorem Tables.not_minted_fresh : ¬c.Minted ⟨Uuid.ofSerial c.serial⟩ := by
  rintro ⟨k, hk, he⟩
  exact absurd (ofSerial_injective he).symm (by omega)

/-- The counter of `c'` did not go back, and every row of `c'` whose id `c` had minted was a
row of `c` with the same id and kind. -/
def Tables.KeepsKinds (c c' : Tables) : Prop :=
  c.serial ≤ c'.serial ∧
    ∀ n' ∈ c'.nodes, c.Minted n'.id → ∃ n ∈ c.nodes, n.id = n'.id ∧ n.kind = n'.kind

theorem Tables.KeepsKinds.refl (c : Tables) : c.KeepsKinds c :=
  ⟨Nat.le_refl _, fun n hn _ => ⟨n, hn, rfl, rfl⟩⟩

theorem Tables.KeepsKinds.trans (h₁ : c.KeepsKinds c') (h₂ : c'.KeepsKinds c'') :
    c.KeepsKinds c'' := by
  refine ⟨Nat.le_trans h₁.1 h₂.1, fun n'' hn'' hm => ?_⟩
  -- an id minted in `c` was minted in `c'` too, so its row of `c''` goes back through `c'`
  obtain ⟨n', hn', hid', hk'⟩ := h₂.2 n'' hn'' (hm.mono h₁.1)
  obtain ⟨n, hn, hid, hk⟩ := h₁.2 n' hn' (hid' ▸ hm)
  exact ⟨n, hn, hid.trans hid', hk.trans hk'⟩

/-- `id` was minted in `c`, and every row of `c` with that id has a kind satisfying `p`. -/
structure Tables.IdKind (c : Tables) (id : NodeId) (p : NodeKind → Prop) : Prop where
  minted : c.Minted id
  kind : ∀ n ∈ c.nodes, n.id = id → p n.kind

theorem Tables.IdKind.of_keepsKinds {id : NodeId} {p : NodeKind → Prop} (h : c.IdKind id p)
    (hk : c.KeepsKinds c') : c'.IdKind id p := by
  refine ⟨h.minted.mono hk.1, fun n' hn' hid => ?_⟩
  obtain ⟨n, hn, hid', hkind⟩ := hk.2 n' hn' (hid ▸ h.minted)
  exact hkind ▸ h.kind n hn (hid'.trans hid)

/-- In a well-formed catalog the id of a row is minted and carried by that row alone. -/
theorem Tables.Wf.idKind (hw : c.Wf) {n : NodeRow} {p : NodeKind → Prop} (hn : n ∈ c.nodes)
    (hp : p n.kind) : c.IdKind n.id p :=
  ⟨hw.nodesMinted n hn, fun _ hm hid => hw.node_eq_of_id hm hn hid ▸ hp⟩

/-! ## Each operation keeps kinds -/

/-- Node tables whose rows are rows of `c`, changed rows of `c` with their id and kind, or the
fresh row of `c`'s counter keep kinds. -/
theorem Tables.keepsKinds_of_rows (hs : c.serial ≤ c'.serial)
    (h : ∀ n' ∈ c'.nodes,
      (∃ n ∈ c.nodes, n.id = n'.id ∧ n.kind = n'.kind) ∨ n'.id = ⟨Uuid.ofSerial c.serial⟩) :
    c.KeepsKinds c' := by
  refine ⟨hs, fun n' hn' hm => ?_⟩
  rcases h n' hn' with h | h
  · exact h
  · exact absurd (h ▸ hm) Tables.not_minted_fresh

theorem Tables.keepsKinds_of_nodes_eq (hs : c.serial ≤ c'.serial) (hn : c'.nodes = c.nodes) :
    c.KeepsKinds c' :=
  Tables.keepsKinds_of_rows hs fun n' h => .inl ⟨n', hn ▸ h, rfl, rfl⟩

theorem Tables.keepsKinds_of_subset (hs : c.serial ≤ c'.serial) (hn : c'.nodes ⊆ c.nodes) :
    c.KeepsKinds c' :=
  Tables.keepsKinds_of_rows hs fun n' h => .inl ⟨n', hn h, rfl, rfl⟩

/-- Changing fields other than the id and the kind of the rows that match keeps kinds. -/
theorem Tables.keepsKinds_of_update {q : NodeRow → Bool} {g : NodeRow → NodeRow}
    (hs : c.serial ≤ c'.serial) (hn : c'.nodes = updateWhere q g c.nodes)
    (hg : ∀ n, (g n).id = n.id ∧ (g n).kind = n.kind) : c.KeepsKinds c' := by
  refine Tables.keepsKinds_of_rows hs fun n' h => .inl ?_
  rw [hn] at h
  exact forall_mem_updateWhere (P := fun n' => ∃ n ∈ c.nodes, n.id = n'.id ∧ n.kind = n'.kind)
    (fun n hn => ⟨n, hn, rfl, rfl⟩) (fun n hn _ => ⟨n, hn, (hg n).1.symm, (hg n).2.symm⟩) n' h

theorem Tables.keepsKinds_clearedBelow (node : NodeRow) : c.KeepsKinds (c.clearedBelow node) :=
  Tables.keepsKinds_of_subset (Nat.le_refl _) (List.filter_subset_self _)

theorem upsertNode_keepsKinds {i : NodeInput} {row : NodeRow}
    (h : upsertNode i c = .ok (row, c')) : c.KeepsKinds c' := by
  obtain ⟨parent, -, ⟨old, hfind, rfl, rfl⟩ | ⟨-, -, rfl, rfl⟩⟩ := upsertNode_ok h
  · -- a rewrite keeps the old row's id and kind
    have hold := List.mem_of_find?_eq_some hfind
    refine Tables.keepsKinds_of_rows (Nat.le_succ _) fun n' h => .inl ?_
    exact forall_mem_replaceWhere
      (P := fun n' => ∃ n ∈ c.nodes, n.id = n'.id ∧ n.kind = n'.kind)
      (fun n hn => ⟨n, hn, rfl, rfl⟩) (fun _ _ _ => ⟨old, hold, rfl, rfl⟩) n' h
  · refine Tables.keepsKinds_of_rows (Nat.le_succ _) fun n' h => ?_
    rcases List.mem_append.1 h with h | h
    · exact .inl ⟨n', h, rfl, rfl⟩
    · rw [List.mem_singleton] at h
      exact .inr (h ▸ rfl)

/-- Every successful store operation keeps kinds. -/
theorem StoreOp.run_keepsKinds (op : StoreOp) (h : op.run c = .ok c') : c.KeepsKinds c' := by
  cases op <;> simp only [StoreOp.run] at h <;> obtain ⟨_, h⟩ := Except.map_snd_eq_ok h
  case upsertResource i =>
    obtain ⟨hn, -, hs⟩ := upsertResource_frame h
    exact Tables.keepsKinds_of_nodes_eq hs hn
  case upsertNode i => exact upsertNode_keepsKinds h
  case upsertItem i =>
    obtain ⟨_, -, ⟨_, -, -, rfl⟩ | ⟨-, -, rfl⟩⟩ := upsertItem_ok h <;>
      exact Tables.keepsKinds_of_nodes_eq (Nat.le_succ _) rfl
  case deleteItem t node kind name =>
    obtain ⟨-, rfl⟩ := deleteItem_ok h
    exact Tables.keepsKinds_of_nodes_eq (Nat.le_refl _) rfl
  case deleteNodeItems t id =>
    obtain rfl := deleteNodeItems_ok h
    exact Tables.keepsKinds_of_nodes_eq (Nat.le_refl _) rfl
  case deleteSubtreeItems t id =>
    obtain ⟨_, -, rfl⟩ := deleteSubtreeItems_ok h
    exact Tables.keepsKinds_of_nodes_eq (Nat.le_refl _) rfl
  case deleteDescendantNodes t id =>
    obtain ⟨_, -, rfl⟩ := deleteDescendantNodes_ok h
    exact Tables.keepsKinds_of_subset (Nat.le_refl _) (List.filter_subset_self _)
  case clearSubtree t id =>
    obtain ⟨node, -, rfl⟩ := clearSubtree_ok h
    exact Tables.keepsKinds_clearedBelow node
  case retireNode t id =>
    obtain ⟨node, -, rfl⟩ := retireNode_ok h
    exact (Tables.keepsKinds_clearedBelow node).trans
      (Tables.keepsKinds_of_update (Nat.le_refl _) rfl fun _ => ⟨rfl, rfl⟩)
  case beginNodeScan t id =>
    obtain ⟨-, rfl⟩ := beginNodeScan_ok h
    exact Tables.keepsKinds_of_update (Nat.le_refl _) rfl fun _ => ⟨rfl, rfl⟩
  case finishNodeScan t id a =>
    obtain rfl := finishNodeScan_ok h
    exact Tables.keepsKinds_of_update (Nat.le_refl _) rfl fun _ => ⟨rfl, rfl⟩
  case failNodeScan t id e =>
    obtain rfl := failNodeScan_ok h
    exact Tables.keepsKinds_of_update (Nat.le_refl _) rfl fun _ => ⟨rfl, rfl⟩
  case setNodeAggregate t id a =>
    obtain rfl := setNodeAggregate_ok h
    exact Tables.keepsKinds_of_update (Nat.le_refl _) rfl fun _ => ⟨rfl, rfl⟩
  case createRun t e m ts =>
    obtain ⟨hn, -, hs⟩ := createRun_frame h
    exact Tables.keepsKinds_of_nodes_eq hs hn
  case finishRun t id st msg counts =>
    obtain ⟨hn, -, hs⟩ := finishRun_frame h
    exact Tables.keepsKinds_of_nodes_eq hs hn

/-! ## Runs of writes -/

/-- One write that `W` admits, made by a store operation on a well-formed catalog. -/
def Tables.WriteStep (W : StoreOp → Tables → Prop) (c c' : Tables) : Prop :=
  c.Wf ∧ ∃ op, W op c ∧ op.run c = .ok c'

/-- The catalogs reached from `c` by writes that `W` admits. -/
def Tables.Writes (W : StoreOp → Tables → Prop) : Tables → Tables → Prop :=
  Relation.ReflTransGen (Tables.WriteStep W)

instance (W : StoreOp → Tables → Prop) : IsPreorder Tables (Tables.Writes W) :=
  inferInstanceAs (IsPreorder Tables (Relation.ReflTransGen _))

variable {W : StoreOp → Tables → Prop}

/-- An invariant that every admitted write keeps holds after every run of them. -/
theorem Tables.Writes.keep {J : Tables → Prop}
    (hJ : ∀ op c c', W op c → c.Wf → J c → op.run c = .ok c' → J c') (h : c.Writes W c')
    (hc : J c) : J c' := by
  induction h with
  | refl => exact hc
  | tail _ hstep ih =>
    obtain ⟨hw, op, hop, hrun⟩ := hstep
    exact hJ op _ _ hop hw ih hrun

theorem Tables.Writes.wf (h : c.Writes W c') (hw : c.Wf) : c'.Wf :=
  h.keep (J := Tables.Wf) (fun op _ _ _ hw _ hrun => op.run_wf hw hrun) hw

theorem Tables.Writes.keepsKinds (h : c.Writes W c') : c.KeepsKinds c' := by
  induction h with
  | refl => exact Tables.KeepsKinds.refl _
  | tail _ hstep ih =>
    obtain ⟨-, op, -, hrun⟩ := hstep
    exact ih.trans (op.run_keepsKinds hrun)

/-- Writes admitted by `W` are admitted by any `W'` that admits more. -/
theorem Tables.Writes.mono {W' : StoreOp → Tables → Prop} (hW : ∀ op c, W op c → W' op c)
    (h : c.Writes W c') : c.Writes W' c' := by
  induction h with
  | refl => exact .refl
  | tail _ hstep ih =>
    obtain ⟨hw, op, hop, hrun⟩ := hstep
    exact .tail ih ⟨hw, op, hW op _ hop, hrun⟩

/-! ## Facts that runs of writes keep -/

/-- Every run of writes that `W` admits keeps `F`: a fact a scan learned of the catalog that
stays true whatever the others write. -/
def Tables.Kept (W : StoreOp → Tables → Prop) (F : Tables → Prop) : Prop :=
  ∀ c c', c.Writes W c' → F c → F c'

section Kept

variable {F G : Tables → Prop}

theorem Tables.kept_const (p : Prop) : Tables.Kept W fun _ => p := fun _ _ _ h => h

theorem Tables.Kept.and (h₁ : Tables.Kept W F) (h₂ : Tables.Kept W G) :
    Tables.Kept W fun c => F c ∧ G c :=
  fun c c' h ⟨hf, hg⟩ => ⟨h₁ c c' h hf, h₂ c c' h hg⟩

theorem Tables.Kept.imp (p : Prop) (h : Tables.Kept W F) : Tables.Kept W fun c => p → F c :=
  fun c c' h' hf hp => h c c' h' (hf hp)

theorem Tables.Kept.forall {ι : Type} {F : ι → Tables → Prop} (h : ∀ i, Tables.Kept W (F i)) :
    Tables.Kept W fun c => ∀ i, F i c :=
  fun c c' h' hf i => h i c c' h' (hf i)

/-- What an id was found to name stays so. -/
theorem Tables.kept_idKind (id : NodeId) (p : NodeKind → Prop) :
    Tables.Kept W fun c => c.IdKind id p :=
  fun _ _ h hk => hk.of_keepsKinds h.keepsKinds

end Kept

end DataCatalog.Catalog
