import Mathlib
import DataCatalog.Storage.Connector
/-!
# Tables sorted by name

A walk tallies its directories, and browsing its prefixes, in a list sorted by name: each object
updates the entry of its name, or puts a fresh entry where the name belongs. Folding such updates
over a list of contributions leaves the table strictly sorted, with one entry for each name that
some contribution carries, holding the contributions of that name folded in list order.
-/

namespace DataCatalog.Storage

section Upsert

variable {E α : Type} (key : E → String)

/-- Updates the entry of key `k` of a table sorted by key, or puts `fresh` where `k` belongs. -/
def upsertSorted (k : String) (fresh : E) (upd : E → E) : List E → List E
  | [] => [fresh]
  | e :: es =>
    if k = key e then upd e :: es
    else if k < key e then fresh :: e :: es
    else e :: upsertSorted k fresh upd es

/-- The entry of key `k`, if any. -/
def entryAt (T : List E) (k : String) : Option E := T.find? fun e => key e = k

variable {key}

theorem mem_keys_iff_entryAt {T : List E} {k : String} :
    k ∈ T.map key ↔ (entryAt key T k).isSome := by
  simp [entryAt]

/-- In a strictly sorted table every entry is the entry of its key. -/
theorem entryAt_of_mem : ∀ {T : List E}, T.Pairwise (key · < key ·) → ∀ {e : E}, e ∈ T →
    entryAt key T (key e) = some e
  | [], _, _, he => absurd he List.not_mem_nil
  | e' :: es, hs, e, he => by
    rw [List.pairwise_cons] at hs
    rcases List.mem_cons.1 he with rfl | he
    · simp [entryAt]
    · have hne : decide (key e' = key e) = false := by simpa using (hs.1 e he).ne
      simp only [entryAt, List.find?_cons, hne]
      exact entryAt_of_mem hs.2 he

/-- A key below every key of a sorted table has no entry. -/
theorem entryAt_of_lt {T : List E} {k : String} (h : ∀ e ∈ T, k < key e) : entryAt key T k = none := by
  rw [entryAt, List.find?_eq_none]
  intro e he hk
  have hek : key e = k := by simpa using hk
  exact (h e he).ne hek.symm

variable {k : String} {fresh : E} {upd : E → E}

theorem mem_upsertSorted {x : E} : ∀ {T : List E}, x ∈ upsertSorted key k fresh upd T →
    x = fresh ∨ (∃ e ∈ T, x = upd e) ∨ x ∈ T
  | [], h => .inl (List.mem_singleton.1 h)
  | e :: es, h => by
    unfold upsertSorted at h
    split at h
    · rcases List.mem_cons.1 h with rfl | h
      · exact .inr (.inl ⟨e, List.mem_cons_self, rfl⟩)
      · exact .inr (.inr (List.mem_cons_of_mem _ h))
    split at h
    · rcases List.mem_cons.1 h with rfl | h
      · exact .inl rfl
      · exact .inr (.inr h)
    rcases List.mem_cons.1 h with rfl | h
    · exact .inr (.inr List.mem_cons_self)
    · rcases mem_upsertSorted h with h | ⟨e', he', rfl⟩ | h
      · exact .inl h
      · exact .inr (.inl ⟨e', List.mem_cons_of_mem _ he', rfl⟩)
      · exact .inr (.inr (List.mem_cons_of_mem _ h))

section Keys

variable (hf : key fresh = k) (hu : ∀ e, key (upd e) = key e)
include hf hu

/-- An update keeps the table strictly sorted. -/
theorem sorted_upsertSorted : ∀ {T : List E}, T.Pairwise (key · < key ·) →
    (upsertSorted key k fresh upd T).Pairwise (key · < key ·)
  | [], _ => List.pairwise_singleton _ _
  | e :: es, hs => by
    rw [List.pairwise_cons] at hs
    unfold upsertSorted
    split
    · rename_i hk
      exact List.pairwise_cons.2 ⟨fun x hx => (hu e).symm ▸ hs.1 x hx, hs.2⟩
    split
    · rename_i _ hlt
      refine List.pairwise_cons.2 ⟨fun x hx => ?_, List.pairwise_cons.2 hs⟩
      rw [hf]
      rcases List.mem_cons.1 hx with rfl | hx
      · exact hlt
      · exact hlt.trans (hs.1 x hx)
    · rename_i hne hnlt
      have hgt : key e < k := lt_of_le_of_ne (not_lt.1 hnlt) (Ne.symm hne)
      refine List.pairwise_cons.2 ⟨fun x hx => ?_, sorted_upsertSorted hs.2⟩
      rcases mem_upsertSorted hx with rfl | ⟨e', he', rfl⟩ | hx
      · rwa [hf]
      · rw [hu]
        exact hs.1 e' he'
      · exact hs.1 x hx

/-- The entry of `k` after an update is the old entry updated, or the fresh one; the entries of
other keys stay. -/
theorem entryAt_upsertSorted : ∀ {T : List E}, T.Pairwise (key · < key ·) → ∀ k' : String,
    entryAt key (upsertSorted key k fresh upd T) k' =
      if k' = k then some ((entryAt key T k).elim fresh upd) else entryAt key T k'
  | [], _, k' => by
    by_cases hk : k' = k <;> simp [upsertSorted, entryAt, hf, hk, eq_comm]
  | e :: es, hs, k' => by
    rw [List.pairwise_cons] at hs
    unfold upsertSorted
    split
    · rename_i hk
      by_cases hk' : k' = k
      · simp [entryAt, hk', hk, hu]
      · have hd : decide (key e = k') = false :=
          decide_eq_false fun h => hk' (h.symm.trans hk.symm)
        rw [if_neg hk']
        simp only [entryAt, List.find?_cons, hu, hd]
    split
    · rename_i hne hlt
      -- `k` sorts before every key of the table, so the table has no entry for it
      have hnone : entryAt key (e :: es) k = none := entryAt_of_lt fun x hx => by
        rcases List.mem_cons.1 hx with rfl | hx
        · exact hlt
        · exact hlt.trans (hs.1 x hx)
      by_cases hk' : k' = k
      · subst hk'
        rw [if_pos rfl, hnone]
        simp [entryAt, hf]
      · have : key fresh ≠ k' := fun h => hk' (h.symm.trans hf)
        simp [entryAt, hk', this]
    · rename_i hne hnlt
      have ih := entryAt_upsertSorted hs.2 k'
      by_cases he : key e = k'
      · have hk' : k' ≠ k := fun h => hne (h ▸ he.symm)
        simp [entryAt, he, hk']
      · have hek : ¬ key e = k := fun h => hne h.symm
        simp only [entryAt, List.find?_cons, he, hek, decide_false] at ih ⊢
        exact ih

end Keys

section Fold

variable (keyOf : α → String) (fresh : α → E) (upd : α → E → E)

/-- The entry that the contributions `xs` of one key leave, starting from the entry `o`. -/
def foldEntry (o : Option E) (xs : List α) : Option E :=
  xs.foldl (fun o x => some (o.elim (fresh x) (upd x))) o

variable {keyOf fresh upd}
variable (hf : ∀ x, key (fresh x) = keyOf x) (hu : ∀ x e, key (upd x e) = key e)
include hf hu

/-- Folding updates over contributions keeps the table strictly sorted and gives each key the
entry of its contributions, in list order. -/
theorem foldl_upsertSorted : ∀ (xs : List α) {T : List E}, T.Pairwise (key · < key ·) →
    (xs.foldl (fun T x => upsertSorted key (keyOf x) (fresh x) (upd x) T) T).Pairwise
      (key · < key ·) ∧
    ∀ k, entryAt key (xs.foldl (fun T x => upsertSorted key (keyOf x) (fresh x) (upd x) T) T) k =
      foldEntry fresh upd (entryAt key T k) (xs.filter (keyOf · = k))
  | [], _, hs => ⟨hs, fun _ => rfl⟩
  | x :: xs, T, hs => by
    obtain ⟨hs', hk'⟩ := foldl_upsertSorted xs (sorted_upsertSorted (hf x) (hu x) hs)
    refine ⟨hs', fun k => ?_⟩
    rw [List.foldl_cons, hk', entryAt_upsertSorted (hf x) (hu x) hs, List.filter_cons]
    by_cases hk : k = keyOf x
    · simp [hk, foldEntry]
    · have : ¬ keyOf x = k := fun h => hk h.symm
      simp [hk, this]

end Fold

end Upsert

end DataCatalog.Storage
