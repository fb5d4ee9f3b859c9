import Mathlib
import DataCatalog.Catalog.Rows
/-!
# Sorting rows and cutting them at a limit

Rows are sorted with a comparison of keys taken from a linear order. The sort is stable: rows of
equal keys keep the order they had. The first `n` rows of the sorted list are the first `n` rows
by key: some of the rows, as many as `n` allows, with no row of a smaller key left out.
-/

namespace DataCatalog.Catalog

section Keys

variable {α β : Type} [LinearOrder β] {key : α → β} {cmp : α → α → Ordering}

/-- Sorting with a comparison of keys orders the rows by key. -/
theorem sortOn_pairwise (hcmp : ∀ a b, cmp a b = compare (key a) (key b)) (xs : List α) :
    (sortOn cmp xs).Pairwise fun a b => key a ≤ key b := by
  have hle : ∀ a b, (cmp a b != .gt) = true ↔ key a ≤ key b := fun a b => by
    rw [hcmp, bne_iff_ne, compare_le_iff_le]
  refine (List.pairwise_mergeSort (fun a b c hab hbc => ?_) (fun a b => ?_) xs).imp
    fun h => (hle _ _).1 h
  · exact (hle a c).2 (le_trans ((hle a b).1 hab) ((hle b c).1 hbc))
  · rcases le_total (key a) (key b) with h | h
    · simp [(hle a b).2 h]
    · simp [(hle b a).2 h]

/-- Sorting is stable: the rows of one key keep their order. -/
theorem sortOn_filter_key (hcmp : ∀ a b, cmp a b = compare (key a) (key b)) (xs : List α)
    (v : β) : (sortOn cmp xs).filter (fun a => key a = v) = xs.filter (fun a => key a = v) := by
  have hle : ∀ a b, key a = key b → (cmp a b != .gt) = true := fun a b h => by
    rw [hcmp, bne_iff_ne, compare_le_iff_le, h]
  -- the rows of key `v` are sorted already, so the sort keeps them in order
  have hsub : (xs.filter (fun a => key a = v)).Sublist (sortOn cmp xs) := by
    refine List.sublist_mergeSort (fun a b c hab hbc => ?_) (fun a b => ?_) ?_ List.filter_sublist
    · rw [hcmp, bne_iff_ne, compare_le_iff_le] at hab hbc ⊢
      exact le_trans hab hbc
    · rcases le_total (key a) (key b) with h | h
      · simp [hcmp, compare_le_iff_le.2 h]
      · simp [hcmp, compare_le_iff_le.2 h]
    · refine List.pairwise_of_forall_mem_list fun a ha b hb => hle a b ?_
      simp only [List.mem_filter, decide_eq_true_eq] at ha hb
      rw [ha.2, hb.2]
  have hperm : (sortOn cmp xs).Perm xs := List.mergeSort_perm _ _
  refine (List.Sublist.eq_of_length ?_ (hperm.filter _).length_eq.symm).symm
  simpa using hsub.filter (fun a => decide (key a = v))

/-- `r` holds the first `n` rows of `m` by `key`: rows of `m`, as many as `n` allows, with no
row of `m` of a smaller key left out. Rows whose key ties at the cut may go either way. -/
structure FirstByKey (key : α → β) (n : Nat) (m r : List α) : Prop where
  subperm : r.Subperm m
  length : r.length = min n m.length
  first : ∀ x ∈ r, ∀ y ∈ m, key y < key x → y ∈ r

theorem FirstByKey.perm {n : Nat} {m r r' : List α} (h : FirstByKey key n m r) (hp : r.Perm r') :
    FirstByKey key n m r' :=
  ⟨hp.symm.subperm.trans h.subperm, hp.length_eq ▸ h.length,
    fun x hx y hy hlt => hp.mem_iff.1 (h.first x (hp.mem_iff.2 hx) y hy hlt)⟩

/-- The first `n` rows of a list sorted by key are its first `n` rows by key. -/
theorem firstByKey_takeLimit (hcmp : ∀ a b, cmp a b = compare (key a) (key b)) (n : Nat)
    (xs : List α) : FirstByKey key n xs (takeLimit n (sortOn cmp xs)) := by
  have hperm : (sortOn cmp xs).Perm xs := List.mergeSort_perm _ _
  refine ⟨(List.take_sublist _ _).subperm.trans hperm.subperm,
    by simp [takeLimit, hperm.length_eq], fun x hx y hy hlt => ?_⟩
  by_contra hy'
  -- a row left out lies past the cut, where no row has a smaller key than one before it
  have hsorted := sortOn_pairwise hcmp xs
  rw [← List.take_append_drop n (sortOn cmp xs), List.pairwise_append] at hsorted
  have hdrop : y ∈ (sortOn cmp xs).drop n := by
    have hy₁ := hperm.mem_iff.2 hy
    rw [← List.take_append_drop n (sortOn cmp xs), List.mem_append] at hy₁
    exact hy₁.resolve_left hy'
  exact absurd hlt (not_lt.2 (hsorted.2.2 x hx y hdrop))

end Keys

end DataCatalog.Catalog
