import Mathlib
import DataCatalog.Word
/-!
# Word arithmetic

A word is the residue of an integer modulo `2 ^ 64` in `[-2 ^ 63, 2 ^ 63)`. Wrapping is
idempotent, ignores wrapping of the summands, and leaves a value that fits alone; a checked
sum that succeeds is the exact sum, and it fits.
-/

namespace DataCatalog.Word

theorem half_modulus : Int.pow 2 63 = 9223372036854775808 := by decide

theorem modulus : ((Nat.pow 2 64 : Nat) : Int) = 18446744073709551616 := by decide

theorem wrap_of_fits {x : Int} (h : fits x = true) : wrap x = x := by
  simp only [fits, least, bound, half_modulus, Bool.and_eq_true] at h
  have lo := of_decide_eq_true h.1
  have hi := of_decide_eq_true h.2
  unfold wrap
  apply Int.bmod_eq_of_le <;> rw [modulus] <;> omega

@[simp] theorem wrap_wrap (x : Int) : wrap (wrap x) = wrap x := Int.bmod_bmod

@[simp] theorem wrap_add_wrap_left (x y : Int) : wrap (wrap x + y) = wrap (x + y) :=
  Int.bmod_add_bmod

@[simp] theorem wrap_add_wrap_right (x y : Int) : wrap (x + wrap y) = wrap (x + y) :=
  Int.add_bmod_bmod

/-- Wrapping the summands first gives the same word. -/
theorem wrap_sum_map_wrap (xs : List Int) : wrap (xs.map wrap).sum = wrap xs.sum := by
  induction xs with
  | nil => rfl
  | cons x xs ih =>
    simp only [List.map_cons, List.sum_cons]
    rw [← wrap_add_wrap_right, ih, wrap_add_wrap_right, wrap_add_wrap_left]

/-- Wrapping the terms of a sum first gives the same word. -/
theorem wrap_sum_map_wrap_add {α : Type} (f : α → Int) (l : List α) (k : Int) :
    wrap ((l.map fun x => wrap (f x)).sum + k) = wrap ((l.map f).sum + k) := by
  have : (l.map fun x => wrap (f x)) = (l.map f).map wrap := by simp [Function.comp_def]
  rw [← wrap_add_wrap_left, this, wrap_sum_map_wrap, wrap_add_wrap_left]

theorem fits_zero : fits 0 = true := by decide

/-- A checked sum that succeeds is the exact sum, and it fits. -/
theorem checkedSum?_eq_some {acc s : Int} {xs : List Int} (hacc : fits acc = true)
    (h : checkedSum? acc xs = some s) : s = acc + xs.sum ∧ fits s = true := by
  induction xs generalizing acc with
  | nil =>
    simp only [checkedSum?, Option.some.injEq] at h
    subst h
    exact ⟨by simp, hacc⟩
  | cons x xs ih =>
    simp only [checkedSum?] at h
    split at h
    · obtain ⟨hs, hfit⟩ := ih ‹_› h
      exact ⟨by rw [hs, List.sum_cons]; ring, hfit⟩
    · cases h

end DataCatalog.Word
