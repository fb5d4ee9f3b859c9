import DataCatalog.Ident.Uuid
/-!
# Minted identifiers

The catalog mints the id of serial `n` as a fixed UUID layout whose last group is `n` in
lowercase hexadecimal, padded to twelve digits. Reading the last group back in base sixteen
gives `n` again, so distinct serials give distinct ids; and no minted id holds a `/`, which is
what lets a node path be cut back into the ids along it.
-/

namespace DataCatalog.Ident

/-- The value of a lowercase hexadecimal digit. -/
def hexDigitValue (c : Char) : Nat := if c.isDigit then c.toNat - 48 else c.toNat - 87

/-- The value of a list of hexadecimal digits, most significant first, after `acc`. -/
def hexValue (acc : Nat) (cs : List Char) : Nat :=
  cs.foldl (fun v c => 16 * v + hexDigitValue c) acc

theorem hexDigitValue_digitChar {d : Nat} (hd : d < 16) : hexDigitValue d.digitChar = d := by
  have table : ∀ e : Fin 16, hexDigitValue (e : Nat).digitChar = e := by decide
  exact table ⟨d, hd⟩

theorem hexValue_append (acc : Nat) (xs ys : List Char) :
    hexValue acc (xs ++ ys) = hexValue (hexValue acc xs) ys := by
  simp [hexValue, List.foldl_append]

theorem hexValue_zeros (k : Nat) (cs : List Char) :
    hexValue 0 (List.replicate k '0' ++ cs) = hexValue 0 cs := by
  rw [hexValue_append]
  congr 1
  induction k with
  | zero => rfl
  | succ k ih =>
    rw [List.replicate_succ', hexValue_append, ih]
    rfl

theorem hexValue_toDigits (n : Nat) : hexValue 0 (Nat.toDigits 16 n) = n := by
  induction n using Nat.base_induction 16 (by decide) with
  | single m hm =>
    rw [Nat.toDigits_of_lt_base hm]
    simp [hexValue, hexDigitValue_digitChar hm]
  | digit m k hk hm ih =>
    rw [← Nat.toDigits_append_toDigits (by decide) hm hk, hexValue_append, ih,
      Nat.toDigits_of_lt_base hk]
    simp [hexValue, hexDigitValue_digitChar hk]

theorem hexPadded_injective (width : Nat) : Function.Injective (hexPadded width) := by
  intro n m h
  have hl := congrArg String.toList h
  simp only [hexPadded, String.toList_ofList] at hl
  have hv := congrArg (hexValue 0) hl
  rwa [hexValue_zeros, hexValue_zeros, hexValue_toDigits, hexValue_toDigits] at hv

theorem ofSerial_injective : Function.Injective Uuid.ofSerial := by
  intro n m h
  -- the literal prefix is cancelled without being evaluated
  have hl := congrArg String.toList h
  unfold Uuid.ofSerial at hl
  rw [String.toList_append, String.toList_append] at hl
  exact hexPadded_injective 12 (String.toList_inj.mp (List.append_cancel_left hl))

theorem slash_not_mem_toDigits (n : Nat) : '/' ∉ Nat.toDigits 16 n := by
  induction n using Nat.base_induction 16 (by decide) with
  | single m hm =>
    rw [Nat.toDigits_of_lt_base hm]
    simp
  | digit m k hk hm ih =>
    rw [← Nat.toDigits_append_toDigits (by decide) hm hk, Nat.toDigits_of_lt_base hk]
    simp [ih]

theorem slash_not_mem_ofSerial (n : Nat) : '/' ∉ (Uuid.ofSerial n).toList := by
  unfold Uuid.ofSerial
  rw [String.toList_append, List.mem_append]
  rintro (h | h)
  · revert h; decide
  · rw [hexPadded, String.toList_ofList, List.mem_append, List.mem_replicate] at h
    rcases h with ⟨-, h⟩ | h
    · exact absurd h (by decide)
    · exact slash_not_mem_toDigits n h

end DataCatalog.Ident
