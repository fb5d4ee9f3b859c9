/-!
# Double-precision values read from decimal text

A finite double is a sign and a value `mantissa · 2 ^ exponent` in canonical form: a normal
value has `2 ^ 52 ≤ mantissa < 2 ^ 53` and `-1074 ≤ exponent ≤ 971`, a subnormal value or
zero has exponent `-1074` and a smaller mantissa. Reading a decimal `digits · 10 ^ exp10`
picks the nearest double, a tie going to the even mantissa; a value at or beyond `2 ^ 1024`
after rounding has no double.
-/

namespace DataCatalog.Decimal

/-- A finite double as a sign and `mantissa · 2 ^ exponent`. -/
structure Binary64 where
  negative : Bool
  mantissa : Nat
  exponent : Int
deriving Repr, DecidableEq

/-- The least exponent of a double. -/
def minExponent : Int := -1074

/-- The greatest exponent of a finite double. -/
def maxExponent : Int := 971

/-- `num / den` rounded to the nearest integer, a tie going to the even one. -/
def roundHalfEven (num den : Nat) : Nat :=
  let q := num / den
  let r := num % den
  if 2 * r > den then q + 1
  else if 2 * r = den ∧ q % 2 = 1 then q + 1
  else q

/-- `num / den` with `num / den < 2 ^ e` as a comparison of naturals, for any integer `e`. -/
def belowPow2 (num den : Nat) (e : Int) : Bool :=
  if 0 ≤ e then num < den * Nat.pow 2 e.toNat else num * Nat.pow 2 (-e).toNat < den

/-- The integer `e` with `2 ^ e ≤ num / den < 2 ^ (e + 1)`, for `num, den > 0`. -/
def log2Ratio (num den : Nat) : Int :=
  let guess : Int := (num.log2 : Int) - den.log2
  if belowPow2 num den guess then guess - 1 else guess

/-- `num / (den · 2 ^ q)` rounded half to even. -/
def scaledRound (num den : Nat) (q : Int) : Nat :=
  if 0 ≤ q then roundHalfEven num (den * Nat.pow 2 q.toNat)
  else roundHalfEven (num * Nat.pow 2 (-q).toNat) den

/-- The nearest double to `num / den` with the given sign, or `none` past the largest double. -/
def ofRatio (negative : Bool) (num den : Nat) : Option Binary64 :=
  if num = 0 then some ⟨negative, 0, minExponent⟩
  else
    let q := max (log2Ratio num den - 52) minExponent
    let m := scaledRound num den q
    let (m, q) := if m = Nat.pow 2 53 then (Nat.pow 2 52, q + 1) else (m, q)
    if q > maxExponent then none
    else if m = 0 then some ⟨negative, 0, minExponent⟩
    else some ⟨negative, m, q⟩

/-- Number of decimal digits of a natural number (one for zero). -/
def decimalLength (n : Nat) : Nat := (Nat.toDigits 10 n).length

/-- The nearest double to `digits · 10 ^ exp10`. Values far below the least subnormal are
zero without computing powers; values far above the largest double have none. -/
def ofDecimal (negative : Bool) (digits : Nat) (exp10 : Int) : Option Binary64 :=
  if digits = 0 then some ⟨negative, 0, minExponent⟩
  else
    let magnitude := (decimalLength digits : Int) + exp10
    if magnitude > 310 then none
    else if magnitude < -345 then some ⟨negative, 0, minExponent⟩
    else if 0 ≤ exp10 then ofRatio negative (digits * Nat.pow 10 exp10.toNat) 1
    else ofRatio negative digits (Nat.pow 10 (-exp10).toNat)

/-- The double of a natural number too large for an unsigned word. -/
def ofNat (negative : Bool) (n : Nat) : Option Binary64 := ofDecimal negative n 0

example : ofDecimal false 1 0 = some ⟨false, 2 ^ 52, -52⟩ := by decide
example : ofDecimal false 5 (-1) = some ⟨false, 2 ^ 52, -53⟩ := by decide

end DataCatalog.Decimal
