import DataCatalog.Decimal.Binary64
/-!
# Reading a decimal by scaling one word

A fast reading of decimal text keeps at most one unsigned 64-bit word of significant digits,
turns that word into the nearest double, and scales it by one power of ten taken from a table
of the doubles nearest to `10 ^ 0`, …, `10 ^ 308`: a product for a non-negative exponent, a
quotient for a negative one, each rounded to nearest with ties to even. An exponent below
`-308` first divides by `10 ^ 308` until it is in the table or the value is zero; a product
that rounds past the largest double, or an exponent above `308` with a non-zero value, is out
of range.

Every step rounds, so the result may lie one unit in the last place from the double nearest
to the decimal: `44501477170144023 · 10 ^ -324` reads as `2 ^ -1021`, one unit above the
double nearest to it.
-/

namespace DataCatalog.Decimal

/-- The value `m · 2 ^ q` of a double's magnitude as a numerator and a denominator. -/
def Binary64.ratio (x : Binary64) : Nat × Nat :=
  if 0 ≤ x.exponent then (x.mantissa * Nat.pow 2 x.exponent.toNat, 1)
  else (x.mantissa, Nat.pow 2 (-x.exponent).toNat)

/-- The product of two doubles rounded to the nearest double, a tie going to the even
mantissa; `none` when it rounds past the largest double. -/
def Binary64.mul (x y : Binary64) : Option Binary64 :=
  let (a, b) := x.ratio
  let (c, d) := y.ratio
  ofRatio (x.negative != y.negative) (a * c) (b * d)

/-- The quotient of two doubles, for a non-zero divisor, rounded like `Binary64.mul`. -/
def Binary64.div (x y : Binary64) : Option Binary64 :=
  let (a, b) := x.ratio
  let (c, d) := y.ratio
  ofRatio (x.negative != y.negative) (a * d) (b * c)

/-- The largest exponent of the table of powers of ten. -/
def tableLimit : Nat := 308

/-- The double nearest to `10 ^ k`; every `k` up to `tableLimit` has one. -/
def tenPower (k : Nat) : Binary64 := (ofDecimal false 1 k).getD ⟨false, 1, 0⟩

/-- Scales `x` by `10 ^ e` as the reading does. `fuel` bounds the divisions by `10 ^ 308`:
a word is below `2 ^ 64`, so two of them bring it to zero and three always suffice. -/
def scaleByTen (x : Binary64) (e : Int) : Nat → Option Binary64
  | 0 => some x
  | fuel + 1 =>
    if e.natAbs ≤ tableLimit then
      if 0 ≤ e then x.mul (tenPower e.natAbs) else x.div (tenPower e.natAbs)
    else if x.mantissa = 0 then some x
    else if 0 ≤ e then none
    else
      match x.div (tenPower tableLimit) with
      | some y => scaleByTen y (e + tableLimit) fuel
      | none => none

/-- The double read from the word `w` of significant digits and the exponent `e`, with the
given sign; `none` when it is out of range. -/
def ofScaledWord (negative : Bool) (w : Nat) (e : Int) : Option Binary64 :=
  match ofRatio false w 1 with
  | none => none
  | some x =>
    match scaleByTen x e 4 with
    | some y => some ⟨negative, y.mantissa, y.exponent⟩
    | none => none

example : ofScaledWord false 15 (-1) = some ⟨false, 3 * 2 ^ 51, -52⟩ := by decide

end DataCatalog.Decimal
