/-!
# Signed 64-bit words

Sizes and counts are signed 64-bit words, in `[-2 ^ 63, 2 ^ 63)`. Two sums are taken over
them. A wrapping sum keeps the residue of the exact sum modulo `2 ^ 64` in that range, as
machine addition does; wrapping every partial sum or only the total gives the same word, since
both are residues of one integer. A checked sum adds in order and fails as soon as a partial
sum leaves the range, as a database aggregate does, so it depends on the order of its terms.
Column positions are signed 32-bit words; a wider integer narrows to its residue modulo `2 ^ 32`.
-/

namespace DataCatalog.Word

/-- The least signed word. -/
def least : Int := -(Int.pow 2 63)

/-- One more than the greatest signed word. -/
def bound : Int := Int.pow 2 63

/-- Whether an integer is a signed word. -/
def fits (x : Int) : Bool := least ≤ x && x < bound

/-- The signed word congruent to `x` modulo `2 ^ 64`. -/
def wrap (x : Int) : Int := Int.bmod x (Nat.pow 2 64)

/-- The signed 32-bit word congruent to `x` modulo `2 ^ 32`, as narrowing a wider integer keeps
it. -/
def wrap32 (x : Int) : Int := Int.bmod x (Nat.pow 2 32)

/-- The sum of words as machine addition computes it. -/
def wrappingSum (xs : List Int) : Int := wrap (xs.foldr (· + ·) 0)

/-- The sum of words added in order from `acc`, or `none` once a partial sum overflows. -/
def checkedSum? (acc : Int) : List Int → Option Int
  | [] => some acc
  | x :: xs => if fits (acc + x) then checkedSum? (acc + x) xs else none

example : wrap (2 ^ 63) = least := by decide
example : wrap32 (-(2 ^ 31) - 1) = 2 ^ 31 - 1 := by decide
example : checkedSum? 0 [bound - 1, 1, -1] = none := by decide

end DataCatalog.Word
