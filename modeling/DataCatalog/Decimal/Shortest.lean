import DataCatalog.Decimal.Binary64
/-!
# Shortest decimal text of a double

A double is written with the fewest significant digits that read back to it: the digits
`d` and exponent `k` of `d · 10 ^ k` are chosen so that `d · 10 ^ k` lies in the interval of
reals that round to the double (ends included when the mantissa is even), `d` has as few
digits as possible, and among those it is nearest to the value, a tie going to the even
digit string.

The layout writes a point: positional when the decimal exponent of the leading digit lies
between -5 (exclusive) and 16 (inclusive) counted as `length + k`, keeping `.0` after a
whole number; otherwise a mantissa and `e` with an exponent that always carries its sign and
has no leading zeros (`1e+16`, `1.5e-7`).
-/

namespace DataCatalog.Decimal

/-- A positive rational `num / den`. -/
structure Ratio where
  num : Nat
  den : Nat

/-- `a ≤ b` for rationals with positive denominators. -/
def Ratio.le (a b : Ratio) : Bool := a.num * b.den ≤ b.num * a.den

/-- `a < b` for rationals with positive denominators. -/
def Ratio.lt (a b : Ratio) : Bool := a.num * b.den < b.num * a.den

/-- `x · 2 ^ q / 4` as a ratio. -/
def quarterScaled (x : Nat) (q : Int) : Ratio :=
  if 0 ≤ q then ⟨x * Nat.pow 2 q.toNat, 4⟩ else ⟨x, 4 * Nat.pow 2 (-q).toNat⟩

/-- `d · 10 ^ k` as a ratio. -/
def decimalRatio (d : Nat) (k : Int) : Ratio :=
  if 0 ≤ k then ⟨d * Nat.pow 10 k.toNat, 1⟩ else ⟨d, Nat.pow 10 (-k).toNat⟩

/-- The integer `e` with `10 ^ e ≤ r < 10 ^ (e + 1)`, for a positive ratio. -/
def log10Ratio (r : Ratio) : Int :=
  let guess : Int := (decimalLength r.num : Int) - decimalLength r.den
  -- the true exponent is `guess` or `guess - 1`
  if (decimalRatio 1 guess).le r then guess else guess - 1

/-- `⌈r / 10 ^ k⌉`. -/
def ceilDiv (r : Ratio) (k : Int) : Nat :=
  let s := decimalRatio 1 k
  let num := r.num * s.den
  let den := r.den * s.num
  (num + den - 1) / den

/-- `⌊r / 10 ^ k⌋`. -/
def floorDiv (r : Ratio) (k : Int) : Nat :=
  let s := decimalRatio 1 k
  (r.num * s.den) / (r.den * s.num)

/-- Drops trailing zero digits, raising the exponent. -/
def stripZeros (d : Nat) (k : Int) : Nat → Nat × Int
  | 0 => (d, k)
  | fuel + 1 => if d ≠ 0 ∧ d % 10 = 0 then stripZeros (d / 10) (k + 1) fuel else (d, k)

/-- Digits `d` and exponent `k` with `d · 10 ^ k` the shortest nearest decimal in the
rounding interval of the positive double `m · 2 ^ q`. -/
def shortestDigits (m : Nat) (q : Int) : Nat × Int :=
  let lowerHalfGap := m = Nat.pow 2 52 ∧ q > minExponent
  let value := quarterScaled (4 * m) q
  let low := quarterScaled (if lowerHalfGap then 4 * m - 1 else 4 * m - 2) q
  let high := quarterScaled (4 * m + 2) q
  let inclusive := m % 2 = 0
  let e10 := log10Ratio value
  let rec search : Nat → Nat → Nat × Int
    | 0, _ => (m, q)
    | fuel + 1, n =>
      let k := e10 - n + 1
      let lo0 := ceilDiv low k
      let lo := if !inclusive && (decimalRatio lo0 k).le low then lo0 + 1 else lo0
      let hi0 := floorDiv high k
      let hi := if !inclusive && high.le (decimalRatio hi0 k) then hi0 - 1 else hi0
      if lo ≤ hi ∧ (lo ≠ 0 ∨ hi ≠ 0) then
        let s := decimalRatio 1 k
        let near := roundHalfEven (value.num * s.den) (value.den * s.num)
        let d := if near < lo then lo else if near > hi then hi else near
        stripZeros d k 20
      else search fuel (n + 1)
  search 17 1

/-- Decimal digits of a natural number as text. -/
def digitText (n : Nat) : String := String.ofList (Nat.toDigits 10 n)

/-- An integer as decimal text with a leading `-` when negative. -/
def intText (i : Int) : String :=
  if i < 0 then "-" ++ digitText i.natAbs else digitText i.natAbs

/-- An exponent with its sign always written. -/
def exponentText (e : Int) : String :=
  if e < 0 then "-" ++ digitText e.natAbs else "+" ++ digitText e.natAbs

/-- The layout of digits `ds` (as text) times `10 ^ k`. -/
def layout (ds : String) (k : Int) : String :=
  let len : Int := ds.length
  let kk := len + k
  let zeros (n : Nat) : String := String.ofList (List.replicate n '0')
  if 0 ≤ k ∧ kk ≤ 16 then ds ++ zeros k.toNat ++ ".0"
  else if 0 < kk ∧ kk ≤ 16 then
    String.ofList (ds.toList.take kk.toNat) ++ "." ++ String.ofList (ds.toList.drop kk.toNat)
  else if -5 < kk ∧ kk ≤ 0 then "0." ++ zeros (-kk).toNat ++ ds
  else if ds.length = 1 then ds ++ "e" ++ exponentText (kk - 1)
  else
    String.ofList (ds.toList.take 1) ++ "." ++ String.ofList (ds.toList.drop 1) ++ "e" ++
      exponentText (kk - 1)

/-- Positional text of the digits `ds` times `10 ^ k`, never with an exponent, and with a
decimal point always. -/
def plainLayout (ds : String) (k : Int) : String :=
  let kk := (ds.length : Int) + k
  let zeros (n : Nat) : String := String.ofList (List.replicate n '0')
  if 0 ≤ k then ds ++ zeros k.toNat ++ ".0"
  else if 0 < kk then
    String.ofList (ds.toList.take kk.toNat) ++ "." ++ String.ofList (ds.toList.drop kk.toNat)
  else "0." ++ zeros (-kk).toNat ++ ds

/-- The shortest digits of a double written out positionally. -/
def Binary64.plainText (x : Binary64) : String :=
  let sign := if x.negative then "-" else ""
  if x.mantissa = 0 then sign ++ "0.0"
  else
    let (d, k) := shortestDigits x.mantissa x.exponent
    sign ++ plainLayout (digitText d) k

/-- The shortest decimal text of a double. -/
def Binary64.toText (x : Binary64) : String :=
  let sign := if x.negative then "-" else ""
  if x.mantissa = 0 then sign ++ "0.0"
  else
    let (d, k) := shortestDigits x.mantissa x.exponent
    sign ++ layout (digitText d) k

end DataCatalog.Decimal
