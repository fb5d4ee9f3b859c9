/-!
# Instants

An instant is a second since 1970-01-01T00:00:00Z on the proleptic Gregorian calendar and
the nanoseconds into it. Nanoseconds from `10 ^ 9` up mark a leap second: the instant then
lies in the 61st second of a minute, which the text writes as second `60`. Instants are
ordered by second, then nanosecond, so a leap second falls between its minute's second 59
and the next minute.

Instants are bounded by the calendar they are written in: the first is the start of year
-262143 and the last the end of year 262142.

Its text is RFC 3339 in UTC with a `Z`: the year has four digits, or a sign and at least four
digits outside 0 to 9999; the fraction of a second is left out when zero and otherwise written
with 3, 6 or 9 digits, the fewest that hold it exactly.
-/

namespace DataCatalog.Time

/-- A second since the epoch and the nanoseconds into it, a leap second's from `10 ^ 9`. -/
structure Instant where
  second : Int
  nano : Nat
deriving Repr, DecidableEq

/-- Nanoseconds in a second. -/
def nanosPerSecond : Nat := 1000000000

/-- Instants in time order. -/
def Instant.compare (a b : Instant) : Ordering :=
  match Ord.compare a.second b.second with
  | .eq => Ord.compare a.nano b.nano
  | o => o

instance : Ord Instant := ⟨Instant.compare⟩

/-- The instant `ms` milliseconds after the epoch, whatever its year. -/
def Instant.ofMillis (ms : Int) : Instant :=
  let s := ms.fdiv 1000
  ⟨s, (ms - s * 1000).toNat * 1000000⟩

/-- Whole milliseconds since the epoch; a leap second counts as a second longer. -/
def Instant.toMillis (t : Instant) : Int := t.second * 1000 + (t.nano / 1000000 : Nat)

/-- The later of two optional instants, an instant beating none. -/
def Instant.maxOpt : Option Instant → Option Instant → Option Instant
  | some a, some b => some (if Instant.compare a b = .lt then b else a)
  | some a, none => some a
  | none, b => b

/-- Year, month and day of a day count since the epoch. -/
def civilOfDays (days : Int) : Int × Nat × Nat :=
  let z := days + 719468
  let era := z.fdiv 146097
  let doe := z - era * 146097
  let yoe := (doe - doe.fdiv 1460 + doe.fdiv 36524 - doe.fdiv 146096).fdiv 365
  let doy := doe - (365 * yoe + yoe.fdiv 4 - yoe.fdiv 100)
  let mp := (5 * doy + 2).fdiv 153
  let d := doy - (153 * mp + 2).fdiv 5 + 1
  let m := if mp < 10 then mp + 3 else mp - 9
  let y := yoe + era * 400 + (if m ≤ 2 then 1 else 0)
  (y, m.toNat, d.toNat)

/-- Day count since the epoch of a calendar date. -/
def daysOfCivil (year : Int) (month day : Nat) : Int :=
  let y := if month ≤ 2 then year - 1 else year
  let era := y.fdiv 400
  let yoe := y - era * 400
  let m : Int := month
  let mp := if m > 2 then m - 3 else m + 9
  let doy := (153 * mp + 2).fdiv 5 + (day : Int) - 1
  let doe := yoe * 365 + yoe.fdiv 4 - yoe.fdiv 100 + doy
  era * 146097 + doe - 719468

/-- `n` in decimal, padded with zeros to `width` digits. -/
def padded (width n : Nat) : String :=
  let ds := Nat.toDigits 10 n
  String.ofList (List.replicate (width - ds.length) '0' ++ ds)

/-- A year as written in a date. -/
def yearText (y : Int) : String :=
  if 0 ≤ y ∧ y ≤ 9999 then padded 4 y.toNat
  else (if y < 0 then "-" else "+") ++ padded 4 y.natAbs

/-- The fraction of a second, with its point, in the fewest of 3, 6 or 9 digits. -/
def fractionText (nanos : Nat) : String :=
  if nanos = 0 then ""
  else if nanos % 1000000 = 0 then "." ++ padded 3 (nanos / 1000000)
  else if nanos % 1000 = 0 then "." ++ padded 6 (nanos / 1000)
  else "." ++ padded 9 nanos

/-- RFC 3339 text of an instant in UTC. -/
def Instant.rfc3339 (t : Instant) : String :=
  let days := t.second.fdiv 86400
  let rest := (t.second - days * 86400).toNat
  let (y, m, d) := civilOfDays days
  let (sec, sub) :=
    if t.nano ≥ nanosPerSecond then (rest % 60 + 1, t.nano - nanosPerSecond) else (rest % 60, t.nano)
  yearText y ++ "-" ++ padded 2 m ++ "-" ++ padded 2 d ++ "T" ++ padded 2 (rest / 3600) ++ ":" ++
    padded 2 (rest % 3600 / 60) ++ ":" ++ padded 2 sec ++ fractionText sub ++ "Z"

/-- The first year of the calendar of instants. -/
def firstYear : Int := -262143

/-- The last year of the calendar of instants. -/
def lastYear : Int := 262142

/-- Whether an instant lies within the years of the calendar. -/
def Instant.inRange (t : Instant) : Bool :=
  daysOfCivil firstYear 1 1 * 86400 ≤ t.second && t.second < daysOfCivil (lastYear + 1) 1 1 * 86400

/-- The instant `ms` milliseconds after the epoch, when it lies within the calendar. -/
def Instant.ofMillis? (ms : Int) : Option Instant :=
  let t := Instant.ofMillis ms
  if t.inRange then some t else none

/-- Days in a month of a year. -/
def monthLength (year : Int) (month : Nat) : Nat :=
  if month = 2 then
    if (year % 4 = 0 ∧ year % 100 ≠ 0) ∨ year % 400 = 0 then 29 else 28
  else if month = 4 ∨ month = 6 ∨ month = 9 ∨ month = 11 then 30 else 31

end DataCatalog.Time
