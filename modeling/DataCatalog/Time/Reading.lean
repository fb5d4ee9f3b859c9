import DataCatalog.Time.Instant
import DataCatalog.Text.Blank
/-!
# Reading date-time text

The reader accepts a relaxed RFC 3339: a date `year-month-day`, the letter `T` (either case)
or a space, a time `hour:minute:second` with an optional fraction after a point, and an offset
that is `Z` (either case), `UTC` (any case) or a sign and `hh:mm`. Blanks may stand before
each number, before each `-` and `:` of the date and time, before the offset and at the end.

A year has one to four digits, or a sign and any number of digits; the other fields have one
or two digits, the fraction one to nine significant ones (further digits are dropped). The
offset's sign may also be the minus sign U+2212, and its hours and minutes may be separated
by any run of colons and blanks.

The first fault met is reported, in reading order; then trailing text; then a date that is not
on the calendar or an offset of a day or more; last an instant that the offset moves off the
calendar. Second 60 is a leap second.
-/

namespace DataCatalog.Time

/-- Why a date-time text could not be read. -/
inductive TimeFault where
  | outOfRange
  | impossible
  | invalid
  | tooShort
  | tooLong
deriving Repr, DecidableEq

/-- The text of a fault. -/
def TimeFault.message : TimeFault → String
  | .outOfRange => "input is out of range"
  | .impossible => "no possible date and time matching input"
  | .invalid => "input contains invalid characters"
  | .tooShort => "premature end of input"
  | .tooLong => "trailing input"

/-- The largest number a field may hold while it is read: a signed 64-bit word. -/
def fieldLimit : Nat := Nat.pow 2 63 - 1

/-- Whether a character is an ASCII digit. -/
def isDigitChar (c : Char) : Bool := '0' ≤ c && c ≤ '9'

/-- The number written by decimal digits. -/
def digitsNumber (ds : List Char) : Nat := ds.foldl (fun n c => n * 10 + (c.toNat - 48)) 0

/-- Reads one to `most` leading digits: none at all is a fault, an empty text being too
short; a number beyond a signed word is out of range. Also gives how many digits it read. -/
def readDigits (most : Nat) (cs : List Char) : Except TimeFault (Nat × Nat × List Char) :=
  let ds := (cs.take most).takeWhile isDigitChar
  if cs.isEmpty then .error .tooShort
  else if ds.isEmpty then .error .invalid
  else if digitsNumber ds > fieldLimit then .error .outOfRange
  else .ok (digitsNumber ds, ds.length, cs.drop ds.length)

/-- Reads a field of one to `most` digits after blanks, that must lie in `[lo, hi]`. -/
def readField (most lo hi : Nat) (cs : List Char) : Except TimeFault (Nat × List Char) := do
  let (n, _, rest) ← readDigits most (Text.dropBlanks cs)
  if lo ≤ n ∧ n ≤ hi then pure (n, rest) else throw .outOfRange

/-- Reads a year after blanks: up to four digits, or a sign and any number of digits. It must
fit a signed 32-bit word. -/
def readYear (cs : List Char) : Except TimeFault (Int × List Char) := do
  let (y, rest) ← match Text.dropBlanks cs with
    | '-' :: more => do
      let (n, _, rest) ← readDigits more.length more
      pure (-(n : Int), rest)
    | '+' :: more => do
      let (n, _, rest) ← readDigits more.length more
      pure ((n : Int), rest)
    | other => do
      let (n, _, rest) ← readDigits 4 other
      pure ((n : Int), rest)
  if -(Int.pow 2 31) ≤ y ∧ y < Int.pow 2 31 then pure (y, rest) else throw .outOfRange

/-- Reads a separator character after blanks. -/
def readLiteral (sep : Char) (cs : List Char) : Except TimeFault (List Char) :=
  match Text.dropBlanks cs with
  | [] => .error .tooShort
  | c :: rest => if c = sep then .ok rest else .error .invalid

/-- Reads an optional fraction of a second after a point, as nanoseconds. -/
def readFraction (cs : List Char) : Except TimeFault (Nat × List Char) :=
  match cs with
  | '.' :: more => do
    let (n, count, rest) ← readDigits 9 more
    pure (n * Nat.pow 10 (9 - count), rest.dropWhile isDigitChar)
  | _ => pure (0, cs)

/-- Reads two ASCII digits of an offset; fewer than two bytes are too short. -/
def offsetDigits (cs : List Char) : Except TimeFault (Nat × Nat × List Char) :=
  match cs with
  | a :: b :: rest =>
    if isDigitChar a ∧ isDigitChar b then .ok (a.toNat - 48, b.toNat - 48, rest) else .error .invalid
  | [a] => if a.utf8Size ≥ 2 then .error .invalid else .error .tooShort
  | [] => .error .tooShort

/-- Reads an offset written with a sign: two digits of hours, any run of colons and blanks,
and two digits of minutes below 60; the minus may also be U+2212. -/
def signedOffset (cs : List Char) : Except TimeFault (Int × List Char) := do
  let (negative, cs) ← match cs with
    | '+' :: rest => pure (false, rest)
    | '-' :: rest => pure (true, rest)
    | '−' :: rest => pure (true, rest)
    | [] => throw .tooShort
    | _ => throw .invalid
  let (h1, h2, cs) ← offsetDigits cs
  let cs := cs.dropWhile fun c => c = ':' ∨ Text.isBlank c
  let (m1, m2, cs) ← offsetDigits cs
  if m1 > 5 then throw .outOfRange
  let seconds : Int := ((h1 * 10 + h2) * 3600 + (m1 * 10 + m2) * 60 : Nat)
  pure (if negative then -seconds else seconds, cs)

/-- Reads an offset from UTC in seconds: `Z`, `UTC` in any case, or one with a sign. -/
def readOffset (cs : List Char) : Except TimeFault (Int × List Char) :=
  match cs with
  | 'Z' :: rest => pure (0, rest)
  | 'z' :: rest => pure (0, rest)
  | a :: b :: c :: rest =>
    if [a, b, c].map Char.toLower = ['u', 't', 'c'] then pure (0, rest)
    else signedOffset (a :: b :: c :: rest)
  | other => signedOffset other

/-- The fields of a date-time text. -/
structure TimeFields where
  year : Int
  month : Nat
  day : Nat
  hour : Nat
  minute : Nat
  second : Nat
  nano : Nat
  offset : Int
deriving Repr, DecidableEq

/-- Reads the fields of a date-time text and what follows them. -/
def readFields (cs : List Char) : Except TimeFault (TimeFields × List Char) := do
  let (year, cs) ← readYear cs
  let cs ← readLiteral '-' cs
  let (month, cs) ← readField 2 1 12 cs
  let cs ← readLiteral '-' cs
  let (day, cs) ← readField 2 1 31 cs
  let cs ← match cs with
    | c :: rest => if c = 'T' ∨ c = 't' ∨ c = ' ' then pure rest else throw .invalid
    | [] => throw .tooShort
  let (hour, cs) ← readField 2 0 23 cs
  let cs ← readLiteral ':' cs
  let (minute, cs) ← readField 2 0 59 cs
  let cs ← readLiteral ':' cs
  let (second, cs) ← readField 2 0 60 cs
  let (nano, cs) ← readFraction cs
  let (offset, cs) ← readOffset (Text.dropBlanks cs)
  pure (⟨year, month, day, hour, minute, second, nano, offset⟩, cs)

/-- Whether a date is on the calendar of instants. -/
def validDate (year : Int) (month day : Nat) : Bool :=
  firstYear ≤ year && year ≤ lastYear && 1 ≤ month && month ≤ 12 && 1 ≤ day &&
    day ≤ monthLength year month

/-- The instant the fields name: the local time less the offset, second 60 being the leap
second after second 59. -/
def TimeFields.toInstant (f : TimeFields) : Except TimeFault Instant :=
  if !validDate f.year f.month f.day then .error .outOfRange
  else if f.offset.natAbs ≥ 86400 then .error .outOfRange
  else
    let (second, nano) :=
      if f.second = 60 then (59, f.nano + nanosPerSecond) else (f.second, f.nano)
    let wall := daysOfCivil f.year f.month f.day * 86400 +
      ((f.hour * 3600 + f.minute * 60 + second : Nat) : Int)
    let t : Instant := ⟨wall - f.offset, nano⟩
    if t.inRange then .ok t else .error .impossible

/-- Reads a date-time text as an instant. -/
def Instant.read (s : String) : Except TimeFault Instant := do
  let (fields, rest) ← readFields s.toList
  if !(Text.dropBlanks rest).isEmpty then throw .tooLong
  fields.toInstant

example : (Instant.read "1970-01-01T00:00:01Z").toOption = some ⟨1, 0⟩ := by decide
example : (Instant.read "2024-06-30T23:59:60Z").toOption.map Instant.rfc3339 =
    some "2024-06-30T23:59:60Z" := by decide

end DataCatalog.Time
