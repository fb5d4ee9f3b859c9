import DataCatalog.Json.Value
/-!
# Typed members of JSON objects

Readers for the members of an object as typed fields, refusing values the way a derived
deserializer does. A value of the wrong type is named by its kind (`integer` with its
digits, `string` with its quoted text, `sequence`, `map`, ...) next to what was expected; an
integer outside the target's range is an invalid value. An object is read as a struct in two
passes: its members are checked in key order against the fields they name, members naming no
field being ignored, and only then are missing fields reported, in the order the fields are
declared. A missing member and `null` both mean "not given" for optional fields; a field with
a default may be missing but not `null`.

A struct may also be read from a sequence, one element per field in declaration order: a
missing element is refused unless its field has a default, and elements beyond the last field
are refused by their count.
-/

namespace DataCatalog.Json

open DataCatalog.Decimal

/-- What a field reader gives: the value or why the field is refused. -/
abbrev Decoded (α : Type) := Except String α

/-- Text between grave accents. -/
def graved (s : String) : String := "\x60" ++ s ++ "\x60"

/-- A character escaped the way debug output of text escapes it. -/
def debugChar (c : Char) : String :=
  if c = '"' then "\\\""
  else if c = '\\' then "\\\\"
  else if c = '\n' then "\\n"
  else if c = '\r' then "\\r"
  else if c = '\t' then "\\t"
  else if c = '\x00' then "\\0"
  else if c.toNat < 32 || c.toNat = 127 then
    "\\u\x7b" ++ String.ofList (Nat.toDigits 16 c.toNat) ++ "\x7d"
  else c.toString

/-- Text quoted and escaped the way debug output shows it. -/
def debugQuote (s : String) : String :=
  "\"" ++ String.join (s.toList.map debugChar) ++ "\""

/-- How a value of an unexpected type is named. -/
def Value.unexpected : Value → String
  | .null => "null"
  | .bool b => "boolean " ++ graved (toString b)
  | .number (.unsigned n) => "integer " ++ graved (toString n)
  | .number (.negative i) => "integer " ++ graved (toString i)
  | .number (.double x) => "floating point " ++ graved x.plainText
  | .string s => "string " ++ debugQuote s
  | .array _ => "sequence"
  | .object _ => "map"

/-- The refusal of a value of the wrong type. -/
def invalidType (v : Value) (expected : String) : String :=
  "invalid type: " ++ v.unexpected ++ ", expected " ++ expected

/-- The refusal of a missing field. -/
def missingField (key : String) : String := "missing field " ++ graved key

/-- The members of an object value. -/
def Value.members? : Value → Decoded (List (String × Value))
  | .object ms => .ok ms
  | v => .error (invalidType v "a map")

/-- A member of an object, if present. -/
def member? (ms : List (String × Value)) (key : String) : Option Value := ms.lookup key

/-- A value as a signed integer within `[lo, hi]`, the target type being called `name`. -/
def Value.intIn (lo hi : Int) (name : String) : Value → Decoded Int
  | .number (.unsigned n) =>
    if (n : Int) ≤ hi then .ok n else .error ("invalid value: integer " ++ graved (toString n) ++
      ", expected " ++ name)
  | .number (.negative i) =>
    if lo ≤ i then .ok i else .error ("invalid value: integer " ++ graved (toString i) ++
      ", expected " ++ name)
  | v => .error (invalidType v name)

/-- A value as a signed word. -/
def Value.int64 (v : Value) : Decoded Int := v.intIn minSigned maxSigned "i64"

/-- A value as a signed half word. -/
def Value.int32 (v : Value) : Decoded Int := v.intIn (-(Int.pow 2 31)) (Int.pow 2 31 - 1) "i32"

/-- A value as text. -/
def Value.text : Value → Decoded String
  | .string s => .ok s
  | v => .error (invalidType v "a string")

/-- A value as a flag. -/
def Value.flag : Value → Decoded Bool
  | .bool b => .ok b
  | v => .error (invalidType v "a boolean")

/-- A value as a list read element by element. -/
def Value.listOf {α : Type} (read : Value → Decoded α) : Value → Decoded (List α)
  | .array xs => xs.mapM read
  | v => .error (invalidType v "a sequence")

/-- A reader that also accepts `null`, as `none`. -/
def nullable {α : Type} (read : Value → Decoded α) : Value → Decoded (Option α)
  | .null => .ok none
  | v => (read v).map some

/-- A reader used only to check a value. -/
def checking {α : Type} (read : Value → Decoded α) (v : Value) : Decoded Unit := (read v).map fun _ => ()

/-- Checks the members of an object, in its key order, with the checks of the fields they
name; members that name no field are ignored. -/
def checkMembers (ms : List (String × Value)) (checks : List (String × (Value → Decoded Unit))) :
    Decoded Unit :=
  ms.forM fun (k, v) => match checks.lookup k with
    | some check => check v
    | none => pure ()

/-- A required member read by `read`. -/
def required {α : Type} (ms : List (String × Value)) (key : String) (read : Value → Decoded α) :
    Decoded α :=
  match member? ms key with
  | some v => read v
  | none => .error (missingField key)

/-- An optional member: missing or `null` is `none`. -/
def optional {α : Type} (ms : List (String × Value)) (key : String) (read : Value → Decoded α) :
    Decoded (Option α) :=
  match member? ms key with
  | none => .ok none
  | some v => nullable read v

/-- A member with a default when missing; `null` is read like any other value. -/
def withDefault {α : Type} (ms : List (String × Value)) (key : String) (read : Value → Decoded α)
    (d : α) : Decoded α :=
  match member? ms key with
  | none => .ok d
  | some v => read v

/-- A field of a struct as a reader checks it: its key, the check of its value, and whether it
has a default, which a missing field takes. -/
structure FieldRule where
  key : String
  check : Value → Decoded Unit
  hasDefault : Bool

/-- The refusal of a sequence of `len` elements where `expected` says what was wanted. -/
def invalidLength (len : Nat) (expected : String) : String :=
  "invalid length " ++ toString len ++ ", expected " ++ expected

/-- A number of elements as refusals count them. -/
def elementsText (n : Nat) : String :=
  if n = 1 then "1 element" else toString n ++ " elements"

/-- Checks the elements of a sequence against the fields they stand for, from field `i` of
`count`, and lists them under the fields' keys. -/
def sequenceMembers (what : String) (count : Nat) :
    Nat → List FieldRule → List Value → Decoded (List (String × Value))
  | _, [], [] => pure []
  | _, [], extra => throw (invalidLength (count + extra.length) (elementsText count ++ " in sequence"))
  | i, r :: rs, x :: xs => do
    r.check x
    let rest ← sequenceMembers what count (i + 1) rs xs
    pure ((r.key, x) :: rest)
  | i, r :: rs, [] =>
    if r.hasDefault then sequenceMembers what count (i + 1) rs []
    else throw (invalidLength i (what ++ " with " ++ elementsText count))

/-- The members of a struct named `what`, read from an object or a sequence and checked
against its fields; the result lists the members given. -/
def structMembers (what : String) (rules : List FieldRule) : Value → Decoded (List (String × Value))
  | .object ms => do
    checkMembers ms (rules.map fun r => (r.key, r.check))
    rules.forM fun r =>
      if !r.hasDefault && (member? ms r.key).isNone then throw (missingField r.key) else pure ()
    pure ms
  | .array xs => sequenceMembers what rules.length 0 rules xs
  | v => throw (invalidType v what)

/-- The content of a variant without fields: any object, or an empty sequence. -/
def unitContent : Value → Decoded Unit
  | .array [] => pure ()
  | .array xs => throw (invalidLength xs.length (elementsText 0 ++ " in sequence"))
  | _ => pure ()

/-- The names of the variants a tag may take, as a refusal lists them. -/
def oneOf (names : List String) : String :=
  match names with
  | [a] => graved a
  | [a, b] => graved a ++ " or " ++ graved b
  | _ => "one of " ++ String.intercalate ", " (names.map graved)

/-- The refusal of an unknown variant tag. -/
def unknownVariant (tag : String) (names : List String) : String :=
  "unknown variant " ++ graved tag ++ ", expected " ++ oneOf names

end DataCatalog.Json
