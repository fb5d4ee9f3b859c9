import DataCatalog.Decimal.Shortest
/-!
# JSON values

A JSON value keeps the kind of each number: an unsigned integer below `2 ^ 64`, a negative
integer not below `-2 ^ 63`, or a double. Objects keep their members sorted by key, each key
once; `Value.insert` keeps that order and lets a later member replace an earlier one.
-/

namespace DataCatalog.Json

open DataCatalog.Decimal

/-- A JSON number with its kind. -/
inductive Number where
  | unsigned (n : Nat)
  | negative (i : Int)
  | double (x : Binary64)
deriving Repr, DecidableEq

/-- A JSON value; object members are sorted by key. -/
inductive Value where
  | null
  | bool (b : Bool)
  | number (n : Number)
  | string (s : String)
  | array (items : List Value)
  | object (members : List (String × Value))
deriving Repr, Inhabited

/-- The largest unsigned word. -/
def maxUnsigned : Nat := Nat.pow 2 64 - 1

/-- The largest signed word. -/
def maxSigned : Int := Int.pow 2 63 - 1

/-- The least signed word. -/
def minSigned : Int := -(Int.pow 2 63)

/-- The number's text: integers in decimal, doubles in their shortest form. -/
def Number.toText : Number → String
  | .unsigned n => digitText n
  | .negative i => intText i
  | .double x => x.toText

/-- The number as a signed word, when it is an integer that fits one. -/
def Number.toInt? : Number → Option Int
  | .unsigned n => if (n : Int) ≤ maxSigned then some n else none
  | .negative i => some i
  | .double _ => none

/-- An integer as a JSON number of the kind it would be read as. -/
def Number.ofInt (i : Int) : Number :=
  if 0 ≤ i then .unsigned i.toNat else .negative i

/-- An integer value. -/
def Value.int (i : Int) : Value := .number (Number.ofInt i)

/-- Inserts a member into a sorted member list, replacing one with the same key. -/
def insertMember (key : String) (v : Value) : List (String × Value) → List (String × Value)
  | [] => [(key, v)]
  | (k, w) :: rest =>
    if key = k then (key, v) :: rest
    else if key < k then (key, v) :: (k, w) :: rest
    else (k, w) :: insertMember key v rest

/-- An object built from members in any order, later members winning. -/
def Value.ofMembers (members : List (String × Value)) : Value :=
  .object (members.foldl (fun acc m => insertMember m.1 m.2 acc) [])

/-- The member of an object with this key. -/
def Value.field? (v : Value) (key : String) : Option Value :=
  match v with
  | .object members => members.lookup key
  | _ => none

/-- The text of a string value. -/
def Value.string? : Value → Option String
  | .string s => some s
  | _ => none

/-- An optional value: `none` for `null`. -/
def Value.nonNull? : Value → Option Value
  | .null => none
  | v => some v

/-- Option as a value, `none` written as `null`. -/
def Value.ofOption {α : Type} (f : α → Value) : Option α → Value
  | some a => f a
  | none => .null

/-- Optional text as a value. -/
def Value.ofString? (s : Option String) : Value := Value.ofOption Value.string s

/-- Optional integer as a value. -/
def Value.ofInt? (i : Option Int) : Value := Value.ofOption Value.int i

mutual
/-- Structural equality of values, numbers compared by kind and value. -/
def Value.beq : Value → Value → Bool
  | .null, .null => true
  | .bool a, .bool b => a == b
  | .number a, .number b => decide (a = b)
  | .string a, .string b => a == b
  | .array xs, .array ys => Value.beqList xs ys
  | .object xs, .object ys => Value.beqMembers xs ys
  | _, _ => false
/-- Equality of value lists. -/
def Value.beqList : List Value → List Value → Bool
  | [], [] => true
  | x :: xs, y :: ys => Value.beq x y && Value.beqList xs ys
  | _, _ => false
/-- Equality of member lists. -/
def Value.beqMembers : List (String × Value) → List (String × Value) → Bool
  | [], [] => true
  | (k, x) :: xs, (l, y) :: ys => k == l && Value.beq x y && Value.beqMembers xs ys
  | _, _ => false
end

instance : BEq Value := ⟨Value.beq⟩

end DataCatalog.Json
