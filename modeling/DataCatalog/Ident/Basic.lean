import DataCatalog.Ident.Uuid
import DataCatalog.Text.Blank
/-!
# Identifiers

Tenants and external resources are numbered by the system of record with signed words;
catalog rows (resources, nodes, items, scan runs) carry UUID text minted by the catalog.
A catalog id read from text keeps the text exactly as written once it is a UUID in some
accepted form. A number id is read after trimming blanks, with an optional sign.
-/

namespace DataCatalog.Ident

/-- A tenant of the catalog. -/
structure TenantId where
  val : Int
deriving Repr, DecidableEq, Hashable, Ord

/-- A resource's id in the system of record. -/
structure ExternalId where
  val : Int
deriving Repr, DecidableEq, Hashable, Ord

/-- A catalog resource row. -/
structure ResourceId where
  text : String
deriving Repr, DecidableEq, Hashable

/-- A catalog node row. -/
structure NodeId where
  text : String
deriving Repr, DecidableEq, Hashable

/-- A catalog item row. -/
structure ItemId where
  text : String
deriving Repr, DecidableEq, Hashable

/-- A scan run row. -/
structure RunId where
  text : String
deriving Repr, DecidableEq, Hashable

/-- What kind of identifier a text was meant to be. -/
inductive IdKind where
  | resource | node | item | scanRun | tenant | external
deriving Repr, DecidableEq

/-- The name of an identifier kind in messages. -/
def IdKind.label : IdKind → String
  | .resource => "resource ID"
  | .node => "node ID"
  | .item => "item ID"
  | .scanRun => "scan run ID"
  | .tenant => "tenant ID"
  | .external => "external resource ID"

/-- Why a text is not a signed word. -/
inductive IntFault where
  | empty
  | invalidDigit
  | tooLarge
  | tooSmall
deriving Repr, DecidableEq

/-- The reason text of an integer fault. -/
def IntFault.reason : IntFault → String
  | .empty => "cannot parse integer from empty string"
  | .invalidDigit => "invalid digit found in string"
  | .tooLarge => "number too large to fit in target type"
  | .tooSmall => "number too small to fit in target type"

/-- Why an identifier text was refused. -/
inductive IdFault where
  | uuid (fault : UuidFault)
  | integer (fault : IntFault)
deriving Repr, DecidableEq

/-- A refused identifier: its kind, the text as given, and the fault. -/
structure IdError where
  kind : IdKind
  input : String
  fault : IdFault
deriving Repr, DecidableEq

/-- The message of a refused identifier. -/
def IdError.message (e : IdError) : String :=
  let reason := match e.fault with
    | .uuid f => f.reason
    | .integer f => f.reason
  "Invalid " ++ e.kind.label ++ ": '" ++ e.input ++ "' (" ++ reason ++ ")"

/-- Accumulates decimal digits into a value that must stay within `limit`; the first
non-digit or the first step past the limit decides the fault, whichever comes first. -/
def accumulateDigits (limit : Nat) (overflow : IntFault) (acc : Nat) : List Char → Except IntFault Nat
  | [] => .ok acc
  | c :: rest =>
    if c.isDigit then
      let next := acc * 10 + (c.toNat - '0'.toNat)
      if next > limit then .error overflow else accumulateDigits limit overflow next rest
    else .error .invalidDigit

/-- Reads a signed word from text with an optional `+` or `-` sign. -/
def readSignedWord (cs : List Char) : Except IntFault Int :=
  match cs with
  | [] => .error .empty
  | ['+'] => .error .invalidDigit
  | ['-'] => .error .invalidDigit
  | '-' :: rest => (accumulateDigits (Nat.pow 2 63) .tooSmall 0 rest).map fun n => -(n : Int)
  | '+' :: rest => (accumulateDigits (Nat.pow 2 63 - 1) .tooLarge 0 rest).map fun n => (n : Int)
  | _ => (accumulateDigits (Nat.pow 2 63 - 1) .tooLarge 0 cs).map fun n => (n : Int)

/-- Reads a number id of the given kind from text, trimming blanks first. -/
def readNumberId (kind : IdKind) (s : String) : Except IdError Int :=
  match readSignedWord (Text.trimList s.toList) with
  | .ok n => .ok n
  | .error f => .error ⟨kind, s, .integer f⟩

/-- Reads a catalog id of the given kind: any accepted UUID form, kept as written. -/
def readUuidText (kind : IdKind) (s : String) : Except IdError String :=
  match Uuid.check s with
  | .ok () => .ok s
  | .error f => .error ⟨kind, s, .uuid f⟩

/-- Reads a tenant id. -/
def TenantId.read (s : String) : Except IdError TenantId := (readNumberId .tenant s).map TenantId.mk

/-- Reads an external resource id. -/
def ExternalId.read (s : String) : Except IdError ExternalId :=
  (readNumberId .external s).map ExternalId.mk

/-- Reads a resource id. -/
def ResourceId.read (s : String) : Except IdError ResourceId :=
  (readUuidText .resource s).map ResourceId.mk

/-- Reads a node id. -/
def NodeId.read (s : String) : Except IdError NodeId := (readUuidText .node s).map NodeId.mk

/-- Reads an item id. -/
def ItemId.read (s : String) : Except IdError ItemId := (readUuidText .item s).map ItemId.mk

/-- Reads a scan run id. -/
def RunId.read (s : String) : Except IdError RunId := (readUuidText .scanRun s).map RunId.mk

/-- Decimal text of a number id. -/
def TenantId.text (t : TenantId) : String :=
  if t.val < 0 then "-" ++ String.ofList (Nat.toDigits 10 t.val.natAbs)
  else String.ofList (Nat.toDigits 10 t.val.natAbs)

/-- Decimal text of an external id. -/
def ExternalId.text (e : ExternalId) : String := (TenantId.mk e.val).text

end DataCatalog.Ident
