import DataCatalog.Text.Segments
/-!
# UUID text

A UUID is written as 32 hexadecimal digits (either case), or as five hyphen-separated groups
of 8, 4, 4, 4 and 12 digits, bare, in braces, or after `urn:uuid:` (in any letter case).
`Uuid.check` accepts exactly these forms and otherwise names a fault.

A text of one of the fixed shapes of the hyphenated form (36 bytes; 38 bytes in braces;
45 bytes after `urn:uuid:`) is judged by its 36-byte body alone: the first character that is
neither a hexadecimal digit nor a hyphen, at its byte position in the body; else a group count
other than five; else the first misplaced group.

Any other text is judged as a whole, in this order:

1. a text of more than 45 bytes, longer than any accepted form, has the wrong length;
2. the first character of the body (the text without its braces or `urn:uuid:`) that is
   neither a hexadecimal digit nor a hyphen, with its byte position in the whole text;
3. a text without any hyphen and without a wrapper has the wrong length;
4. the number of hyphen-separated groups is not five;
5. the first group whose hyphen is misplaced, or else the last group, whose length is
   counted from the end of the whole text.
-/

namespace DataCatalog.Ident

/-- Why a text is not a UUID. -/
inductive UuidFault where
  | char (c : Char) (index : Nat)
  | length (len : Nat)
  | groupCount (count : Nat)
  | groupLength (group : Nat) (len : Nat)
deriving Repr, DecidableEq

/-- The length each of the five groups must have. -/
def groupLengths : List Nat := [8, 4, 4, 4, 12]

/-- Where each of the five groups starts in the hyphenated form. -/
def groupStarts : List Nat := [0, 9, 14, 19, 24]

/-- The reason text of a fault. -/
def UuidFault.reason : UuidFault → String
  | .char c i => "invalid character: found " ++ "\x60" ++ String.ofList [c] ++ "\x60" ++ " at " ++
      String.ofList (Nat.toDigits 10 i)
  | .length n => "invalid length: found " ++ String.ofList (Nat.toDigits 10 n)
  | .groupCount n => "invalid group count: expected 5, found " ++ String.ofList (Nat.toDigits 10 n)
  | .groupLength g n =>
    "invalid group length in group " ++ String.ofList (Nat.toDigits 10 g) ++ ": expected " ++
      String.ofList (Nat.toDigits 10 (groupLengths.getD g 0)) ++ ", found " ++
      String.ofList (Nat.toDigits 10 n)

/-- A hexadecimal digit of either case. -/
def isHexDigit (c : Char) : Bool :=
  ('0' ≤ c && c ≤ '9') || ('a' ≤ c && c ≤ 'f') || ('A' ≤ c && c ≤ 'F')

/-- Whether `cs` is the hyphenated form: groups of 8, 4, 4, 4 and 12 hexadecimal digits. -/
def isHyphenated (cs : List Char) : Bool :=
  let groups := Text.splitList '-' cs
  groups.length = 5 && (groups.zip groupLengths).all fun (g, n) => g.length = n && g.all isHexDigit

/-- The longest accepted form, `urn:uuid:` and the hyphenated form, in bytes. -/
def longestForm : Nat := 45

/-- Whether `cs` starts with `urn:uuid:`, letters compared without regard to case. -/
def hasUrnPrefix (cs : List Char) : Bool :=
  "urn:uuid:".toList.isPrefixOf ((cs.take 9).map Char.toLower)

/-- The body of a text without its wrapper, the byte position where the body starts, and
whether the text was bare. -/
def unwrap (cs : List Char) : List Char × Nat × Bool :=
  if cs.length ≥ 2 ∧ cs.head? = some '{' ∧ cs.getLast? = some '}' then
    ((cs.drop 1).dropLast, 1, false)
  else if hasUrnPrefix cs then (cs.drop 9, 9, false)
  else (cs, 0, true)

/-- The first character of `cs` that is neither a hexadecimal digit nor a hyphen, with its
byte position after `pos`. -/
def firstBadChar (pos : Nat) : List Char → Option (Char × Nat)
  | [] => none
  | c :: rest =>
    if c = '-' ∨ isHexDigit c then firstBadChar (pos + c.utf8Size) rest else some (c, pos)

/-- Byte positions of the hyphens of `cs`, counted from `pos`. -/
def hyphenPositions (pos : Nat) : List Char → List Nat
  | [] => []
  | c :: rest =>
    let later := hyphenPositions (pos + c.utf8Size) rest
    if c = '-' then pos :: later else later

/-- The first group whose closing hyphen is not where it belongs, as a fault. -/
def misplacedGroup (total : Nat) : List Nat → List Nat → Nat → UuidFault
  | bound :: bounds, start :: next :: starts, g =>
    if bound = next - 1 then misplacedGroup total bounds (next :: starts) (g + 1)
    else .groupLength g (bound - start)
  | _, _, g => .groupLength g (total - 24)

/-- The 36-byte body of a text of one of the fixed shapes of the hyphenated form: the whole of
a 36-byte text, the inside of a 38-byte text in braces, or the rest of a 45-byte text after
`urn:uuid:`. -/
def fixedBody? (s : String) : Option (List Char) :=
  let cs := s.toList
  let n := s.utf8ByteSize
  if n = 36 then some cs
  else if n = 38 ∧ cs.head? = some '{' ∧ cs.getLast? = some '}' then some ((cs.drop 1).dropLast)
  else if n = 45 ∧ hasUrnPrefix cs then some (cs.drop 9)
  else none

/-- Whether a text is a UUID in one of the accepted forms. -/
def isUuidForm (s : String) : Bool :=
  (s.utf8ByteSize = 32 && s.toList.all isHexDigit) ||
  match fixedBody? s with
  | some body => isHyphenated body
  | none => false

/-- The fault of a fixed-shape body that is not the hyphenated form, positions counted in the
body. -/
def bodyFault (body : List Char) : UuidFault :=
  match firstBadChar 0 body with
  | some (c, i) => .char c i
  | none =>
    let hyphens := hyphenPositions 0 body
    if hyphens.length ≠ 4 then .groupCount (hyphens.length + 1)
    else misplacedGroup 36 hyphens groupStarts 0

/-- The fault of a text of no fixed shape, positions counted in the whole text. -/
def looseFault (s : String) : UuidFault :=
  let n := s.utf8ByteSize
  if n > longestForm then .length n else
  let (body, offset, bare) := unwrap s.toList
  match firstBadChar offset body with
  | some (c, i) => .char c i
  | none =>
    let hyphens := hyphenPositions 0 body
    if hyphens.isEmpty ∧ bare then .length n
    else if hyphens.length ≠ 4 then .groupCount (hyphens.length + 1)
    else misplacedGroup n hyphens groupStarts 0

/-- The fault of a text that is not a UUID. -/
def diagnose (s : String) : UuidFault :=
  match fixedBody? s with
  | some body => bodyFault body
  | none => looseFault s

/-- Accepts a UUID text or names its fault. -/
def Uuid.check (s : String) : Except UuidFault Unit :=
  if isUuidForm s then .ok () else .error (diagnose s)

/-- Lowercase hexadecimal digits of `n`, padded with zeros to `width`. -/
def hexPadded (width n : Nat) : String :=
  let ds := Nat.toDigits 16 n
  String.ofList (List.replicate (width - ds.length) '0' ++ ds)

/-- The hyphenated UUID text of serial number `n`: a version 4 layout whose last group
holds the serial. Distinct serials give distinct texts. -/
def Uuid.ofSerial (n : Nat) : String :=
  "c47a1065-5e0d-4f7b-9c2e-" ++ hexPadded 12 n

end DataCatalog.Ident
