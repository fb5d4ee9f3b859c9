import DataCatalog.Json.Value
import DataCatalog.Decimal.Scaled
/-!
# Reading JSON text

The reader accepts the JSON grammar: blanks are space, tab, line feed and carriage return;
strings may not hold control characters and decode the escapes `\" \\ \/ \b \f \n \r \t`
and `\u` with surrogate pairs; a lone surrogate is refused. Arrays and objects nest at most
127 deep. Later object members replace earlier ones with the same key.

An integer without fraction or exponent is unsigned when it fits an unsigned word, and
negative when it fits a signed word and is not zero. Every other number keeps the digits that
fit one unsigned word and is read by scaling that word (`Decimal.ofScaledWord`); a number
beyond the largest double is refused.

A text that breaks the grammar is refused with the first fault met and its place: the line,
and the column as a count of bytes on that line. A fault found by looking at the next
character is placed on that character, one found after reading a character after it.
-/

namespace DataCatalog.Json

open DataCatalog.Decimal

/-- Why a JSON text could not be read. -/
inductive ReadFault where
  | eofInString
  | eofInList
  | eofInObject
  | eofInValue
  | expectedColon
  | expectedListCommaOrEnd
  | expectedObjectCommaOrEnd
  | expectedIdent
  | expectedValue
  | invalidEscape
  | invalidNumber
  | numberOutOfRange
  | controlCharacter
  | keyMustBeString
  | loneLeadingSurrogate
  | unexpectedEndOfHexEscape
  | trailingComma
  | trailingCharacters
  | recursionLimit
deriving Repr, DecidableEq

/-- The text of a fault. -/
def ReadFault.message : ReadFault → String
  | .eofInString => "EOF while parsing a string"
  | .eofInList => "EOF while parsing a list"
  | .eofInObject => "EOF while parsing an object"
  | .eofInValue => "EOF while parsing a value"
  | .expectedColon => "expected \x60:\x60"
  | .expectedListCommaOrEnd => "expected \x60,\x60 or \x60]\x60"
  | .expectedObjectCommaOrEnd => "expected \x60,\x60 or \x60\x7d\x60"
  | .expectedIdent => "expected ident"
  | .expectedValue => "expected value"
  | .invalidEscape => "invalid escape"
  | .invalidNumber => "invalid number"
  | .numberOutOfRange => "number out of range"
  | .controlCharacter => "control character (\\u0000-\\u001F) found while parsing a string"
  | .keyMustBeString => "key must be a string"
  | .loneLeadingSurrogate => "lone leading surrogate in hex escape"
  | .unexpectedEndOfHexEscape => "unexpected end of hex escape"
  | .trailingComma => "trailing comma"
  | .trailingCharacters => "trailing characters"
  | .recursionLimit => "recursion limit exceeded"

/-- A fault with the input left when it was found; the fault stands `skip` bytes into it. -/
structure ReadError where
  fault : ReadFault
  rest : List Char
  skip : Nat

/-- What remains to be read, or why reading stopped. -/
abbrev Reading (α : Type) := Except ReadError (α × List Char)

/-- A fault placed after the last character read. -/
def failHere {α : Type} (f : ReadFault) (rest : List Char) : Except ReadError α :=
  .error ⟨f, rest, 0⟩

/-- A fault placed on the next character. -/
def failAhead {α : Type} (f : ReadFault) (rest : List Char) : Except ReadError α :=
  .error ⟨f, rest, 1⟩

/-- Drops JSON blanks. -/
def skipBlanks : List Char → List Char
  | c :: rest => if c = ' ' ∨ c = '\t' ∨ c = '\n' ∨ c = '\r' then skipBlanks rest else c :: rest
  | [] => []

/-- The value of one hexadecimal digit. -/
def hexDigit? (c : Char) : Option Nat :=
  if '0' ≤ c ∧ c ≤ '9' then some (c.toNat - '0'.toNat)
  else if 'a' ≤ c ∧ c ≤ 'f' then some (c.toNat - 'a'.toNat + 10)
  else if 'A' ≤ c ∧ c ≤ 'F' then some (c.toNat - 'A'.toNat + 10)
  else none

/-- Four hexadecimal digits as a number. -/
def hex4? (a b c d : Char) : Option Nat :=
  match hexDigit? a, hexDigit? b, hexDigit? c, hexDigit? d with
  | some w, some x, some y, some z => some (((w * 16 + x) * 16 + y) * 16 + z)
  | _, _, _, _ => none

/-- Number of bytes of a character list. -/
def byteCount (cs : List Char) : Nat := (cs.map Char.utf8Size).foldr (· + ·) 0

/-- The fault of a `\u` escape with fewer than four characters left: the escape takes four
bytes, so fewer bytes run out of text. -/
def shortEscape {α : Type} (rest : List Char) : Except ReadError α :=
  if byteCount rest ≥ 4 then .error ⟨.invalidEscape, rest, 4⟩ else failHere .eofInString []

/-- Reads the characters of a string up to its closing quote; `acc` holds the characters
read so far, last first. -/
def readStringBody (acc : List Char) : List Char → Reading String
  | [] => failHere .eofInString []
  | '"' :: rest => .ok (String.ofList acc.reverse, rest)
  | '\\' :: rest =>
    match rest with
    | [] => failHere .eofInString []
    | '"' :: more => readStringBody ('"' :: acc) more
    | '\\' :: more => readStringBody ('\\' :: acc) more
    | '/' :: more => readStringBody ('/' :: acc) more
    | 'b' :: more => readStringBody (Char.ofNat 8 :: acc) more
    | 'f' :: more => readStringBody (Char.ofNat 12 :: acc) more
    | 'n' :: more => readStringBody ('\n' :: acc) more
    | 'r' :: more => readStringBody ('\r' :: acc) more
    | 't' :: more => readStringBody ('\t' :: acc) more
    | 'u' :: a :: b :: c :: d :: more =>
      match hex4? a b c d with
      | none => .error ⟨.invalidEscape, a :: b :: c :: d :: more, 4⟩
      | some hi =>
        if 0xDC00 ≤ hi ∧ hi ≤ 0xDFFF then failHere .loneLeadingSurrogate more
        else if 0xD800 ≤ hi ∧ hi ≤ 0xDBFF then
          match more with
          | [] => failHere .eofInString []
          | '\\' :: more2 =>
            match more2 with
            | [] => failHere .eofInString []
            | 'u' :: e :: f :: g :: h :: more3 =>
              match hex4? e f g h with
              | some lo =>
                if 0xDC00 ≤ lo ∧ lo ≤ 0xDFFF then
                  readStringBody
                    (Char.ofNat (0x10000 + (hi - 0xD800) * 0x400 + (lo - 0xDC00)) :: acc) more3
                else failHere .loneLeadingSurrogate more3
              | none => .error ⟨.invalidEscape, e :: f :: g :: h :: more3, 4⟩
            | 'u' :: tail => shortEscape tail
            | other => .error ⟨.unexpectedEndOfHexEscape, other, 1⟩
          | other => .error ⟨.unexpectedEndOfHexEscape, other, 1⟩
        else readStringBody (Char.ofNat hi :: acc) more
    | 'u' :: tail => shortEscape tail
    | _ :: more => failHere .invalidEscape more
  | c :: rest =>
    if c.toNat < 0x20 then failHere .controlCharacter rest
    else readStringBody (c :: acc) rest

/-- The value of a decimal digit. -/
def digitValue (c : Char) : Nat := c.toNat - '0'.toNat

/-- The number of leading decimal digits and the rest. -/
def countDigits : List Char → Nat × List Char
  | c :: rest =>
    if c.isDigit then
      let (n, r) := countDigits rest
      (n + 1, r)
    else (0, c :: rest)
  | [] => (0, [])

/-- Reads whole-part digits into the word `w`. Once the next digit would overflow the word,
the digits that remain are only counted: the result is the word, the count and the rest. -/
def wholeDigits (w : Nat) : List Char → Nat × Nat × List Char
  | c :: rest =>
    if c.isDigit then
      if w * 10 + digitValue c > maxUnsigned then
        let (n, r) := countDigits (c :: rest)
        (w, n, r)
      else wholeDigits (w * 10 + digitValue c) rest
    else (w, 0, c :: rest)
  | [] => (w, 0, [])

/-- Reads fraction digits into the word `w`, each lowering the exponent `e`. Once the next
digit would overflow the word, the digits that remain are skipped. -/
def fractionDigits (w : Nat) (e : Int) : List Char → Nat × Int × List Char
  | c :: rest =>
    if c.isDigit then
      if w * 10 + digitValue c > maxUnsigned then (w, e, rest.dropWhile Char.isDigit)
      else fractionDigits (w * 10 + digitValue c) (e - 1) rest
    else (w, e, c :: rest)
  | [] => (w, e, [])

/-- The largest written exponent: a signed 32-bit word. -/
def maxWrittenExponent : Nat := Nat.pow 2 31 - 1

/-- Reads exponent digits after the first into `n`; `none`, with the rest after the digit,
when a digit makes the exponent overflow. -/
def exponentDigits (n : Nat) : List Char → Option Nat × List Char
  | c :: rest =>
    if c.isDigit then
      if n * 10 + digitValue c > maxWrittenExponent then (none, rest)
      else exponentDigits (n * 10 + digitValue c) rest
    else (some n, c :: rest)
  | [] => (some n, [])

/-- An exponent clamped to a signed 32-bit word. -/
def saturate (e : Int) : Int := max (-(Int.pow 2 31)) (min e (Int.pow 2 31 - 1))

/-- The double of a word and an exponent, or out of range with the fault after `rest`. -/
def scaledNumber (negative : Bool) (w : Nat) (e : Int) (rest : List Char) : Reading Number :=
  match ofScaledWord negative w e with
  | some x => .ok (.double x, rest)
  | none => failHere .numberOutOfRange rest

/-- Reads the exponent after `e` or `E` of a number with word `w` and exponent `e0`. An
exponent that overflows is zero for a zero word or a negative exponent, and out of range
otherwise. -/
def readExponent (negative : Bool) (w : Nat) (e0 : Int) (cs : List Char) : Reading Number :=
  let (minus, cs) := match cs with
    | '+' :: more => (false, more)
    | '-' :: more => (true, more)
    | _ => (false, cs)
  match cs with
  | [] => failHere .eofInValue []
  | c :: rest =>
    if !c.isDigit then failHere .invalidNumber rest
    else
      match exponentDigits (digitValue c) rest with
      | (none, rest) =>
        if w ≠ 0 ∧ !minus then failHere .numberOutOfRange rest
        else .ok (.double ⟨negative, 0, minExponent⟩, rest.dropWhile Char.isDigit)
      | (some n, rest) =>
        scaledNumber negative w (saturate (if minus then e0 - n else e0 + n)) rest

/-- Reads what follows the fraction digits or skipped digits of a number. -/
def readAfterDigits (negative : Bool) (w : Nat) (e : Int) : List Char → Reading Number
  | c :: more =>
    if c = 'e' ∨ c = 'E' then readExponent negative w e more
    else scaledNumber negative w e (c :: more)
  | [] => scaledNumber negative w e []

/-- Reads the fraction after the point of a number with word `w` and exponent `e0`; at least
one digit must follow the point. -/
def readFraction (negative : Bool) (w : Nat) (e0 : Int) (cs : List Char) : Reading Number :=
  match cs with
  | c :: _ =>
    if c.isDigit then
      let (w, e, rest) := fractionDigits w e0 cs
      readAfterDigits negative w e rest
    else failAhead .invalidNumber cs
  | [] => failAhead .eofInValue []

/-- An integer without fraction or exponent: unsigned when not negative, a double for minus
zero and for a negative beyond a signed word. -/
def integerNumber (negative : Bool) (w : Nat) (rest : List Char) : Reading Number :=
  if !negative then .ok (.unsigned w, rest)
  else if w = 0 then .ok (.double ⟨true, 0, minExponent⟩, rest)
  else if w ≤ Nat.pow 2 63 then .ok (.negative (-(w : Int)), rest)
  else scaledNumber true w 0 rest

/-- Reads what follows the whole part `w` of a number, when it fits a word. -/
def readAfterWhole (negative : Bool) (w : Nat) : List Char → Reading Number
  | '.' :: more => readFraction negative w 0 more
  | 'e' :: more => readExponent negative w 0 more
  | 'E' :: more => readExponent negative w 0 more
  | rest => integerNumber negative w rest

/-- Reads a number after its sign. -/
def readNumber (negative : Bool) : List Char → Reading Number
  | [] => failHere .eofInValue []
  | '0' :: rest =>
    match rest with
    | c :: _ => if c.isDigit then failAhead .invalidNumber rest else readAfterWhole negative 0 rest
    | [] => readAfterWhole negative 0 []
  | c :: rest =>
    if c.isDigit then
      match wholeDigits (digitValue c) rest with
      | (w, 0, rest) => readAfterWhole negative w rest
      | (w, dropped, '.' :: more) => readFraction negative w dropped more
      | (w, dropped, rest) => readAfterDigits negative w dropped rest
    else failHere .invalidNumber rest

/-- Reads the rest of a literal word, one expected character at a time. -/
def readWord : List Char → List Char → Except ReadError (List Char)
  | [], cs => .ok cs
  | _ :: _, [] => failHere .eofInValue []
  | e :: es, c :: cs => if c = e then readWord es cs else failHere .expectedIdent cs

/-- The greatest nesting of arrays and objects, plus one. -/
def nestingLimit : Nat := 128

mutual
/-- Reads one value. `depth` is what remains of the nesting limit; `fuel` bounds the number
of steps and is never the first to run out. -/
def readValue : Nat → Nat → List Char → Reading Value
  | 0, _, cs => failAhead .recursionLimit cs
  | fuel + 1, depth, cs =>
    match skipBlanks cs with
    | [] => failAhead .eofInValue []
    | 'n' :: rest => (readWord ['u', 'l', 'l'] rest).map fun r => (.null, r)
    | 't' :: rest => (readWord ['r', 'u', 'e'] rest).map fun r => (.bool true, r)
    | 'f' :: rest => (readWord ['a', 'l', 's', 'e'] rest).map fun r => (.bool false, r)
    | '"' :: rest => (readStringBody [] rest).map fun (s, r) => (.string s, r)
    | '[' :: rest =>
      if depth ≤ 1 then failAhead .recursionLimit ('[' :: rest)
      else (readElements fuel (depth - 1) true [] rest).map fun (items, r) => (.array items, r)
    | '{' :: rest =>
      if depth ≤ 1 then failAhead .recursionLimit ('{' :: rest)
      else (readMembers fuel (depth - 1) true [] rest).map fun (members, r) => (.object members, r)
    | '-' :: rest => (readNumber true rest).map fun (n, r) => (.number n, r)
    | c :: rest =>
      if c.isDigit then (readNumber false (c :: rest)).map fun (n, r) => (.number n, r)
      else failAhead .expectedValue (c :: rest)

/-- Reads array elements up to the closing bracket; `acc` holds those read, last first. -/
def readElements : Nat → Nat → Bool → List Value → List Char → Reading (List Value)
  | 0, _, _, _, cs => failAhead .recursionLimit cs
  | fuel + 1, depth, first, acc, cs =>
    match skipBlanks cs with
    | ']' :: rest => .ok (acc.reverse, rest)
    | [] => failAhead .eofInList []
    | c :: rest =>
      if first then
        match readValue fuel depth (c :: rest) with
        | .ok (v, more) => readElements fuel depth false (v :: acc) more
        | .error e => .error e
      else if c = ',' then
        match skipBlanks rest with
        | ']' :: more => failAhead .trailingComma (']' :: more)
        | [] => failAhead .eofInValue []
        | next =>
          match readValue fuel depth next with
          | .ok (v, more) => readElements fuel depth false (v :: acc) more
          | .error e => .error e
      else failAhead .expectedListCommaOrEnd (c :: rest)

/-- Reads object members up to the closing brace into a sorted member list. -/
def readMembers : Nat → Nat → Bool → List (String × Value) → List Char →
    Reading (List (String × Value))
  | 0, _, _, _, cs => failAhead .recursionLimit cs
  | fuel + 1, depth, first, acc, cs =>
    match skipBlanks cs with
    | '}' :: rest => .ok (acc, rest)
    | [] => failAhead .eofInObject []
    | c :: rest =>
      if first then readMember fuel depth acc (c :: rest)
      else if c = ',' then readMember fuel depth acc (skipBlanks rest)
      else failAhead .expectedObjectCommaOrEnd (c :: rest)

/-- Reads one member, its key first, and the members after it. -/
def readMember : Nat → Nat → List (String × Value) → List Char →
    Reading (List (String × Value))
  | 0, _, _, cs => failAhead .recursionLimit cs
  | fuel + 1, depth, acc, cs =>
    match cs with
    | '"' :: rest =>
      match readStringBody [] rest with
      | .error e => .error e
      | .ok (key, rest) =>
        match skipBlanks rest with
        | ':' :: rest =>
          match readValue fuel depth rest with
          | .error e => .error e
          | .ok (v, rest) => readMembers fuel depth false (insertMember key v acc) rest
        | [] => failAhead .eofInObject []
        | other => failAhead .expectedColon other
    | '}' :: rest => failAhead .trailingComma ('}' :: rest)
    | [] => failAhead .eofInValue []
    | other => failAhead .keyMustBeString other
end

/-- A refused text: the fault, and the line and column where it stands. -/
structure ReadFailure where
  fault : ReadFault
  line : Nat
  column : Nat
deriving Repr, DecidableEq

/-- The text of a refusal, with its place. -/
def ReadFailure.message (f : ReadFailure) : String :=
  f.fault.message ++ " at line " ++ digitText f.line ++ " column " ++ digitText f.column

/-- The line (from one) and column (bytes since the line began) of a byte offset in a text. -/
def lineColumn (offset : Nat) : List Char → Nat → Nat → Nat → Nat × Nat
  | [], _, line, start => (line, offset - start)
  | c :: rest, pos, line, start =>
    if pos < offset then
      if c = '\n' then lineColumn offset rest (pos + 1) (line + 1) (pos + 1)
      else lineColumn offset rest (pos + c.utf8Size) line start
    else (line, offset - start)

/-- Places a reading fault in the text it was found in. -/
def ReadError.locate (cs : List Char) (e : ReadError) : ReadFailure :=
  let total := byteCount cs
  let offset := min total (total - byteCount e.rest + e.skip)
  let (line, column) := lineColumn offset cs 0 1 0
  ⟨e.fault, line, column⟩

/-- Reads a whole text as one JSON value with nothing but blanks after it. -/
def Value.read (s : String) : Except ReadFailure Value :=
  let cs := s.toList
  let outcome : Except ReadError Value :=
    match readValue (2 * cs.length + 2) nestingLimit cs with
    | .error e => .error e
    | .ok (v, rest) =>
      match skipBlanks rest with
      | [] => .ok v
      | more => failAhead .trailingCharacters more
  match outcome with
  | .ok v => .ok v
  | .error e => .error (e.locate cs)

/-- The double the reader makes of the shortest text of `x`. The reader scales a word of
digits, so this may lie a unit in the last place away from `x`; text written from a double
always reads, so the fallback to `x` is never taken. -/
def readBackDouble (x : Binary64) : Binary64 :=
  match readNumber x.negative (x.toText.toList.dropWhile (· = '-')) with
  | .ok (.double y, _) => y
  | _ => x

mutual
/-- A value as it reads back from its own text: each double becomes `readBackDouble` of it,
and everything else reads back unchanged. -/
def Value.readBack : Value → Value
  | .number (.double x) => .number (.double (readBackDouble x))
  | .array xs => .array (Value.readBackList xs)
  | .object ms => .object (Value.readBackMembers ms)
  | v => v
/-- Each value of a list as it reads back. -/
def Value.readBackList : List Value → List Value
  | [] => []
  | x :: xs => x.readBack :: Value.readBackList xs
/-- Each member's value as it reads back. -/
def Value.readBackMembers : List (String × Value) → List (String × Value)
  | [] => []
  | (k, x) :: ms => (k, x.readBack) :: Value.readBackMembers ms
end

end DataCatalog.Json
