import DataCatalog.Json.Value
/-!
# Writing JSON text

Values are written compactly: no blanks, members in the order the object holds them,
numbers in their own text. In strings a quote and a backslash are escaped, control
characters use the short escapes `\b \t \n \f \r` or `\u00xx`, and everything else is
written as itself.
-/

namespace DataCatalog.Json

/-- A lowercase hexadecimal digit. -/
def hexChar (n : Nat) : Char :=
  if n < 10 then Char.ofNat ('0'.toNat + n) else Char.ofNat ('a'.toNat + n - 10)

/-- One character as it stands inside a written string. -/
def escapeChar (c : Char) : List Char :=
  if c = '"' then ['\\', '"']
  else if c = '\\' then ['\\', '\\']
  else if c = '\n' then ['\\', 'n']
  else if c = '\r' then ['\\', 'r']
  else if c = '\t' then ['\\', 't']
  else if c.toNat = 8 then ['\\', 'b']
  else if c.toNat = 12 then ['\\', 'f']
  else if c.toNat < 0x20 then ['\\', 'u', '0', '0', hexChar (c.toNat / 16), hexChar (c.toNat % 16)]
  else [c]

/-- A string literal with its quotes. -/
def quote (s : String) : String :=
  String.ofList ('"' :: (s.toList.flatMap escapeChar ++ ['"']))

mutual
/-- The compact text of a value. -/
def Value.render : Value → String
  | .null => "null"
  | .bool b => if b then "true" else "false"
  | .number n => n.toText
  | .string s => quote s
  | .array items => "[" ++ renderItems items ++ "]"
  | .object members => "\x7b" ++ renderMembers members ++ "\x7d"
/-- Array elements separated by commas. -/
def renderItems : List Value → String
  | [] => ""
  | [v] => Value.render v
  | v :: rest => Value.render v ++ "," ++ renderItems rest
/-- Object members separated by commas. -/
def renderMembers : List (String × Value) → String
  | [] => ""
  | [(k, v)] => quote k ++ ":" ++ Value.render v
  | (k, v) :: rest => quote k ++ ":" ++ Value.render v ++ "," ++ renderMembers rest
end

end DataCatalog.Json
