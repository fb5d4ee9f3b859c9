/-!
# Blank characters and trimming

Blank means the Unicode `White_Space` property: the ASCII controls from tab to carriage
return, space, next line, no-break space, ogham space mark, the spaces from en quad to
hair space, the line and paragraph separators, narrow no-break space, medium mathematical
space and ideographic space. Trimming removes blanks from both ends and nothing else.
-/

namespace DataCatalog.Text

/-- A character is blank when it has the Unicode `White_Space` property. -/
def isBlank (c : Char) : Bool :=
  let n := c.toNat
  (0x09 ≤ n && n ≤ 0x0D) || n == 0x20 || n == 0x85 || n == 0xA0 || n == 0x1680 ||
    (0x2000 ≤ n && n ≤ 0x200A) || n == 0x2028 || n == 0x2029 || n == 0x202F ||
    n == 0x205F || n == 0x3000

/-- Drops blanks from the front of a character list. -/
def dropBlanks (cs : List Char) : List Char := cs.dropWhile isBlank

/-- Drops blanks from both ends of a character list. -/
def trimList (cs : List Char) : List Char :=
  (dropBlanks (dropBlanks cs).reverse).reverse

/-- Removes leading and trailing blanks. -/
def trim (s : String) : String := String.ofList (trimList s.toList)

/-- A text is empty after trimming exactly when all its characters are blank. -/
def isAllBlank (s : String) : Bool := s.toList.all isBlank

end DataCatalog.Text
