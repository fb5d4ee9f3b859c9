/-!
# Splitting and joining on one separator

Texts are cut on a single separator character into segments, empty ones included, and
joined back with a separator. `splitOn` followed by `joinOn` gives the text back.
-/

namespace DataCatalog.Text

/-- Segments of a character list between occurrences of `sep`, empty segments kept. -/
def splitList (sep : Char) : List Char → List (List Char)
  | [] => [[]]
  | c :: rest =>
    if c = sep then [] :: splitList sep rest
    else match splitList sep rest with
      | [] => [[c]]
      | first :: others => (c :: first) :: others

/-- Segments of a text between occurrences of `sep`, empty segments kept. -/
def splitOn (sep : Char) (s : String) : List String :=
  (splitList sep s.toList).map String.ofList

/-- Joins texts with a separator text between neighbours. -/
def joinWith (sep : String) : List String → String
  | [] => ""
  | [s] => s
  | s :: rest => s ++ sep ++ joinWith sep rest

/-- The part before the first `sep` and the part after it, if `sep` occurs. -/
def splitFirst (sep : Char) (s : String) : Option (String × String) :=
  let cs := s.toList
  match cs.findIdx? (· = sep) with
  | none => none
  | some i => some (String.ofList (cs.take i), String.ofList (cs.drop (i + 1)))

/-- The part before the last `sep` and the part after it, if `sep` occurs. -/
def splitLast (sep : Char) (s : String) : Option (String × String) :=
  match splitFirst sep (String.ofList s.toList.reverse) with
  | none => none
  | some (after, before) =>
    some (String.ofList before.toList.reverse, String.ofList after.toList.reverse)

/-- Whether `pat` occurs as a contiguous part of `cs`. -/
def listInfix (pat : List Char) : List Char → Bool
  | [] => pat.isEmpty
  | c :: rest => pat.isPrefixOf (c :: rest) || listInfix pat rest

/-- Whether `pat` occurs as a contiguous part of `s`. -/
def hasInfix (s pat : String) : Bool := listInfix pat.toList s.toList

/-- Whether `s` begins with `pat`. -/
def hasPrefix (s pat : String) : Bool := pat.toList.isPrefixOf s.toList

/-- Whether `s` ends with `pat`. -/
def hasSuffix (s pat : String) : Bool := pat.toList.reverse.isPrefixOf s.toList.reverse

/-- `s` without its first `n` characters. -/
def dropChars (s : String) (n : Nat) : String := String.ofList (s.toList.drop n)

theorem splitList_ne_nil (sep : Char) (cs : List Char) : splitList sep cs ≠ [] := by
  cases cs with
  | nil => simp [splitList]
  | cons c rest =>
    simp only [splitList]
    split
    · simp
    · split <;> simp

end DataCatalog.Text
