import DataCatalog.Text.CaseTable
/-!
# Full Unicode case mapping

`lower` and `upper` map every character by the Unicode default case mapping, including
the mappings to several characters (`İ` lowercases to `i` and a combining dot, `ß`
uppercases to `SS`). A capital sigma lowercases to the final form `ς` when a cased
character precedes it and none follows it, case-ignorable characters being skipped on
both sides; otherwise to `σ`. `asciiLower` folds `A`–`Z` only.
-/

namespace DataCatalog.Text

/-- The offset of the first run covering `n`, if any. -/
def runDelta? (runs : List CaseRun) (n : Nat) : Option Int :=
  (runs.find? (·.covers n)).map (·.delta)

/-- Whether `n` lies in one of the inclusive ranges. -/
def inRanges (ranges : List (Nat × Nat)) (n : Nat) : Bool :=
  ranges.any fun r => r.1 ≤ n && n ≤ r.2

/-- The code point `n + delta` as a character. -/
def shiftChar (n : Nat) (delta : Int) : Char := Char.ofNat (n + delta).toNat

/-- Case-ignorable characters are skipped when the final-sigma rule looks for neighbours. -/
def isCaseIgnorable (c : Char) : Bool := inRanges caseIgnorableRanges c.toNat

/-- Cased characters (among those that are not case-ignorable). -/
def isCased (c : Char) : Bool := inRanges casedRanges c.toNat

/-- The lowercase of one character, outside the sigma rule. -/
def lowerChar (c : Char) : List Char :=
  if c.toNat = 0x130 then ['i', Char.ofNat 0x307]
  else match runDelta? lowerRuns c.toNat with
    | some d => [shiftChar c.toNat d]
    | none => [c]

/-- The uppercase of one character. -/
def upperChar (c : Char) : List Char :=
  match upperExpansions.find? (·.1 = c.toNat) with
  | some (_, cps) => cps.map Char.ofNat
  | none => match runDelta? upperRuns c.toNat with
    | some d => [shiftChar c.toNat d]
    | none => [c]

/-- After skipping case-ignorable characters, the next one is cased. -/
def casedBeyond (cs : List Char) : Bool :=
  match cs.dropWhile isCaseIgnorable with
  | c :: _ => isCased c
  | [] => false

/-- A capital sigma is word-final when a cased character precedes it and none follows.
`before` lists the preceding characters nearest first. -/
def isFinalSigma (before after : List Char) : Bool :=
  casedBeyond before && !casedBeyond after

/-- Lowercase of `cs`, given the characters before it (nearest first). -/
def lowerFrom (before : List Char) : List Char → List Char
  | [] => []
  | c :: rest =>
    let here := if c.toNat = 0x3A3 then
        [if isFinalSigma before rest then Char.ofNat 0x3C2 else Char.ofNat 0x3C3]
      else lowerChar c
    here ++ lowerFrom (c :: before) rest

/-- Unicode lowercase of a text. -/
def lower (s : String) : String := String.ofList (lowerFrom [] s.toList)

/-- Unicode uppercase of a text. -/
def upper (s : String) : String := String.ofList (s.toList.flatMap upperChar)

/-- Folds `A`–`Z` to `a`–`z` and keeps every other character. -/
def asciiLowerChar (c : Char) : Char :=
  if 'A' ≤ c ∧ c ≤ 'Z' then Char.ofNat (c.toNat + 32) else c

/-- Folds ASCII capitals only. -/
def asciiLower (s : String) : String := String.ofList (s.toList.map asciiLowerChar)

end DataCatalog.Text
