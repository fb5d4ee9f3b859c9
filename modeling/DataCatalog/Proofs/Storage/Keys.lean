import Mathlib
import DataCatalog.Storage.Path
/-!
# Keys and relative paths

Object keys and the relative paths a pass walks are `/`-separated texts. Splitting on `/` and
joining with `/` undo each other, and splitting distributes over a `/`. A normal path has no
empty segment: it is what `normalizeKey` makes of a key that is not all slashes, and
normalizing it again changes nothing. An empty segment shows in the text as a slash at
either end or two slashes in a row, so a rebuild that skips the split on a path without them
normalizes alike. On normal paths `joinRel` and the pair `parentDir`,
`baseName` undo each other, and walking down from a base one segment at a time with `joinRel`
arrives at the path.
-/

namespace DataCatalog.Text

/-! ## Splitting and joining -/

section Split

variable {sep : Char}

theorem splitList_append_sep (a b : List Char) :
    splitList sep (a ++ sep :: b) = splitList sep a ++ splitList sep b := by
  induction a with
  | nil => simp [splitList]
  | cons c a ih =>
    by_cases hc : c = sep
    · simp [splitList, hc, ih]
    · obtain ⟨f, os, hfo⟩ := List.exists_cons_of_ne_nil (splitList_ne_nil sep a)
      simp [splitList, hc, ih, hfo]

theorem splitList_of_not_mem {s : List Char} (h : sep ∉ s) : splitList sep s = [s] := by
  induction s with
  | nil => rfl
  | cons c s ih =>
    have hc : c ≠ sep := fun e => h (e ▸ List.mem_cons_self)
    simp [splitList, hc, ih fun hm => h (List.mem_cons_of_mem _ hm)]

/-- No segment holds the separator. -/
theorem not_mem_of_mem_splitList : ∀ {s seg : List Char}, seg ∈ splitList sep s → sep ∉ seg
  | [], seg, h => by
    simp only [splitList, List.mem_singleton] at h
    simp [h]
  | c :: s, seg, h => by
    by_cases hc : c = sep
    · simp only [splitList, hc, if_true, List.mem_cons] at h
      rcases h with rfl | h
      · simp
      · exact not_mem_of_mem_splitList h
    · obtain ⟨f, os, hfo⟩ := List.exists_cons_of_ne_nil (splitList_ne_nil sep s)
      simp only [splitList, hc, if_false, hfo, List.mem_cons] at h
      rcases h with rfl | h
      · have hf := not_mem_of_mem_splitList (s := s) (by rw [hfo]; exact List.mem_cons_self)
        simp [Ne.symm hc, hf]
      · exact not_mem_of_mem_splitList (s := s) (by rw [hfo]; exact List.mem_cons_of_mem _ h)

/-- Every character other than the separator lies in some segment. -/
theorem mem_splitList_of_mem {c : Char} (hc : c ≠ sep) :
    ∀ {s : List Char}, c ∈ s → ∃ seg ∈ splitList sep s, c ∈ seg
  | d :: s, h => by
    obtain ⟨f, os, hfo⟩ := List.exists_cons_of_ne_nil (splitList_ne_nil sep s)
    by_cases hd : d = sep
    · rcases List.mem_cons.1 h with rfl | h
      · exact absurd hd hc
      · obtain ⟨seg, hseg, hcs⟩ := mem_splitList_of_mem hc h
        exact ⟨seg, by simp [splitList, hd, hseg], hcs⟩
    · have hsplit : splitList sep (d :: s) = (d :: f) :: os := by simp [splitList, hd, hfo]
      rw [hsplit]
      rcases List.mem_cons.1 h with rfl | h
      · exact ⟨c :: f, List.mem_cons_self, List.mem_cons_self⟩
      · obtain ⟨seg, hseg, hcs⟩ := mem_splitList_of_mem hc h
        rw [hfo, List.mem_cons] at hseg
        rcases hseg with rfl | hseg
        · exact ⟨d :: seg, List.mem_cons_self, List.mem_cons_of_mem _ hcs⟩
        · exact ⟨seg, List.mem_cons_of_mem _ hseg, hcs⟩

/-- Where empty segments come from: an empty segment is an empty text, a separator at either
end, or two separators in a row; one after the first segment is a separator at the end or two
in a row. -/
theorem nil_mem_splitList : ∀ s : List Char,
    ([] ∈ splitList sep s →
      s = [] ∨ s.head? = some sep ∨ s.getLast? = some sep ∨ [sep, sep] <:+: s) ∧
    ([] ∈ (splitList sep s).tail → s.getLast? = some sep ∨ [sep, sep] <:+: s)
  | [] => by simp [splitList]
  | c :: rest => by
    obtain ⟨ih₁, ih₂⟩ := nil_mem_splitList rest
    -- a break at the end of the rest, or inside it, is one of the whole text
    have hlift : rest.getLast? = some sep ∨ [sep, sep] <:+: rest →
        (c :: rest).getLast? = some sep ∨ [sep, sep] <:+: c :: rest := by
      rintro (h | h)
      · left
        cases rest with
        | nil => simp at h
        | cons d t => simpa [List.getLast?_cons_cons] using h
      · exact .inr (h.trans (List.suffix_cons c rest).isInfix)
    by_cases hc : c = sep
    · subst hc
      simp only [splitList, if_true, List.mem_cons, List.tail_cons, true_or, List.head?_cons,
        or_true, implies_true, true_and]
      intro h
      rcases ih₁ h with rfl | hh | hq
      · simp
      · obtain ⟨t, rfl⟩ : ∃ t, rest = c :: t := by
          cases rest with
          | nil => simp at hh
          | cons d t => exact ⟨t, by simpa using hh⟩
        exact .inr ⟨[], t, rfl⟩
      · exact hlift hq
    · obtain ⟨f, os, hfo⟩ := List.exists_cons_of_ne_nil (splitList_ne_nil sep rest)
      have hsplit : splitList sep (c :: rest) = (c :: f) :: os := by simp [splitList, hc, hfo]
      have htail : [] ∈ os → (c :: rest).getLast? = some sep ∨ [sep, sep] <:+: c :: rest :=
        fun h => hlift (ih₂ (by rw [hfo]; exact h))
      rw [hsplit]
      refine ⟨fun h => ?_, htail⟩
      rcases List.mem_cons.1 h with h | h
      · cases h
      · exact .inr (.inr (htail h))

end Split

theorem listInfix_iff {pat : List Char} : ∀ {cs : List Char}, listInfix pat cs = true ↔ pat <:+: cs
  | [] => by simp [listInfix, List.infix_nil]
  | c :: rest => by
    simp only [listInfix, Bool.or_eq_true, List.isPrefixOf_iff_prefix, listInfix_iff,
      List.infix_cons_iff]

theorem joinWith_cons_cons (sep a b : String) (rest : List String) :
    joinWith sep (a :: b :: rest) = a ++ sep ++ joinWith sep (b :: rest) := rfl

theorem joinWith_append_head (sep a b : String) (rest : List String) :
    joinWith sep ((a ++ b) :: rest) = a ++ joinWith sep (b :: rest) := by
  cases rest with
  | nil => rfl
  | cons x rest => simp [joinWith_cons_cons, String.append_assoc]

/-- Joining the segments of a text gives it back. -/
theorem joinWith_splitOn (s : String) : joinWith "/" (splitOn '/' s) = s := by
  rw [← String.toList_inj]
  unfold splitOn
  generalize s.toList = cs
  induction cs with
  | nil => rfl
  | cons c cs ih =>
    obtain ⟨f, os, hfo⟩ := List.exists_cons_of_ne_nil (splitList_ne_nil '/' cs)
    rw [hfo, List.map_cons] at ih
    by_cases hc : c = '/'
    · subst hc
      simp only [splitList, if_true, hfo, List.map_cons, String.ofList_nil]
      rw [joinWith_cons_cons]
      simp [ih]
    · simp only [splitList, hc, if_false, hfo, List.map_cons]
      have hsplit : String.ofList (c :: f) = String.ofList [c] ++ String.ofList f := by
        rw [← String.ofList_append]
        rfl
      rw [hsplit, joinWith_append_head, String.toList_append, ih]
      simp

/-- Splitting a join of slash-free segments gives them back. -/
theorem splitOn_joinWith : ∀ {segs : List String}, segs ≠ [] → (∀ s ∈ segs, '/' ∉ s.toList) →
    splitOn '/' (joinWith "/" segs) = segs
  | [s], _, h => by
    simp [splitOn, joinWith, splitList_of_not_mem (h s List.mem_cons_self)]
  | s :: t :: rest, _, h => by
    have ih : splitOn '/' (joinWith "/" (t :: rest)) = t :: rest :=
      splitOn_joinWith (List.cons_ne_nil _ _) fun x hx => h x (List.mem_cons_of_mem _ hx)
    have hs := h s List.mem_cons_self
    unfold splitOn at ih ⊢
    rw [joinWith_cons_cons, String.toList_append, String.toList_append,
      show "/".toList = ['/'] from rfl, List.append_assoc, List.singleton_append,
      splitList_append_sep, splitList_of_not_mem hs, List.map_append, ih]
    simp

/-- Splitting at a slash splits both sides. -/
theorem splitOn_append_slash (a b : String) :
    splitOn '/' (a ++ "/" ++ b) = splitOn '/' a ++ splitOn '/' b := by
  unfold splitOn
  rw [String.toList_append, String.toList_append, show "/".toList = ['/'] from rfl,
    List.append_assoc, List.singleton_append, splitList_append_sep, List.map_append]

/-! ## The last separator -/

theorem findIdx?_sep {sep : Char} {a b : List Char} (ha : sep ∉ a) :
    (a ++ sep :: b).findIdx? (· = sep) = some a.length := by
  induction a with
  | nil => simp [List.findIdx?_cons]
  | cons c a ih =>
    have hc : c ≠ sep := fun e => ha (e ▸ List.mem_cons_self)
    simp [List.findIdx?_cons, hc, ih fun h => ha (List.mem_cons_of_mem _ h)]

theorem splitFirst_ofList {sep : Char} {a b : List Char} (ha : sep ∉ a) :
    splitFirst sep (String.ofList (a ++ sep :: b)) = some (String.ofList a, String.ofList b) := by
  simp [splitFirst, findIdx?_sep ha]

theorem splitFirst_none {sep : Char} {s : String} (h : sep ∉ s.toList) : splitFirst sep s = none := by
  simp only [splitFirst]
  have hnone : s.toList.findIdx? (· = sep) = none :=
    List.findIdx?_eq_none_iff.2 fun x hx => decide_eq_false fun (e : x = sep) => h (e ▸ hx)
  rw [hnone]

theorem splitLast_ofList {sep : Char} {a b : List Char} (hb : sep ∉ b) :
    splitLast sep (String.ofList (a ++ sep :: b)) = some (String.ofList a, String.ofList b) := by
  have hrev : (a ++ sep :: b).reverse = b.reverse ++ sep :: a.reverse := by simp
  simp only [splitLast, String.toList_ofList, hrev]
  rw [splitFirst_ofList (by simpa using hb)]
  simp

theorem splitLast_none {sep : Char} {s : String} (h : sep ∉ s.toList) : splitLast sep s = none := by
  simp only [splitLast]
  rw [splitFirst_none (by simpa using h)]

/-- A list holding a character splits at its last occurrence. -/
theorem exists_last_sep {sep : Char} : ∀ {l : List Char}, sep ∈ l →
    ∃ a b, l = a ++ sep :: b ∧ sep ∉ b
  | c :: l, h => by
    by_cases hl : sep ∈ l
    · obtain ⟨a, b, rfl, hb⟩ := exists_last_sep hl
      exact ⟨c :: a, b, rfl, hb⟩
    · rcases List.mem_cons.1 h with rfl | h
      · exact ⟨[], l, rfl, hl⟩
      · exact absurd h hl

end DataCatalog.Text

namespace DataCatalog.Storage

open DataCatalog.Text

/-! ## Joining and cutting relative paths -/

section Rel

variable {p a : String}

theorem joinRel_empty (a : String) : joinRel "" a = a := rfl

theorem joinRel_of_ne (hp : p ≠ "") : joinRel p a = p ++ "/" ++ a := by
  simp [joinRel, String.isEmpty_iff, hp]

theorem splitLast_append_slash (ha : '/' ∉ a.toList) :
    splitLast '/' (p ++ "/" ++ a) = some (p, a) := by
  have hs : p ++ "/" ++ a = String.ofList (p.toList ++ '/' :: a.toList) := by
    rw [← String.toList_inj]
    simp [show "/".toList = ['/'] from rfl]
  rw [hs, splitLast_ofList ha, String.ofList_toList, String.ofList_toList]

/-- The directory of `p/a` is `p`, for a slash-free `a`. -/
theorem parentDir_joinRel (ha : '/' ∉ a.toList) : parentDir (joinRel p a) = p := by
  by_cases hp : p = ""
  · subst hp
    simp [joinRel_empty, parentDir, splitLast_none ha]
  · simp [joinRel_of_ne hp, parentDir, splitLast_append_slash ha]

/-- The last segment of `p/a` is `a`, for a slash-free `a`. -/
theorem baseName_joinRel (ha : '/' ∉ a.toList) : baseName (joinRel p a) = a := by
  by_cases hp : p = ""
  · subst hp
    simp [joinRel_empty, baseName, splitLast_none ha]
  · simp [joinRel_of_ne hp, baseName, splitLast_append_slash ha]

theorem length_lt_joinRel (ha : a ≠ "") : p.length < (joinRel p a).length := by
  by_cases hp : p = ""
  · subst hp
    rw [joinRel_empty, ← String.length_toList]
    exact List.length_pos_iff.2 (by rwa [Ne, String.toList_eq_nil_iff])
  · rw [joinRel_of_ne hp]
    have : "/".length = 1 := rfl
    simp only [String.length_append, this]
    omega

theorem joinRel_ne_empty (ha : a ≠ "") : joinRel p a ≠ "" := by
  intro h
  have := length_lt_joinRel (p := p) ha
  rw [h] at this
  simp at this

/-- A path that does not begin with a slash is its directory joined to its last segment. -/
theorem joinRel_parentDir_baseName {rel : String} (h : rel.toList.head? ≠ some '/') :
    joinRel (parentDir rel) (baseName rel) = rel := by
  by_cases hs : '/' ∈ rel.toList
  · obtain ⟨d, b, hrel, hb⟩ := exists_last_sep hs
    have hsplit : splitLast '/' rel = some (String.ofList d, String.ofList b) := by
      rw [← splitLast_ofList hb, ← hrel, String.ofList_toList]
    have hd : String.ofList d ≠ "" := by
      intro hd
      rw [String.ofList_eq_empty_iff] at hd
      subst hd
      simp [hrel] at h
    rw [parentDir, baseName, hsplit, joinRel_of_ne hd, ← String.toList_inj]
    simp [hrel, show "/".toList = ['/'] from rfl]
  · simp [parentDir, baseName, splitLast_none hs, joinRel_empty]

end Rel

/-! ## Normal paths -/

/-- A path none of whose `/`-separated segments is empty. -/
def IsNormal (s : String) : Prop := ∀ seg ∈ splitOn '/' s, seg ≠ ""

theorem IsNormal.ne_empty {s : String} (h : IsNormal s) : s ≠ "" := by
  rintro rfl
  exact h "" (by simp [splitOn, splitList]) rfl

theorem IsNormal.head {s : String} (h : IsNormal s) : s.toList.head? ≠ some '/' := by
  intro hs
  obtain ⟨t, ht⟩ : ∃ t, s.toList = '/' :: t := by
    cases hl : s.toList with
    | nil => simp [hl] at hs
    | cons c t =>
      simp only [hl, List.head?_cons, Option.some.injEq] at hs
      exact ⟨t, hs ▸ rfl⟩
  apply h ""
  · unfold splitOn
    rw [ht, show '/' :: t = [] ++ '/' :: t from rfl, splitList_append_sep]
    simp [splitList]
  · rfl

/-- The normal form of a key: empty, or a normal path. -/
theorem normalizeKey_normal (k : String) : normalizeKey k = "" ∨ IsNormal (normalizeKey k) := by
  unfold normalizeKey
  generalize hsegs : (splitOn '/' k).filter (!·.isEmpty) = segs
  cases segs with
  | nil => exact .inl rfl
  | cons s rest =>
    right
    have hsub : ∀ x ∈ s :: rest, x ∈ splitOn '/' k ∧ x ≠ "" := by
      intro x hx
      rw [← hsegs, List.mem_filter] at hx
      simpa [String.isEmpty_iff] using hx
    intro seg hseg
    rw [splitOn_joinWith (List.cons_ne_nil _ _)] at hseg
    · exact (hsub seg hseg).2
    · intro x hx
      obtain ⟨hk, -⟩ := hsub x hx
      obtain ⟨cs, hcs, rfl⟩ := List.mem_map.1 hk
      simpa using not_mem_of_mem_splitList hcs

/-- A normal path is its own normal form. -/
theorem IsNormal.normalizeKey {s : String} (h : IsNormal s) : normalizeKey s = s := by
  unfold Storage.normalizeKey
  rw [List.filter_eq_self.2 fun x hx => by simpa [String.isEmpty_iff] using h x hx,
    joinWith_splitOn]

theorem normalizeKey_normalizeKey (k : String) : normalizeKey (normalizeKey k) = normalizeKey k := by
  rcases normalizeKey_normal k with h | h
  · rw [h]
    rfl
  · exact h.normalizeKey

/-- A path that neither begins nor ends with a slash and has no two slashes in a row has no
empty segment, unless it is empty. -/
theorem isNormal_of_unbroken {s : String} (hne : s ≠ "") (hp : hasPrefix s "/" = false)
    (hs : hasSuffix s "/" = false) (hi : hasInfix s "//" = false) : IsNormal s := by
  intro seg hseg hempty
  obtain ⟨cs, hcs, rfl⟩ := List.mem_map.1 hseg
  obtain rfl : cs = [] := by simpa using congrArg String.toList hempty
  rcases (nil_mem_splitList s.toList).1 hcs with h | h | h | h
  · exact hne (String.toList_eq_nil_iff.1 h)
  · cases hl : s.toList with
    | nil => simp [hl] at h
    | cons d t =>
      simp only [hl, List.head?_cons, Option.some.injEq] at h
      simp [hasPrefix, hl, h] at hp
  · rw [← List.head?_reverse] at h
    cases hl : s.toList.reverse with
    | nil => simp [hl] at h
    | cons d t =>
      simp only [hl, List.head?_cons, Option.some.injEq] at h
      simp [hasSuffix, hl, h] at hs
  · rw [hasInfix, show "//".toList = ['/', '/'] from rfl] at hi
    exact Bool.eq_false_iff.1 hi (listInfix_iff.2 h)

/-- Dropping empty segments with the fast path gives what splitting, filtering and joining
gives: the path the fast path returns unchanged has no empty segment to drop. -/
theorem collapseEmptySegments_eq_normalizeKey (rel : String) :
    collapseEmptySegments rel = normalizeKey rel := by
  unfold collapseEmptySegments
  split
  · rename_i h
    simp only [Bool.and_eq_true, Bool.not_eq_true'] at h
    by_cases he : rel = ""
    · subst he
      rfl
    · exact (isNormal_of_unbroken he h.1.1 h.1.2 h.2).normalizeKey.symm
  · rfl

/-- The directory of a normal path holding a slash is normal. -/
theorem IsNormal.parentDir {rel : String} (h : IsNormal rel) (hs : '/' ∈ rel.toList) :
    IsNormal (parentDir rel) := by
  obtain ⟨d, b, hrel, hb⟩ := exists_last_sep hs
  have hsplit : splitLast '/' rel = some (String.ofList d, String.ofList b) := by
    rw [← splitLast_ofList hb, ← hrel, String.ofList_toList]
  have hjoin : rel = String.ofList d ++ "/" ++ String.ofList b := by
    rw [← String.toList_inj]
    simp [hrel, show "/".toList = ['/'] from rfl]
  rw [Storage.parentDir, hsplit]
  intro seg hseg
  exact h seg (by rw [hjoin, splitOn_append_slash]; exact List.mem_append_left _ hseg)

/-- A normal path without a slash has the empty directory. -/
theorem parentDir_of_not_mem {rel : String} (hs : '/' ∉ rel.toList) : parentDir rel = "" := by
  simp [Storage.parentDir, splitLast_none hs]

/-! ## Walking down to a path -/

/-- Joining non-empty segments one at a time is joining them all at once. -/
theorem foldl_joinRel : ∀ (cur : String) {segs : List String}, segs ≠ [] → (∀ s ∈ segs, s ≠ "") →
    segs.foldl joinRel cur = joinRel cur (joinWith "/" segs)
  | cur, [s], _, _ => rfl
  | cur, s :: t :: rest, _, h => by
    have hs := h s List.mem_cons_self
    rw [List.foldl_cons, foldl_joinRel (joinRel cur s) (List.cons_ne_nil _ _)
      fun x hx => h x (List.mem_cons_of_mem _ hx), joinRel_of_ne (joinRel_ne_empty hs),
      joinWith_cons_cons]
    by_cases hc : cur = ""
    · subst hc
      simp only [joinRel_empty]
    · simp only [joinRel_of_ne hc, String.append_assoc]

/-- The segments walked from `base` down to a normal path below it. -/
def walkSuffix (base rel : String) : String :=
  if base.isEmpty then rel else Text.dropChars rel (base.length + 1)

theorem walkSuffix_append {base rel : String} (hb : base ≠ "") (hw : isWithin base rel = true)
    (hne : rel ≠ base) : rel = base ++ "/" ++ walkSuffix base rel := by
  simp only [isWithin, String.isEmpty_iff, hb, Bool.or_eq_true, beq_iff_eq, hne] at hw
  simp only [false_or, Text.hasPrefix] at hw
  obtain ⟨t, ht⟩ := List.isPrefixOf_iff_prefix.1 hw
  have hlen : (base ++ "/").toList.length = base.length + 1 := by
    simp [String.length_toList, show "/".toList = ['/'] from rfl]
  have hrel : rel.toList = (base ++ "/").toList ++ t := ht.symm
  rw [← String.toList_inj]
  simp only [walkSuffix, String.isEmpty_iff, hb, if_false, Text.dropChars, String.toList_append,
    String.toList_ofList]
  rw [hrel, ← hlen, List.drop_left]
  simp

/-- Walking down from `base` along the segments of the suffix arrives at the path, through
non-empty slash-free segments. -/
theorem walk_arrives {base rel : String} (hn : IsNormal rel) (hw : isWithin base rel = true)
    (hne : rel ≠ base) :
    (∀ s ∈ splitOn '/' (walkSuffix base rel), s ≠ "" ∧ '/' ∉ s.toList) ∧
      (splitOn '/' (walkSuffix base rel)).foldl joinRel base = rel := by
  have hsegs : ∀ s ∈ splitOn '/' (walkSuffix base rel), s ≠ "" ∧ '/' ∉ s.toList := by
    intro s hs
    refine ⟨?_, ?_⟩
    · by_cases hb : base = ""
      · simp only [walkSuffix, hb, String.isEmpty_iff, if_true] at hs
        exact hn s hs
      · have hmem : s ∈ splitOn '/' rel := by
          rw [walkSuffix_append hb hw hne, splitOn_append_slash]
          exact List.mem_append_right _ hs
        exact hn s hmem
    · obtain ⟨cs, hcs, rfl⟩ := List.mem_map.1 hs
      simpa using not_mem_of_mem_splitList hcs
  refine ⟨hsegs, ?_⟩
  have hne' : splitOn '/' (walkSuffix base rel) ≠ [] := by
    simp [splitOn, splitList_ne_nil]
  rw [foldl_joinRel base hne' fun s hs => (hsegs s hs).1, joinWith_splitOn]
  by_cases hb : base = ""
  · subst hb
    simp [walkSuffix, joinRel_empty]
  · rw [joinRel_of_ne hb, ← walkSuffix_append hb hw hne]

/-! ## Reserved segments -/

section Reserved

variable {a b base rel : String}

/-- A path none of whose `/`-separated segments is reserved. -/
def Unreserved (s : String) : Prop := ∀ seg ∈ splitOn '/' s, seg ∉ reservedSegments

theorem hasReservedSegment_eq_false_iff {s : String} :
    hasReservedSegment s = false ↔ Unreserved s := by
  simp [hasReservedSegment, Unreserved]

theorem unreserved_empty : Unreserved "" := by
  intro seg hseg
  simp only [splitOn, String.toList_empty, splitList, List.map_cons, List.map_nil,
    List.mem_singleton] at hseg
  subst hseg
  decide

theorem unreserved_append_slash : Unreserved (a ++ "/" ++ b) ↔ Unreserved a ∧ Unreserved b := by
  simp only [Unreserved, splitOn_append_slash, List.mem_append, or_imp, forall_and]

/-- A reserved name holds no slash, so a path that is one has it as its only segment. -/
theorem Unreserved.not_mem {s : String} (h : Unreserved s) : s ∉ reservedSegments := by
  intro hs
  have hslash : '/' ∉ s.toList := by
    simp only [reservedSegments, bucketMarker, List.mem_cons, List.not_mem_nil, or_false] at hs
    rcases hs with rfl | rfl <;> decide
  exact h s (by simp [splitOn, splitList_of_not_mem hslash]) hs

/-- A path with a slash is its directory, a slash and its slash-free last segment. -/
theorem exists_parentDir_baseName (hs : '/' ∈ rel.toList) :
    ∃ d b, '/' ∉ b.toList ∧ rel = d ++ "/" ++ b ∧ parentDir rel = d ∧ baseName rel = b := by
  obtain ⟨d, b, hrel, hb⟩ := exists_last_sep hs
  have hsplit : splitLast '/' rel = some (String.ofList d, String.ofList b) := by
    rw [← splitLast_ofList hb, ← hrel, String.ofList_toList]
  refine ⟨String.ofList d, String.ofList b, by simpa using hb, ?_, by rw [parentDir, hsplit],
    by rw [baseName, hsplit]⟩
  rw [← String.toList_inj]
  simp [hrel, show "/".toList = ['/'] from rfl]

theorem Unreserved.parentDir (h : Unreserved rel) : Unreserved (parentDir rel) := by
  by_cases hs : '/' ∈ rel.toList
  · obtain ⟨d, b, -, rfl, hd, -⟩ := exists_parentDir_baseName hs
    rw [hd]
    exact (unreserved_append_slash.1 h).1
  · rw [parentDir_of_not_mem hs]
    exact unreserved_empty

theorem Unreserved.baseName (h : Unreserved rel) : Unreserved (baseName rel) := by
  by_cases hs : '/' ∈ rel.toList
  · obtain ⟨d, b, -, rfl, -, hb⟩ := exists_parentDir_baseName hs
    rw [hb]
    exact (unreserved_append_slash.1 h).2
  · simpa [Storage.baseName, splitLast_none hs] using h

/-- The segments walked from a base down to a path below it are segments of the path. -/
theorem Unreserved.walkSuffix (h : Unreserved rel) (hw : isWithin base rel = true) :
    Unreserved (walkSuffix base rel) := by
  by_cases hb : base = ""
  · simpa [Storage.walkSuffix, hb] using h
  by_cases hne : rel = base
  · subst hne
    have hdrop : Storage.walkSuffix rel rel = "" := by
      simp [Storage.walkSuffix, hb, Text.dropChars, String.length_toList]
    rw [hdrop]
    exact unreserved_empty
  · have hsplit := walkSuffix_append hb hw hne
    rw [hsplit] at h
    exact (unreserved_append_slash.1 h).2

end Reserved

end DataCatalog.Storage
