import Mathlib
import DataCatalog.Proofs.Storage.Flattening
/-!
# Browsing one level agrees with the walk

Browsing a path `B/K` lists the keys below `K/` once and sorts each into one entry: a key whose
rest, leading slashes dropped, holds a slash adds to the prefix entry named by the rest's first
segment (a directory marker creates the entry but adds nothing to it); a key whose rest is one
segment is an object entry of that name; other keys are skipped. The walk of the same path
reads the same listing and drops empty segments instead.

Both come down to the non-empty segments of a key after `K/`. A key that is no marker adds to
the prefix entry `x` exactly when its segments after `K/` are `x` and at least one more, which
is when the walk counts it below the directory `K/x`; and it is an object entry exactly when
its segments after `K/` are one segment, which is when its walk record lies one level below
`K`. So the prefix entries holding some object are the walk's directories one level below `K`,
with the same totals; the object entries are the walk's objects one level below `K`; and a
prefix entry of markers alone counts nothing and has no directory record.
-/

namespace DataCatalog.Storage

open DataCatalog.Text DataCatalog.Time

/-! ## Segments of normal paths -/

/-- Segments as a normal path has them: none empty, none holding a slash. -/
def ProperSegments (T : List String) : Prop := ∀ s ∈ T, s ≠ "" ∧ '/' ∉ s.toList

theorem ProperSegments.sublist {S T : List String} (hT : ProperSegments T) (h : S.Sublist T) :
    ProperSegments S := fun s hs => hT s (h.subset hs)

theorem properSegments_segmentsOf (s : String) : ProperSegments (segmentsOf s) := by
  intro x hx
  refine ⟨fun he => ?_, segmentsOf_slash_free x hx⟩
  have hne := (List.mem_filter.1 hx).2
  simp [he] at hne

/-- Joining proper segments forgets nothing. -/
theorem joinWith_inj {A B : List String} (hA : ProperSegments A) (hB : ProperSegments B)
    (h : joinWith "/" A = joinWith "/" B) : A = B := by
  -- a join of proper segments is empty only for no segment
  have hempty : ∀ {T : List String}, ProperSegments T → T ≠ [] → joinWith "/" T ≠ "" := by
    intro T hT hne
    obtain ⟨x, hx⟩ := List.exists_mem_of_ne_nil T hne
    exact joinWith_ne_empty x hx (hT x hx).1
  by_cases hA0 : A = []
  · subst hA0
    by_contra hB0
    exact hempty hB (Ne.symm hB0) h.symm
  by_cases hB0 : B = []
  · subst hB0
    exact absurd h (hempty hA hA0)
  rw [← splitOn_joinWith hA0 fun s hs => (hA s hs).2, h,
    splitOn_joinWith hB0 fun s hs => (hB s hs).2]

theorem joinWith_concat {S : List String} (hS : ProperSegments S) (x : String) :
    joinWith "/" (S ++ [x]) = joinRel (joinWith "/" S) x := by
  by_cases hS0 : S = []
  · subst hS0
    rfl
  obtain ⟨y, hy⟩ := List.exists_mem_of_ne_nil S hS0
  rw [joinWith_append hS0 (List.cons_ne_nil _ _),
    joinRel_of_ne (joinWith_ne_empty y hy (hS y hy).1)]
  rfl

theorem parentDir_joinWith {T : List String} (hT : ProperSegments T) (hne : T ≠ []) :
    parentDir (joinWith "/" T) = joinWith "/" T.dropLast := by
  have hlast := hT _ (List.getLast_mem hne)
  conv_lhs => rw [← List.dropLast_append_getLast hne]
  rw [joinWith_concat (hT.sublist (List.dropLast_sublist T)), parentDir_joinRel hlast.2]

/-- `r` lies exactly one level below `K`: a non-empty path whose directory is `K`. -/
def OneBelow (K r : String) : Prop := r ≠ "" ∧ parentDir r = K

instance (K r : String) : Decidable (OneBelow K r) := inferInstanceAs (Decidable (_ ∧ _))

/-- Below the join of `S`, the paths one level down join `S` and one segment more. -/
theorem oneBelow_joinWith_iff {S T : List String} {K : String} (hS : ProperSegments S)
    (hT : ProperSegments T) (hK : joinWith "/" S = K) :
    OneBelow K (joinWith "/" T) ↔ ∃ x, T = S ++ [x] := by
  constructor
  · rintro ⟨hne, hp⟩
    have hT0 : T ≠ [] := by
      rintro rfl
      exact hne rfl
    rw [parentDir_joinWith hT hT0, ← hK] at hp
    have hd := joinWith_inj (hT.sublist (List.dropLast_sublist T)) hS hp
    exact ⟨T.getLast hT0, by rw [← hd, List.dropLast_append_getLast hT0]⟩
  · rintro ⟨x, rfl⟩
    have hx := hT x (List.mem_append_right _ (List.mem_singleton_self x))
    refine ⟨joinWith_ne_empty x (List.mem_append_right _ (List.mem_singleton_self x)) hx.1, ?_⟩
    rw [parentDir_joinWith hT (by simp), List.dropLast_concat, hK]

/-! ## Keys below a path -/

section Below

variable {K : String} (hK : K = "" ∨ IsNormal K)
include hK

theorem joinWith_segmentsOf : joinWith "/" (segmentsOf K) = K := by
  rw [← normalizeKey_eq_joinWith]
  rcases hK with rfl | hK
  · rfl
  · exact hK.normalizeKey

theorem joinRel_eq_joinWith (x : String) :
    joinRel K x = joinWith "/" (segmentsOf K ++ [x]) := by
  rw [joinWith_concat (properSegments_segmentsOf K), joinWith_segmentsOf hK]

/-- A path one level below `K` that joins proper segments is `K/x` for one proper segment `x`. -/
theorem OneBelow.eq_joinRel {T : List String} (hT : ProperSegments T)
    (h : OneBelow K (joinWith "/" T)) :
    ∃ x, x ≠ "" ∧ '/' ∉ x.toList ∧ joinWith "/" T = joinRel K x := by
  obtain ⟨x, rfl⟩ :=
    (oneBelow_joinWith_iff (properSegments_segmentsOf K) hT (joinWith_segmentsOf hK)).1 h
  have hx := hT x (List.mem_append_right _ (List.mem_singleton_self x))
  exact ⟨x, hx.1, hx.2, (joinRel_eq_joinWith hK x).symm⟩

end Below

/-- The non-empty segments of a key after `K/` (after nothing, for the empty `K`). -/
def segmentsBelow (K key : String) : List String :=
  segmentsOf (Text.dropChars key (listPrefixOf K).length)

section Listed

variable {K key : String} (hK : K = "" ∨ IsNormal K)
  (hkey : Text.hasPrefix key (listPrefixOf K) = true)
include hK hkey

/-- A key listed below `K/` normalizes to the segments of `K` followed by its own after `K/`. -/
theorem normalizeKey_below :
    normalizeKey key = joinWith "/" (segmentsOf K ++ segmentsBelow K key) := by
  obtain ⟨rel, rfl⟩ := hasPrefix_iff.1 hkey
  rw [segmentsBelow, dropChars_below]
  rcases hK with rfl | hK
  · rfl
  · have hL : listPrefixOf K = K ++ "/" := by
      simp [listPrefixOf, String.isEmpty_iff, hK.ne_empty]
    have hS : segmentsOf K = splitOn '/' K :=
      List.filter_eq_self.2 fun x hx => by simpa [String.isEmpty_iff] using hK x hx
    rw [hL, normalizeKey_eq_joinWith, segmentsOf_below hK, hS]

/-- A listed key lies one level below `K` when it has one segment after `K/`. -/
theorem oneBelow_normalizeKey_iff :
    OneBelow K (normalizeKey key) ↔ ∃ x, segmentsBelow K key = [x] := by
  have hSG : ProperSegments (segmentsOf K ++ segmentsBelow K key) := fun s hs =>
    (List.mem_append.1 hs).elim (properSegments_segmentsOf K s) (properSegments_segmentsOf _ s)
  rw [normalizeKey_below hK hkey,
    oneBelow_joinWith_iff (properSegments_segmentsOf K) hSG (joinWith_segmentsOf hK)]
  simp only [List.append_cancel_left_eq]

/-- A listed key lies below the directory `K/x` when its segments after `K/` are `x` and at
least one more. -/
theorem isDirOf_joinRel_iff {x : String} (hx : x ≠ "") (hx' : '/' ∉ x.toList) :
    IsDirOf (joinRel K x) (normalizeKey key) ↔ ∃ y rest, segmentsBelow K key = x :: y :: rest := by
  have hSG : ProperSegments (segmentsOf K ++ segmentsBelow K key) := fun s hs =>
    (List.mem_append.1 hs).elim (properSegments_segmentsOf K s) (properSegments_segmentsOf _ s)
  have hSx : ProperSegments (segmentsOf K ++ [x]) := fun s hs =>
    (List.mem_append.1 hs).elim (properSegments_segmentsOf K s)
      fun h => (List.mem_singleton.1 h) ▸ ⟨hx, hx'⟩
  rw [joinRel_eq_joinWith hK x, normalizeKey_below hK hkey,
    isDirOf_joinWith_iff fun s hs => (hSG s hs).2]
  constructor
  · rintro ⟨k, hk, hd⟩
    have he := joinWith_inj hSx (hSG.sublist (List.take_sublist _ _)) hd
    -- the directory has the segments of `K` and one more, so it takes one segment after `K/`
    have hlen := congrArg List.length he
    simp only [List.length_append, List.length_singleton, List.length_take] at hlen hk
    obtain rfl : k = (segmentsOf K).length := by omega
    rw [List.take_length_add_append, List.append_cancel_left_eq] at he
    rcases hG : segmentsBelow K key with _ | ⟨g, _ | ⟨y, rest⟩⟩
    · simp [hG] at he
    · simp [hG] at hk
    · simp only [hG, List.take_succ_cons, List.take_zero, List.cons.injEq, and_true] at he
      exact ⟨y, rest, by rw [he]⟩
  · rintro ⟨y, rest, hG⟩
    refine ⟨(segmentsOf K).length, ?_, ?_⟩
    · simp [hG]
    · rw [hG, List.take_length_add_append]
      rfl

end Listed

/-- A directory above a normalized key joins proper segments. -/
theorem IsDirOf.eq_joinWith {d key : String} (h : IsDirOf d (normalizeKey key)) :
    ∃ T, ProperSegments T ∧ d = joinWith "/" T := by
  rw [normalizeKey_eq_joinWith, isDirOf_joinWith_iff segmentsOf_slash_free] at h
  obtain ⟨k, -, rfl⟩ := h
  exact ⟨_, (properSegments_segmentsOf _).sublist (List.take_sublist _ _), rfl⟩

/-! ## Sorting a key into an entry -/

section Chars

theorem exists_first_sep {sep : Char} : ∀ {l : List Char}, sep ∈ l →
    ∃ a b, l = a ++ sep :: b ∧ sep ∉ a
  | c :: l, h => by
    by_cases hc : c = sep
    · exact ⟨[], l, by rw [hc]; rfl, List.not_mem_nil⟩
    · obtain ⟨a, b, rfl, ha⟩ := exists_first_sep ((List.mem_cons.1 h).resolve_left fun e => hc e.symm)
      exact ⟨c :: a, b, rfl, by simp [Ne.symm hc, ha]⟩

/-- A text holding a slash splits at its first slash. -/
theorem splitFirst_of_mem {s : String} (h : '/' ∈ s.toList) :
    ∃ x rest, splitFirst '/' s = some (x, rest) ∧ s = x ++ "/" ++ rest ∧ '/' ∉ x.toList := by
  obtain ⟨a, b, hs, ha⟩ := exists_first_sep h
  refine ⟨String.ofList a, String.ofList b, ?_, ?_, by simpa using ha⟩
  · conv_lhs => rw [← String.ofList_toList (s := s), hs]
    exact splitFirst_ofList ha
  · rw [← String.toList_inj]
    simp [hs, show "/".toList = ['/'] from rfl]

theorem segmentsOf_dropWhile_slash (cs : List Char) :
    segmentsOf (String.ofList (cs.dropWhile (· = '/'))) = segmentsOf (String.ofList cs) := by
  induction cs with
  | nil => rfl
  | cons c cs ih =>
    by_cases hc : c = '/'
    · subst hc
      rw [List.dropWhile_cons_of_pos (by simp), ih]
      simp [segmentsOf, splitOn, splitList]
    · rw [List.dropWhile_cons_of_neg (by simpa using hc)]

theorem segmentsOf_append_slash (a b : String) :
    segmentsOf (a ++ "/" ++ b) = segmentsOf a ++ segmentsOf b := by
  rw [segmentsOf, splitOn_append_slash, List.filter_append]
  rfl

theorem segmentsOf_of_not_mem {s : String} (h : '/' ∉ s.toList) :
    segmentsOf s = if s = "" then [] else [s] := by
  have hsplit : splitOn '/' s = [s] := by simp [splitOn, splitList_of_not_mem h]
  rw [segmentsOf, hsplit]
  by_cases hs : s = "" <;> simp [hs]

/-- A text with a character other than a slash has a non-empty segment. -/
theorem segmentsOf_ne_nil {s : String} {c : Char} (hc : c ∈ s.toList) (h : c ≠ '/') :
    segmentsOf s ≠ [] := by
  obtain ⟨seg, hseg, hcs⟩ := mem_splitList_of_mem h hc
  have hmem : String.ofList seg ∈ segmentsOf s := by
    refine List.mem_filter.2 ⟨List.mem_map_of_mem hseg, ?_⟩
    simpa [String.isEmpty_iff, String.ofList_eq_empty_iff] using List.ne_nil_of_mem hcs
  exact List.ne_nil_of_mem hmem

theorem hasSuffix_slash_iff {s : String} :
    Text.hasSuffix s "/" = true ↔ s.toList.getLast? = some '/' := by
  rw [Text.hasSuffix, show "/".toList.reverse = ['/'] from rfl, ← List.head?_reverse]
  cases s.toList.reverse with
  | nil => simp [List.isPrefixOf]
  | cons c t =>
    simp only [List.isPrefixOf, Bool.and_true, beq_iff_eq, List.head?_cons, Option.some.injEq]
    exact eq_comm

end Chars

/-- The rest of a key after the listing prefix `L`, leading slashes dropped: what browsing sorts
the key by. -/
def browseRelative (L key : String) : String :=
  String.ofList ((Text.dropChars key L.length).toList.dropWhile (· = '/'))

/-- The prefix entry browsing adds a key to: the first segment of its rest, when the rest holds a
slash. -/
def browseDir? (L : String) (o : ListedObject) : Option String :=
  if hasReservedSegment o.key then none
  else (Text.splitFirst '/' (browseRelative L o.key)).map (·.1)

/-- The object entry browsing makes of a key: when its rest is one segment. -/
def browseLeaf? (B L : String) (o : ListedObject) : Option ObjectNode :=
  if hasReservedSegment o.key || (browseRelative L o.key).isEmpty ||
      (Text.splitFirst '/' (browseRelative L o.key)).isSome then none
  else some ⟨browseRelative L o.key, joinBucket B o.key, .object, o.sizeBytes,
    fileType (browseRelative L o.key), o.lastModified, 1⟩

section Relative

variable {L key : String}

theorem segmentsOf_browseRelative (L key : String) :
    segmentsOf (browseRelative L key) = segmentsOf (Text.dropChars key L.length) := by
  rw [browseRelative, segmentsOf_dropWhile_slash, String.ofList_toList]

theorem browseRelative_head (L key : String) : (browseRelative L key).toList.head? ≠ some '/' := by
  rw [browseRelative, String.toList_ofList]
  -- a variable for the rest, so that no step tries to evaluate its characters
  generalize (Text.dropChars key L.length).toList = cs
  have h := List.head?_dropWhile_not (fun c : Char => decide (c = '/')) cs
  intro hs
  rw [hs] at h
  simp at h

/-- A listed key ends as its rest does. -/
theorem exists_toList_eq_browseRelative (hkey : Text.hasPrefix key L = true) :
    ∃ pre, key.toList = pre ++ (browseRelative L key).toList := by
  obtain ⟨raw, rfl⟩ := hasPrefix_iff.1 hkey
  refine ⟨L.toList ++ raw.toList.takeWhile (· = '/'), ?_⟩
  rw [browseRelative, dropChars_below, String.toList_ofList, List.append_assoc,
    List.takeWhile_append_dropWhile, String.toList_append]

/-- A rest holding a slash names a prefix entry by its first segment; unless the key is a
directory marker, more segments follow it. -/
theorem browseRelative_split (hkey : Text.hasPrefix key L = true)
    (h : '/' ∈ (browseRelative L key).toList) :
    ∃ x rest, splitFirst '/' (browseRelative L key) = some (x, rest) ∧ x ≠ "" ∧
      '/' ∉ x.toList ∧ segmentsOf (Text.dropChars key L.length) = x :: segmentsOf rest ∧
      (Text.hasSuffix key "/" = false → segmentsOf rest ≠ []) := by
  obtain ⟨x, rest, hsplit, hrel, hx⟩ := splitFirst_of_mem h
  have hx0 : x ≠ "" := by
    rintro rfl
    apply browseRelative_head L key
    rw [hrel]
    simp [show "/".toList = ['/'] from rfl]
  refine ⟨x, rest, hsplit, hx0, hx, ?_, fun hsuf => ?_⟩
  · rw [← segmentsOf_browseRelative, hrel, segmentsOf_append_slash, segmentsOf_of_not_mem hx,
      if_neg hx0]
    rfl
  -- the key ends as `rest` does, and not with a slash
  obtain ⟨pre, hpre⟩ := exists_toList_eq_browseRelative hkey
  have hlast : key.toList.getLast? ≠ some '/' := fun hl => by
    rw [← hasSuffix_slash_iff] at hl
    rw [hl] at hsuf
    cases hsuf
  rw [hpre, hrel] at hlast
  simp only [String.toList_append, show "/".toList = ['/'] from rfl] at hlast
  by_cases hr : rest.toList = []
  · simp [hr] at hlast
  · obtain ⟨c, hc⟩ := Option.ne_none_iff_exists'.1 (mt List.getLast?_eq_none_iff.1 hr)
    rw [show pre ++ (x.toList ++ ['/'] ++ rest.toList) = pre ++ x.toList ++ ['/'] ++ rest.toList by
      simp, List.getLast?_append_of_ne_nil _ hr, hc] at hlast
    exact segmentsOf_ne_nil (List.mem_of_getLast? hc) fun e => hlast (e ▸ rfl)

/-- A rest without a slash is one object entry, or nothing when empty; a key with such a
non-empty rest is no directory marker. -/
theorem browseRelative_no_split (hkey : Text.hasPrefix key L = true)
    (h : '/' ∉ (browseRelative L key).toList) :
    splitFirst '/' (browseRelative L key) = none ∧
      segmentsOf (Text.dropChars key L.length) =
        (if browseRelative L key = "" then [] else [browseRelative L key]) ∧
      (browseRelative L key ≠ "" → Text.hasSuffix key "/" = false) := by
  refine ⟨splitFirst_none h, by rw [← segmentsOf_browseRelative, segmentsOf_of_not_mem h],
    fun hne => ?_⟩
  obtain ⟨pre, hpre⟩ := exists_toList_eq_browseRelative hkey
  have hr : (browseRelative L key).toList ≠ [] := by simpa [String.toList_eq_nil_iff] using hne
  obtain ⟨c, hc⟩ := Option.ne_none_iff_exists'.1 (mt List.getLast?_eq_none_iff.1 hr)
  rw [Bool.eq_false_iff]
  intro hsuf
  rw [hasSuffix_slash_iff, hpre, List.getLast?_append_of_ne_nil _ hr, hc] at hsuf
  exact h (Option.some.inj hsuf ▸ List.mem_of_getLast? hc)

end Relative

/-- The object entry of a key as the walk names it: by the last segment of its normalized key. -/
def leafOf (B : String) (o : ListedObject) : ObjectNode :=
  ⟨baseName (normalizeKey o.key), joinBucket B o.key, .object, o.sizeBytes,
    fileType (baseName (normalizeKey o.key)), o.lastModified, 1⟩

section Sorting

variable {K : String} {o : ListedObject}

/-- Prefix entries are named by proper segments. -/
theorem browseDir?_proper {L x : String} (hkey : Text.hasPrefix o.key L = true)
    (h : browseDir? L o = some x) : x ≠ "" ∧ '/' ∉ x.toList := by
  unfold browseDir? at h
  split at h
  · cases h
  by_cases hs : '/' ∈ (browseRelative L o.key).toList
  · obtain ⟨x₀, rest, hsplit, hx0, hx, -, -⟩ := browseRelative_split hkey hs
    rw [hsplit, Option.map_some, Option.some.injEq] at h
    subst h
    exact ⟨hx0, hx⟩
  · rw [splitFirst_none hs] at h
    cases h

variable (hkey : Text.hasPrefix o.key (listPrefixOf K) = true)
include hkey

/-- A key that is no marker and has no reserved segment adds to the prefix entry `x` when its
segments after `K/` are `x` and at least one more. -/
theorem browseDir?_eq_some_iff (hres : hasReservedSegment o.key = false)
    (hmark : Text.hasSuffix o.key "/" = false) {x : String} :
    browseDir? (listPrefixOf K) o = some x ↔ ∃ y rest, segmentsBelow K o.key = x :: y :: rest := by
  unfold browseDir?
  rw [if_neg (by simp [hres])]
  by_cases hs : '/' ∈ (browseRelative (listPrefixOf K) o.key).toList
  · obtain ⟨x₀, rest, hsplit, -, -, hsegs, hne⟩ := browseRelative_split hkey hs
    obtain ⟨y, rest', hy⟩ := List.exists_cons_of_ne_nil (hne hmark)
    rw [hsplit, segmentsBelow, hsegs, hy, Option.map_some, Option.some.injEq]
    exact ⟨fun h => ⟨y, rest', by rw [← h]⟩, fun ⟨_, _, h⟩ => (List.cons.inj h).1⟩
  · obtain ⟨hsplit, hsegs, -⟩ := browseRelative_no_split hkey hs
    rw [hsplit, segmentsBelow, hsegs]
    split <;> simp

/-- A key is an object entry when the walk keeps it and its record lies one level below `K`. -/
theorem browseLeaf?_eq (hK : K = "" ∨ IsNormal K) (B : String) :
    browseLeaf? B (listPrefixOf K) o =
      if walkedBelow K o = true ∧ OneBelow K (normalizeKey o.key) then some (leafOf B o)
      else none := by
  unfold browseLeaf?
  by_cases hres : hasReservedSegment o.key = true
  · rw [if_pos (by simp [hres]), if_neg (by simp [walkedBelow, hres])]
  have hres' : hasReservedSegment o.key = false := by simpa using hres
  by_cases hs : '/' ∈ (browseRelative (listPrefixOf K) o.key).toList
  · -- a rest with a slash is no object entry, and its record lies deeper
    obtain ⟨x₀, rest, hsplit, -, -, hsegs, hne⟩ := browseRelative_split hkey hs
    rw [if_pos (by simp [hsplit]), if_neg]
    rintro ⟨hw, hone⟩
    have hmark : Text.hasSuffix o.key "/" = false := by
      simp only [walkedBelow, Bool.and_eq_true, Bool.not_eq_true'] at hw
      exact hw.1.2
    obtain ⟨x, hx⟩ := (oneBelow_normalizeKey_iff hK hkey).1 hone
    rw [segmentsBelow, hsegs, List.cons.injEq] at hx
    exact hne hmark hx.2
  obtain ⟨hsplit, hsegs, hmark⟩ := browseRelative_no_split hkey hs
  by_cases he : browseRelative (listPrefixOf K) o.key = ""
  · -- an empty rest is skipped, and its record is `K` itself
    rw [if_pos (by simp [he]), if_neg]
    rintro ⟨-, hone⟩
    obtain ⟨x, hx⟩ := (oneBelow_normalizeKey_iff hK hkey).1 hone
    rw [segmentsBelow, hsegs, if_pos he] at hx
    cases hx
  -- a rest of one segment is an object entry named by it
  have hone : segmentsBelow K o.key = [browseRelative (listPrefixOf K) o.key] := by
    rw [segmentsBelow, hsegs, if_neg he]
  have hwalk : walkedBelow K o = true := by simp [walkedBelow, hkey, hmark he, hres']
  have hbase : baseName (normalizeKey o.key) = browseRelative (listPrefixOf K) o.key := by
    rw [normalizeKey_below hK hkey, hone, ← joinRel_eq_joinWith hK, baseName_joinRel hs]
  rw [if_neg (by simp [hres', String.isEmpty_iff, he, hsplit]),
    if_pos ⟨hwalk, (oneBelow_normalizeKey_iff hK hkey).2 ⟨_, hone⟩⟩, leafOf, hbase]

end Sorting

/-! ## The prefix table -/

/-- One key added to a prefix entry: a directory marker leaves it, any other key adds its size
and one to the count. -/
def bumpPrefix (o : ListedObject) (n : ObjectNode) : ObjectNode :=
  if Text.hasSuffix o.key "/" then n
  else { n with sizeBytes := Word.wrap (n.sizeBytes + o.sizeBytes), objectCount := n.objectCount + 1,
                lastModified := Instant.maxOpt n.lastModified o.lastModified }

theorem addToPrefix_eq (B L d : String) (o : ListedObject) : ∀ T : List ObjectNode,
    addToPrefix B L d o T = upsertSorted (·.name) d (freshPrefix B L d o) (bumpPrefix o) T
  | [] => rfl
  | n :: rest => by
    unfold addToPrefix upsertSorted
    rw [addToPrefix_eq B L d o rest]
    rfl

/-- The prefix entry `n` named `d` tallies the keys `xs` that are no directory markers: their
number and their wrapping total size. -/
structure Tallies (d : String) (n : ObjectNode) (xs : List ListedObject) : Prop where
  name : n.name = d
  kind : n.kind = .keyPrefix
  size : n.sizeBytes =
    Word.wrappingSum ((xs.filter fun o => !Text.hasSuffix o.key "/").map (·.sizeBytes))
  count : n.objectCount = ((xs.filter fun o => !Text.hasSuffix o.key "/").length : Int)

theorem tallies_freshPrefix (B L d : String) {o : ListedObject}
    (hfit : Word.fits o.sizeBytes = true) : Tallies d (freshPrefix B L d o) [o] := by
  unfold freshPrefix
  by_cases hm : Text.hasSuffix o.key "/" = true
  · rw [if_pos hm]
    refine ⟨rfl, rfl, ?_, ?_⟩ <;> simp [hm]
    rfl
  · rw [if_neg hm]
    refine ⟨rfl, rfl, ?_, ?_⟩ <;> simp [hm, wrappingSum_eq, Word.wrap_of_fits hfit]

/-- Adding a key to an entry keeps it tallying the keys added so far. -/
theorem Tallies.bump {d : String} {n : ObjectNode} {xs : List ListedObject} (h : Tallies d n xs)
    (o : ListedObject) : Tallies d (bumpPrefix o n) (xs ++ [o]) := by
  unfold bumpPrefix
  by_cases hm : Text.hasSuffix o.key "/" = true
  · have hf : ((xs ++ [o]).filter fun o => !Text.hasSuffix o.key "/") =
        xs.filter fun o => !Text.hasSuffix o.key "/" := by simp [List.filter_append, hm]
    rw [if_pos hm]
    exact ⟨h.name, h.kind, by rw [hf]; exact h.size, by rw [hf]; exact h.count⟩
  · have hf : ((xs ++ [o]).filter fun o => !Text.hasSuffix o.key "/") =
        (xs.filter fun o => !Text.hasSuffix o.key "/") ++ [o] := by simp [List.filter_append, hm]
    rw [if_neg hm]
    refine ⟨h.name, h.kind, ?_, ?_⟩
    · simp [hf, h.size, wrappingSum_eq]
    · simp [hf, h.count]

section Entries

variable (B L d : String)

theorem foldEntry_tallies : ∀ (ys xs : List ListedObject) (n : ObjectNode), Tallies d n xs →
    ∃ n', foldEntry (fun x : String × ListedObject => freshPrefix B L x.1 x.2)
      (fun x => bumpPrefix x.2) (some n) (ys.map (d, ·)) = some n' ∧ Tallies d n' (xs ++ ys)
  | [], xs, n, h => ⟨n, rfl, by simpa using h⟩
  | y :: ys, xs, n, h => by
    obtain ⟨n', hn', ht⟩ := foldEntry_tallies ys (xs ++ [y]) (bumpPrefix y n) (h.bump y)
    exact ⟨n', by simpa [foldEntry] using hn', by simpa using ht⟩

/-- The keys added to one prefix entry leave it tallying them. -/
theorem foldEntry_prefix {ys : List ListedObject} (hfit : ∀ o ∈ ys, Word.fits o.sizeBytes = true)
    (hne : ys ≠ []) :
    ∃ n, foldEntry (fun x : String × ListedObject => freshPrefix B L x.1 x.2)
      (fun x => bumpPrefix x.2) none (ys.map (d, ·)) = some n ∧ Tallies d n ys := by
  obtain ⟨y, ys, rfl⟩ := List.exists_cons_of_ne_nil hne
  obtain ⟨n, hn, ht⟩ := foldEntry_tallies B L d ys [y] _
    (tallies_freshPrefix B L d (hfit y List.mem_cons_self))
  exact ⟨n, by simpa [foldEntry] using hn, by simpa using ht⟩

end Entries

/-- Browsing adds a key to the prefix table, when it names a prefix entry. -/
def browsePrefixes (B L : String) (T : List ObjectNode) (o : ListedObject) : List ObjectNode :=
  (browseDir? L o).elim T fun d => addToPrefix B L d o T

/-- A fold that sorts each key into the prefix table or the object entries keeps them apart. -/
theorem foldl_browse {B L : String}
    {step : List ObjectNode × List ObjectNode → ListedObject → List ObjectNode × List ObjectNode}
    (hstep : ∀ T Ls o, step (T, Ls) o = (browsePrefixes B L T o, Ls ++ (browseLeaf? B L o).toList)) :
    ∀ (xs : List ListedObject) (T Ls : List ObjectNode),
      xs.foldl step (T, Ls) = (xs.foldl (browsePrefixes B L) T, Ls ++ xs.filterMap (browseLeaf? B L))
  | [], T, Ls => by simp
  | o :: xs, T, Ls => by
    rw [List.foldl_cons, hstep, foldl_browse hstep xs, List.foldl_cons, List.filterMap_cons]
    cases browseLeaf? B L o <;> simp

/-- The prefix table folds the contributions `(d, key)` of the keys that name a prefix entry. -/
theorem foldl_browsePrefixes (B L : String) : ∀ (xs : List ListedObject) (T : List ObjectNode),
    xs.foldl (browsePrefixes B L) T =
      (xs.filterMap fun o => (browseDir? L o).map (·, o)).foldl
        (fun T x => upsertSorted (·.name) x.1 (freshPrefix B L x.1 x.2) (bumpPrefix x.2) T) T
  | [], _ => rfl
  | o :: xs, T => by
    rw [List.foldl_cons, List.filterMap_cons, foldl_browsePrefixes B L xs]
    unfold browsePrefixes
    cases browseDir? L o <;> simp [addToPrefix_eq]

theorem filter_prefixContributions (L x : String) : ∀ xs : List ListedObject,
    (xs.filterMap fun o => (browseDir? L o).map (·, o)).filter (fun c => c.1 = x) =
      (xs.filter fun o => browseDir? L o = some x).map (x, ·)
  | [] => rfl
  | o :: xs => by
    rw [List.filterMap_cons, List.filter_cons]
    rcases h : browseDir? L o with _ | d
    · simp [filter_prefixContributions L x xs]
    · by_cases hd : d = x
      · subst hd
        simp [filter_prefixContributions L d xs]
      · simp [hd, filter_prefixContributions L x xs]

/-- The prefix table of a listing: sorted strictly by name, one entry for each name some key
adds to, tallying the keys added to it. -/
theorem prefixTable_spec (B L : String) {xs : List ListedObject}
    (hfit : ∀ o ∈ xs, Word.fits o.sizeBytes = true) :
    (xs.foldl (browsePrefixes B L) []).Pairwise (·.name < ·.name) ∧
      (∀ x, x ∈ (xs.foldl (browsePrefixes B L) []).map (·.name) ↔
        ∃ o ∈ xs, browseDir? L o = some x) ∧
      ∀ n ∈ xs.foldl (browsePrefixes B L) [],
        Tallies n.name n (xs.filter fun o => browseDir? L o = some n.name) := by
  have hname : ∀ x : String × ListedObject, (freshPrefix B L x.1 x.2).name = x.1 := by
    intro x
    unfold freshPrefix
    split <;> rfl
  have hbump : ∀ (x : String × ListedObject) (n : ObjectNode), (bumpPrefix x.2 n).name = n.name := by
    intro x n
    unfold bumpPrefix
    split <;> rfl
  obtain ⟨hs, hentry⟩ := @foldl_upsertSorted ObjectNode (String × ListedObject) (·.name) (·.1)
    (fun x => freshPrefix B L x.1 x.2) (fun x => bumpPrefix x.2) hname hbump
    (xs.filterMap fun o => (browseDir? L o).map (·, o)) [] List.Pairwise.nil
  rw [← foldl_browsePrefixes] at hs hentry
  -- the entry of `x` folds the keys that add to `x`
  have hat : ∀ x, entryAt (·.name) (xs.foldl (browsePrefixes B L) []) x =
      foldEntry (fun x : String × ListedObject => freshPrefix B L x.1 x.2) (fun x => bumpPrefix x.2)
        none ((xs.filter fun o => browseDir? L o = some x).map (x, ·)) := by
    intro x
    rw [hentry, filter_prefixContributions]
    rfl
  have hfit' : ∀ x, ∀ o ∈ xs.filter (fun o => browseDir? L o = some x),
      Word.fits o.sizeBytes = true := fun x o ho => hfit o (List.mem_filter.1 ho).1
  refine ⟨hs, fun x => ?_, fun n hn => ?_⟩
  · rw [mem_keys_iff_entryAt, hat]
    by_cases hnil : (xs.filter fun o => browseDir? L o = some x) = []
    · rw [hnil]
      simp only [List.map_nil, List.filter_eq_nil_iff, decide_eq_true_eq] at hnil ⊢
      exact ⟨fun h => absurd h (by simp [foldEntry]), fun ⟨o, ho, hd⟩ => absurd hd (hnil o ho)⟩
    · obtain ⟨n, hn, -⟩ := foldEntry_prefix B L x (hfit' x) hnil
      rw [hn]
      obtain ⟨o, ho⟩ := List.exists_mem_of_ne_nil _ hnil
      simp only [Option.isSome_some, true_iff]
      exact ⟨o, (List.mem_filter.1 ho).1, by simpa using (List.mem_filter.1 ho).2⟩
  · have h := (entryAt_of_mem hs hn).symm.trans (hat n.name)
    by_cases hnil : (xs.filter fun o => browseDir? L o = some n.name) = []
    · rw [hnil] at h
      cases h
    · obtain ⟨n', hn', ht⟩ := foldEntry_prefix B L n.name (hfit' n.name) hnil
      rw [hn', Option.some.injEq] at h
      rw [h]
      exact h ▸ ht

/-! ## The walk one level down -/

/-- Every record of a walk but the bucket's own is named by the last segment of its path. -/
theorem scanBucket_names {side side' : ObjectSide} {R : List (String × String)} {B K : String}
    {os : List ListedObject} {records : List ObjectRecord} (hon : side.store.offline = false)
    (hok : side.store.failures.lookup B = none) (hos : side.store.buckets.lookup B = some os)
    (h : (ExceptT.run (scanBucket R B K)).run side = (.ok records, side')) :
    ∀ r ∈ records, r.kind ≠ .bucket → r.name = baseName r.relativePath := by
  obtain ⟨s', hlist, -⟩ := listObjects_answers hon hok hos (listPrefixOf K)
  unfold scanBucket at h
  dsimp only at h
  rw [show (if K.isEmpty then "" else K ++ "/") = listPrefixOf K from rfl,
    run_bind_of_ok (onStore_answers hlist)] at h
  have hrec := congrArg Prod.fst h
  change Except.ok _ = Except.ok records at hrec
  injection hrec with hrec
  subst hrec
  intro r hr hk
  simp only [List.mem_cons, List.mem_append, List.mem_map] at hr
  rcases hr with (rfl | ⟨⟨d, size, n⟩, -, rfl⟩) | ⟨o, -, rfl⟩
  · by_cases he : K.isEmpty = true <;> simp [he] at hk ⊢
  · dsimp only
  · simp only [ListedObject.record]

/-- The objects of `os` that a walk below `K` keeps and that lie below the directory `K/x`. -/
def walkedUnder (K x : String) (os : List ListedObject) : List ListedObject :=
  (os.filter (walkedBelow K)).filter fun o => IsDirOf (joinRel K x) (normalizeKey o.key)

section Walk

variable {B K : String} {os : List ListedObject} {root : ObjectRecord} {dirs : List ObjectRecord}
  {objs : List ListedObject} (hrep : WalkReport B K os root dirs objs)
include hrep

theorem WalkReport.under_perm (x : String) :
    (objs.filter fun o => IsDirOf (joinRel K x) (normalizeKey o.key)).Perm (walkedUnder K x os) :=
  hrep.objs_perm.filter _

/-- A directory record one level below `K` is the directory `K/x` of a proper segment `x`, named
`x`, holding the walked objects below it. -/
theorem WalkReport.dir_oneBelow (hK : K = "" ∨ IsNormal K)
    (hnames : ∀ r ∈ dirs, r.name = baseName r.relativePath) {r : ObjectRecord} (hr : r ∈ dirs)
    (hone : OneBelow K r.relativePath) :
    ∃ x, x ≠ "" ∧ '/' ∉ x.toList ∧ r.relativePath = joinRel K x ∧ r.name = x ∧
      walkedUnder K x os ≠ [] ∧
      r.sizeBytes = Word.wrappingSum ((walkedUnder K x os).map (·.sizeBytes)) ∧
      r.objectCount = (walkedUnder K x os).length := by
  obtain ⟨o, ho, hb⟩ := (hrep.dirs_mem r.relativePath).1 (List.mem_map_of_mem hr)
  obtain ⟨T, hT, hd⟩ := hb.2.eq_joinWith
  rw [hd] at hone
  obtain ⟨x, hx0, hx, hjoin⟩ := OneBelow.eq_joinRel hK hT hone
  have hrel : r.relativePath = joinRel K x := hd.trans hjoin
  have hperm := hrep.under_perm x
  refine ⟨x, hx0, hx, hrel, by rw [hnames r hr, hrel, baseName_joinRel hx], fun hnil => ?_, ?_, ?_⟩
  · have hmem : o ∈ walkedUnder K x os :=
      hperm.subset (List.mem_filter.2 ⟨ho, by simpa [← hrel] using hb.2⟩)
    rw [hnil] at hmem
    exact List.not_mem_nil hmem
  · rw [hrep.dirs_size r hr, hrel, wrappingSum_eq, wrappingSum_eq, (hperm.map _).sum_eq]
  · rw [hrep.dirs_count r hr, hrel, hperm.length_eq]

/-- Each directory `K/x` holding a walked object has its record. -/
theorem WalkReport.dir_of_walkedUnder {x : String} (hne : walkedUnder K x os ≠ []) : ∃ r ∈ dirs, r.relativePath = joinRel K x := by
  obtain ⟨o, ho⟩ := List.exists_mem_of_ne_nil _ hne
  obtain ⟨hobj, hdir⟩ := List.mem_filter.1 ((hrep.under_perm x).symm.subset ho)
  have hbetween : Between K (joinRel K x) (normalizeKey o.key) := by
    refine ⟨?_, by simpa using hdir⟩
    by_cases hK0 : K = ""
    · exact .inl hK0
    · exact .inr ⟨x, joinRel_of_ne hK0⟩
  obtain ⟨r, hr, hrel⟩ := List.mem_map.1 ((hrep.dirs_mem _).2 ⟨o, hobj, hbetween⟩)
  exact ⟨r, hr, hrel⟩

end Walk

section Listing

variable {B K : String} {os : List ListedObject} (hK : K = "" ∨ IsNormal K)
include hK

/-- The keys adding to the prefix entry `x` that are no markers are the walked objects below the
directory `K/x`. -/
theorem nonmarkers_browseDir {x : String} (hx0 : x ≠ "") (hx : '/' ∉ x.toList) :
    (((os.filter fun o => Text.hasPrefix o.key (listPrefixOf K)).filter
      fun o => browseDir? (listPrefixOf K) o = some x).filter
        fun o => !Text.hasSuffix o.key "/") = walkedUnder K x os := by
  unfold walkedUnder
  simp only [List.filter_filter]
  refine List.filter_congr fun o _ => ?_
  by_cases hpre : Text.hasPrefix o.key (listPrefixOf K) = true
  · by_cases hres : hasReservedSegment o.key = true
    · have hnone : browseDir? (listPrefixOf K) o = none := by simp [browseDir?, hres]
      simp [hnone, walkedBelow, hres]
    by_cases hm : Text.hasSuffix o.key "/" = true
    · simp [hm, walkedBelow]
    have hres' : hasReservedSegment o.key = false := by simpa using hres
    have hm' : Text.hasSuffix o.key "/" = false := by simpa using hm
    have hiff := (browseDir?_eq_some_iff hpre hres' hm').trans
      (isDirOf_joinRel_iff hK hpre hx0 hx).symm
    simp only [walkedBelow, hpre, hm', hres', Bool.not_false, Bool.and_true, Bool.true_and]
    exact Bool.eq_iff_iff.2 (by simpa using hiff)
  · simp [hpre, walkedBelow]

variable (B) (hfit : ∀ o ∈ os, Word.fits o.sizeBytes = true)
include hfit

/-- The prefix table of browsing below `K`: sorted strictly by name; each entry a prefix named by
a proper segment `x`, holding the number and wrapping total size of the walked objects below
`K/x`; and an entry for each `x` with such objects. -/
theorem browse_prefixEntries :
    ((os.filter fun o => Text.hasPrefix o.key (listPrefixOf K)).foldl
      (browsePrefixes B (listPrefixOf K)) []).Pairwise (·.name < ·.name) ∧
    (∀ n ∈ (os.filter fun o => Text.hasPrefix o.key (listPrefixOf K)).foldl
        (browsePrefixes B (listPrefixOf K)) [],
      n.kind = .keyPrefix ∧ n.name ≠ "" ∧ '/' ∉ n.name.toList ∧
      n.sizeBytes = Word.wrappingSum ((walkedUnder K n.name os).map (·.sizeBytes)) ∧
      n.objectCount = (walkedUnder K n.name os).length) ∧
    ∀ x, x ≠ "" → '/' ∉ x.toList → walkedUnder K x os ≠ [] →
      ∃ n ∈ (os.filter fun o => Text.hasPrefix o.key (listPrefixOf K)).foldl
        (browsePrefixes B (listPrefixOf K)) [], n.name = x := by
  have hfit' : ∀ o ∈ os.filter (fun o => Text.hasPrefix o.key (listPrefixOf K)),
      Word.fits o.sizeBytes = true := fun o ho => hfit o (List.mem_filter.1 ho).1
  obtain ⟨hs, hmem, htally⟩ := prefixTable_spec B (listPrefixOf K) hfit'
  refine ⟨hs, fun n hn => ?_, fun x hx0 hx hne => ?_⟩
  · obtain ⟨o, ho, hd⟩ := (hmem n.name).1 (List.mem_map_of_mem hn)
    obtain ⟨hx0, hx⟩ := browseDir?_proper (by simpa using (List.mem_filter.1 ho).2) hd
    have ht := htally n hn
    rw [← nonmarkers_browseDir hK hx0 hx]
    exact ⟨ht.kind, hx0, hx, ht.size, ht.count⟩
  · obtain ⟨o, ho⟩ := List.exists_mem_of_ne_nil _ hne
    rw [← nonmarkers_browseDir hK hx0 hx] at ho
    obtain ⟨ho, -⟩ := List.mem_filter.1 ho
    obtain ⟨ho, hd⟩ := List.mem_filter.1 ho
    obtain ⟨n, hn, hname⟩ := List.mem_map.1 ((hmem x).2 ⟨o, ho, by simpa using hd⟩)
    exact ⟨n, hn, hname⟩

/-- The prefix entries holding some object, by name, size and count: one for each directory
`K/x` holding walked objects, with their wrapping total size and their number. -/
theorem mem_browsePrefixTriples (t : String × Int × Int) :
    t ∈ (((os.filter fun o => Text.hasPrefix o.key (listPrefixOf K)).foldl
        (browsePrefixes B (listPrefixOf K)) []).filter fun n => 0 < n.objectCount).map
        (fun n => (n.name, n.sizeBytes, n.objectCount)) ↔
      ∃ x, x ≠ "" ∧ '/' ∉ x.toList ∧ walkedUnder K x os ≠ [] ∧
        t = (x, Word.wrappingSum ((walkedUnder K x os).map (·.sizeBytes)),
          ((walkedUnder K x os).length : Int)) := by
  obtain ⟨-, hent, hex⟩ := browse_prefixEntries B hK hfit
  simp only [List.mem_map, List.mem_filter, decide_eq_true_eq]
  constructor
  · rintro ⟨n, ⟨hn, hpos⟩, rfl⟩
    obtain ⟨-, hx0, hx, hsize, hcount⟩ := hent n hn
    refine ⟨n.name, hx0, hx, fun hnil => ?_, by rw [hsize, hcount]⟩
    rw [hcount, hnil] at hpos
    simp at hpos
  · rintro ⟨x, hx0, hx, hne, rfl⟩
    obtain ⟨n, hn, rfl⟩ := hex x hx0 hx hne
    obtain ⟨-, -, -, hsize, hcount⟩ := hent n hn
    refine ⟨n, ⟨hn, ?_⟩, by rw [hsize, hcount]⟩
    rw [hcount]
    exact_mod_cast List.length_pos_iff.2 hne

theorem nodup_browsePrefixTriples :
    ((((os.filter fun o => Text.hasPrefix o.key (listPrefixOf K)).foldl
        (browsePrefixes B (listPrefixOf K)) []).filter fun n => 0 < n.objectCount).map
        (fun n => (n.name, n.sizeBytes, n.objectCount))).Nodup := by
  obtain ⟨hs, -, -⟩ := browse_prefixEntries B hK hfit
  refine List.Nodup.of_map Prod.fst ?_
  rw [List.map_map]
  exact ((List.pairwise_map.2 hs).imp ne_of_lt).sublist (List.filter_sublist.map _)

end Listing

/-! ## Browsing against walking -/

theorem filterMap_ite_eq {α β : Type} (p : α → Prop) [DecidablePred p] (g : α → β) :
    ∀ l : List α, l.filterMap (fun x => if p x then some (g x) else none) =
      (l.filter fun x => p x).map g
  | [] => rfl
  | x :: l => by
    by_cases h : p x <;> simp [h, filterMap_ite_eq p g l]

theorem parentDir_ne_self {K : String} (hK : IsNormal K) : parentDir K ≠ K := by
  intro h
  by_cases hs : '/' ∈ K.toList
  · obtain ⟨d, b, -, hK', hd, -⟩ := exists_parentDir_baseName hs
    have hl := congrArg String.length hK'
    rw [← hd, h] at hl
    have : "/".length = 1 := rfl
    simp only [String.length_append, this] at hl
    omega
  · exact hK.ne_empty ((parentDir_of_not_mem hs).symm.trans h).symm

/-- Browsing entries `nodes` below `K` agree with the records `records` of a walk below `K`, one
level down: the prefix entries holding some object are the directory records, with their names,
sizes and counts; the object entries are the object records, with their names, sizes and file
types; a prefix entry holding no object counts zero and has no directory record. -/
structure BrowseAgrees (K : String) (nodes : List ObjectNode) (records : List ObjectRecord) :
    Prop where
  prefixes : ((nodes.filter fun n => n.kind = .keyPrefix ∧ 0 < n.objectCount).map
      fun n => (n.name, n.sizeBytes, n.objectCount)).Perm
    ((records.filter fun r => r.kind = .keyPrefix ∧ OneBelow K r.relativePath).map
      fun r => (r.name, r.sizeBytes, r.objectCount))
  objects : ((nodes.filter fun n => n.kind = .object).map
      fun n => (n.name, n.sizeBytes, n.fileType)).Perm
    ((records.filter fun r => r.kind = .object ∧ OneBelow K r.relativePath).map
      fun r => (r.name, r.sizeBytes, r.fileType))
  markers : ∀ n ∈ nodes, n.kind = .keyPrefix → 0 ≤ n.objectCount ∧
    (n.objectCount = 0 → ∀ r ∈ records, r.kind = .keyPrefix → OneBelow K r.relativePath →
      r.name ≠ n.name)

section Agree

variable {B K : String} {os : List ListedObject} {root : ObjectRecord} {dirs : List ObjectRecord}
  {objs : List ListedObject} {R : List (String × String)} (hrep : WalkReport B K os root dirs objs)
include hrep

/-- The prefix records of a walk one level below `K` are its directory records one level below. -/
theorem WalkReport.filter_prefixes (hK : K = "" ∨ IsNormal K) :
    ((root :: dirs ++ objs.map (·.record R B)).filter
      fun r => r.kind = .keyPrefix ∧ OneBelow K r.relativePath) =
    dirs.filter fun r => OneBelow K r.relativePath := by
  have hroot : ¬ (root.kind = .keyPrefix ∧ OneBelow K root.relativePath) := by
    rintro ⟨-, hone⟩
    -- the root is `K` itself
    rw [hrep.root_path] at hone
    rcases hK with rfl | hK
    · exact hone.1 rfl
    · exact parentDir_ne_self hK hone.2
  have hobjs : (objs.map (·.record R B)).filter
      (fun r => r.kind = .keyPrefix ∧ OneBelow K r.relativePath) = [] :=
    List.filter_eq_nil_iff.2 fun r hr hq => by
      obtain ⟨o, -, rfl⟩ := List.mem_map.1 hr
      cases (of_decide_eq_true hq).1
  rw [List.cons_append, List.filter_cons, if_neg (by simpa using hroot), List.filter_append, hobjs,
    List.append_nil]
  exact List.filter_congr fun r hr => by simp [(hrep.dirs_kind r hr).1]

/-- The object records of a walk one level below `K` are those of the walked objects whose keys
have one segment after `K/`. -/
theorem WalkReport.filter_objects :
    ((root :: dirs ++ objs.map (·.record R B)).filter
      fun r => r.kind = .object ∧ OneBelow K r.relativePath) =
    (objs.filter fun o => OneBelow K (normalizeKey o.key)).map (·.record R B) := by
  have hnone : (root :: dirs).filter
      (fun r => r.kind = .object ∧ OneBelow K r.relativePath) = [] := by
    refine List.filter_eq_nil_iff.2 fun r hr hq => ?_
    have hk : r.kind = .object := (of_decide_eq_true hq).1
    rcases List.mem_cons.1 hr with rfl | hr
    · rw [hrep.root_kind] at hk
      split at hk <;> cases hk
    · rw [(hrep.dirs_kind r hr).1] at hk
      cases hk
  rw [List.filter_append, hnone, List.nil_append, List.filter_map]
  exact congrArg _ (List.filter_congr fun o _ => by simp [ListedObject.record])

/-- The directory records one level below `K`, by name, size and count: one for each directory
`K/x` holding walked objects, with their wrapping total size and their number. -/
theorem WalkReport.mem_prefixTriples (hK : K = "" ∨ IsNormal K)
    (hnames : ∀ r ∈ dirs, r.name = baseName r.relativePath) (t : String × Int × Int) :
    t ∈ (dirs.filter fun r => OneBelow K r.relativePath).map
        (fun r => (r.name, r.sizeBytes, r.objectCount)) ↔
      ∃ x, x ≠ "" ∧ '/' ∉ x.toList ∧ walkedUnder K x os ≠ [] ∧
        t = (x, Word.wrappingSum ((walkedUnder K x os).map (·.sizeBytes)),
          ((walkedUnder K x os).length : Int)) := by
  simp only [List.mem_map, List.mem_filter, decide_eq_true_eq]
  constructor
  · rintro ⟨r, ⟨hr, hone⟩, rfl⟩
    obtain ⟨x, hx0, hx, -, hname, hne, hsize, hcount⟩ := hrep.dir_oneBelow hK hnames hr hone
    exact ⟨x, hx0, hx, hne, by rw [hname, hsize, hcount]⟩
  · rintro ⟨x, hx0, hx, hne, rfl⟩
    obtain ⟨r, hr, hrel⟩ := hrep.dir_of_walkedUnder hne
    have hone : OneBelow K r.relativePath := by
      rw [hrel]
      exact ⟨joinRel_ne_empty hx0, parentDir_joinRel hx⟩
    obtain ⟨x', -, hx', hrel', hname, -, hsize, hcount⟩ := hrep.dir_oneBelow hK hnames hr hone
    -- the record's segment is `x`, read back from its path
    have hxx : x' = x := by
      rw [← baseName_joinRel (p := K) hx', ← hrel', hrel, baseName_joinRel hx]
    subst hxx
    exact ⟨r, ⟨hr, hone⟩, by rw [hname, hsize, hcount]⟩

/-- Directory records one level below `K` have distinct names. -/
theorem WalkReport.nodup_prefixTriples (hK : K = "" ∨ IsNormal K)
    (hnames : ∀ r ∈ dirs, r.name = baseName r.relativePath) :
    ((dirs.filter fun r => OneBelow K r.relativePath).map
        (fun r => (r.name, r.sizeBytes, r.objectCount))).Nodup := by
  -- a directory record one level below `K` is `K` joined to its name
  have hjoin : ∀ a ∈ (dirs.filter fun r => OneBelow K r.relativePath).map (·.relativePath),
      joinRel K (baseName a) = a := by
    intro a ha
    obtain ⟨r, hr, rfl⟩ := List.mem_map.1 ha
    obtain ⟨hr, hone⟩ := List.mem_filter.1 hr
    obtain ⟨x, -, hx, hrel, -⟩ := hrep.dir_oneBelow hK hnames hr (by simpa using hone)
    rw [hrel, baseName_joinRel hx]
  have hpaths : ((dirs.filter fun r => OneBelow K r.relativePath).map (·.relativePath)).Nodup :=
    (((List.pairwise_map.2 hrep.dirs_sorted).imp ne_of_lt).sublist
      (List.filter_sublist.map _))
  have hnames' : ((dirs.filter fun r => OneBelow K r.relativePath).map
      (fun r => (r.name, r.sizeBytes, r.objectCount))).map Prod.fst =
      ((dirs.filter fun r => OneBelow K r.relativePath).map (·.relativePath)).map baseName := by
    simp only [List.map_map]
    refine List.map_congr_left fun r hr => ?_
    simp only [Function.comp_apply]
    exact hnames r (List.mem_filter.1 hr).1
  refine List.Nodup.of_map Prod.fst ?_
  rw [hnames']
  exact hpaths.map_on fun a ha b hb hab => by rw [← hjoin a ha, hab, hjoin b hb]

/-- The names of a walk's records, read on its directory records. -/
theorem WalkReport.dir_names
    (h : ∀ r ∈ root :: dirs ++ objs.map (·.record R B), r.kind ≠ .bucket →
      r.name = baseName r.relativePath) :
    ∀ r ∈ dirs, r.name = baseName r.relativePath := fun r hr =>
  h r (by simp [hr]) (by rw [(hrep.dirs_kind r hr).1]; decide)

end Agree

/-- Browsing below `K` agrees with the walk below `K` one level down. -/
theorem browse_agrees {B K : String} {os : List ListedObject} {root : ObjectRecord}
    {dirs : List ObjectRecord} {objs : List ListedObject} (hK : K = "" ∨ IsNormal K)
    (hfit : ∀ o ∈ os, Word.fits o.sizeBytes = true) (hrep : WalkReport B K os root dirs objs)
    (hnames : ∀ r ∈ dirs, r.name = baseName r.relativePath) :
    BrowseAgrees K ((((os.filter fun o => Text.hasPrefix o.key (listPrefixOf K)).foldl
          (browsePrefixes B (listPrefixOf K)) []) ++
        (os.filter fun o => Text.hasPrefix o.key (listPrefixOf K)).filterMap
          (browseLeaf? B (listPrefixOf K))).mergeSort fun a b => decide (a.name ≤ b.name))
      (root :: dirs ++ objs.map (·.record R B)) := by
  set xs := os.filter fun o => Text.hasPrefix o.key (listPrefixOf K) with hxs
  set T := xs.foldl (browsePrefixes B (listPrefixOf K)) [] with hT
  set Ls := xs.filterMap (browseLeaf? B (listPrefixOf K)) with hLs
  have hnodes := List.mergeSort_perm (T ++ Ls) fun a b => decide (a.name ≤ b.name)
  obtain ⟨-, hent, -⟩ := browse_prefixEntries B hK hfit
  have hkey : ∀ o ∈ xs, Text.hasPrefix o.key (listPrefixOf K) = true :=
    fun o ho => by simpa using (List.mem_filter.1 ho).2
  -- the object entries are the kept keys whose records lie one level below `K`
  have hleaves : Ls = (xs.filter fun o => walkedBelow K o = true ∧
      OneBelow K (normalizeKey o.key)).map (leafOf B) := by
    rw [hLs, List.filterMap_congr fun o ho => browseLeaf?_eq (hkey o ho) hK B, filterMap_ite_eq]
  have hLkind : ∀ n ∈ Ls, n.kind = .object := by
    intro n hn
    rw [hleaves] at hn
    obtain ⟨o, -, rfl⟩ := List.mem_map.1 hn
    rfl
  have hTkind : ∀ n ∈ T, n.kind = .keyPrefix := fun n hn => (hent n hn).1
  refine ⟨?_, ?_, ?_⟩
  · -- prefix entries holding objects: both sides list each directory `K/x` once
    have hP : ((T ++ Ls).filter fun n => n.kind = .keyPrefix ∧ 0 < n.objectCount) =
        T.filter fun n => 0 < n.objectCount := by
      have hLnil : Ls.filter (fun n => n.kind = .keyPrefix ∧ 0 < n.objectCount) = [] :=
        List.filter_eq_nil_iff.2 fun n hn hq => by
          rw [hLkind n hn] at hq
          simp at hq
      rw [List.filter_append, hLnil, List.append_nil]
      exact List.filter_congr fun n hn => by simp [hTkind n hn]
    refine ((hnodes.filter _).map _).trans ?_
    rw [hP, hrep.filter_prefixes hK]
    refine (List.perm_ext_iff_of_nodup (nodup_browsePrefixTriples B hK hfit)
      (hrep.nodup_prefixTriples hK hnames)).2 fun t => ?_
    rw [mem_browsePrefixTriples B hK hfit, hrep.mem_prefixTriples hK hnames]
  · -- object entries: the same walked objects, in another order
    have hO : ((T ++ Ls).filter fun n => n.kind = .object) = Ls := by
      have hTnil : T.filter (fun n => n.kind = .object) = [] :=
        List.filter_eq_nil_iff.2 fun n hn hq => by
          rw [hTkind n hn] at hq
          simp at hq
      rw [List.filter_append, hTnil, List.nil_append]
      exact List.filter_eq_self.2 fun n hn => by simp [hLkind n hn]
    have hwalked : (xs.filter fun o => walkedBelow K o = true ∧ OneBelow K (normalizeKey o.key)) =
        (os.filter (walkedBelow K)).filter fun o => OneBelow K (normalizeKey o.key) := by
      rw [hxs, List.filter_filter, List.filter_filter]
      refine List.filter_congr fun o _ => ?_
      by_cases hw : walkedBelow K o = true
      · have hp : Text.hasPrefix o.key (listPrefixOf K) = true := by
          simp only [walkedBelow, Bool.and_eq_true] at hw
          exact hw.1.1
        simp [hw, hp]
      · simp [hw]
    refine ((hnodes.filter _).map _).trans ?_
    rw [hO, hrep.filter_objects, hleaves, List.map_map, List.map_map, hwalked]
    exact ((hrep.objs_perm.filter _).map _).symm
  · -- a prefix entry counting nothing has no walked object below it, so no directory record
    intro n hn hk
    have hnT : n ∈ T := by
      rcases List.mem_append.1 (hnodes.subset hn) with h | h
      · exact h
      · rw [hLkind n h] at hk
        cases hk
    obtain ⟨-, -, -, -, hcount⟩ := hent n hnT
    refine ⟨by rw [hcount]; omega, fun hzero r hr hkr hone hname => ?_⟩
    have hlen : (walkedUnder K n.name os).length = 0 := by
      rw [hcount] at hzero
      omega
    have hrd : r ∈ dirs := by
      have hmem : r ∈ (root :: dirs ++ objs.map (·.record R B)).filter
          (fun r => r.kind = .keyPrefix ∧ OneBelow K r.relativePath) :=
        List.mem_filter.2 ⟨hr, by simp [hkr, hone]⟩
      rw [hrep.filter_prefixes hK] at hmem
      exact (List.mem_filter.1 hmem).1
    obtain ⟨x, -, -, -, hx, hne, -⟩ := hrep.dir_oneBelow hK hnames hrd hone
    rw [← hx, hname] at hne
    exact hne (List.length_eq_zero_iff.1 hlen)

section Runs

variable {side : ObjectSide} {P B K : String} {os : List ListedObject}

/-- Browsing a path that names bucket `B` and key `K` sorts the listing below `K/` into the
prefix table and the object entries, and orders them by name. -/
theorem listNodes_lists (hP : splitObjectPath (cleanPath P) = some (B, K))
    (hstable : cleanPath (cleanPath P) = cleanPath P) (hallow : side.Allows B)
    (hon : side.store.offline = false) (hok : side.store.failures.lookup B = none)
    (hos : side.store.buckets.lookup B = some os) :
    ∃ side₁, (ExceptT.run (listNodes P)).run side =
      (.ok ((((os.filter fun o => Text.hasPrefix o.key (listPrefixOf K)).foldl
          (browsePrefixes B (listPrefixOf K)) []) ++
        (os.filter fun o => Text.hasPrefix o.key (listPrefixOf K)).filterMap
          (browseLeaf? B (listPrefixOf K))).mergeSort fun a b => decide (a.name ≤ b.name)),
        side₁) := by
  obtain ⟨hc, hB, -, -⟩ := splitObjectPath_some hP
  rw [hstable] at hc
  obtain ⟨side₁, hsplit, hre₁⟩ := splitAllowed_answers hon hallow hc hB
  obtain ⟨s₂, hlist, -⟩ := listObjects_answers (hre₁.offline.trans hon)
    (by rw [hre₁.failures]; exact hok) (by rw [hre₁.buckets]; exact hos) (listPrefixOf K)
  refine ⟨{ side₁ with store := s₂ }, ?_⟩
  unfold listNodes
  simp only [cleanPath_nonempty_of_split hP, Bool.false_eq_true, if_false]
  rw [run_bind_of_ok hsplit]
  dsimp only
  rw [show (if K.isEmpty then "" else K ++ "/") = listPrefixOf K from rfl,
    run_bind_of_ok (onStore_answers hlist), foldl_browse]
  · rfl
  · -- one step of the listing's fold sorts the key as the two helpers do
    intro T Ls o
    unfold browsePrefixes browseDir? browseLeaf? browseRelative
    by_cases hr : hasReservedSegment o.key = true
    · simp [hr]
    set rel := String.ofList ((Text.dropChars o.key (listPrefixOf K).length).toList.dropWhile
      (· = '/'))
    by_cases he : rel.isEmpty = true
    · have hnone : splitFirst '/' rel = none :=
        splitFirst_none (by rw [String.isEmpty_iff.1 he]; simp)
      simp [hr, he, hnone]
    · rcases splitFirst '/' rel with _ | ⟨dir, rest⟩ <;> simp [hr, he]

/-- A path whose key has a reserved segment walks to nothing. -/
theorem scanPath_reserved_key (hP : splitObjectPath (cleanPath P) = some (B, K))
    (hallow : side.Allows B) (hon : side.store.offline = false) (hKe : K ≠ "")
    (hres : hasReservedSegment K = true) :
    ∃ side₁, (ExceptT.run (scanPath P)).run side = (.ok [], side₁) := by
  obtain ⟨hc, hB, -, -⟩ := splitObjectPath_some hP
  obtain ⟨side₁, hsplit, -⟩ := splitAllowed_answers hon hallow hc hB
  refine ⟨side₁, ?_⟩
  have hKe' : K.isEmpty = false := by simpa [String.isEmpty_iff] using hKe
  unfold scanPath
  rw [run_bind_of_ok (run_get side)]
  simp only [cleanPath_nonempty_of_split hP, Bool.false_eq_true, if_false]
  rw [run_bind_of_ok hsplit]
  dsimp only
  rw [if_neg (by simp [hKe']), if_pos hres]
  rfl

/-- Below a key with a reserved segment every listed key has one. -/
theorem hasReservedSegment_below {key : String} (hres : hasReservedSegment K = true)
    (hKe : K ≠ "") (hkey : Text.hasPrefix key (listPrefixOf K) = true) :
    hasReservedSegment key = true := by
  have hL : listPrefixOf K = K ++ "/" := by simp [listPrefixOf, String.isEmpty_iff, hKe]
  rw [hL] at hkey
  obtain ⟨rest, rfl⟩ := hasPrefix_iff.1 hkey
  unfold hasReservedSegment at hres ⊢
  rw [splitOn_append_slash, List.any_append, hres, Bool.true_or]

/-- Browsing below a key with a reserved segment lists nothing. -/
theorem browse_reserved (hres : hasReservedSegment K = true) (hKe : K ≠ "") :
    ((((os.filter fun o => Text.hasPrefix o.key (listPrefixOf K)).foldl
          (browsePrefixes B (listPrefixOf K)) []) ++
        (os.filter fun o => Text.hasPrefix o.key (listPrefixOf K)).filterMap
          (browseLeaf? B (listPrefixOf K))).mergeSort fun a b => decide (a.name ≤ b.name)) = [] := by
  have hkeys : ∀ o ∈ os.filter (fun o => Text.hasPrefix o.key (listPrefixOf K)),
      hasReservedSegment o.key = true :=
    fun o ho => hasReservedSegment_below hres hKe (by simpa using (List.mem_filter.1 ho).2)
  -- every key is skipped, so the prefix table stays empty and there is no object entry
  have hT : ∀ (xs : List ListedObject) (T : List ObjectNode),
      (∀ o ∈ xs, hasReservedSegment o.key = true) →
      xs.foldl (browsePrefixes B (listPrefixOf K)) T = T := by
    intro xs
    induction xs with
    | nil => intro T _; rfl
    | cons o xs ih =>
      intro T h
      rw [List.foldl_cons, browsePrefixes, browseDir?, if_pos (h o List.mem_cons_self)]
      exact ih T fun o' ho' => h o' (List.mem_cons_of_mem _ ho')
  have hLs : (os.filter fun o => Text.hasPrefix o.key (listPrefixOf K)).filterMap
      (browseLeaf? B (listPrefixOf K)) = [] :=
    List.filterMap_eq_nil_iff.2 fun o ho => by simp [browseLeaf?, hkeys o ho]
  rw [hT _ [] hkeys, hLs, List.append_nil, List.mergeSort_nil]

/-- Browsing agrees with a walk that the store answers below `K`. -/
theorem browse_agrees_walk {side₂ : ObjectSide} {R : List (String × String)}
    (hK : K = "" ∨ IsNormal K)
    (hfit : ∀ o ∈ os, Word.fits o.sizeBytes = true) (hon : side₂.store.offline = false)
    (hok : side₂.store.failures.lookup B = none) (hos : side₂.store.buckets.lookup B = some os) :
    ∃ records side', (ExceptT.run (scanBucket R B K)).run side₂ = (.ok records, side') ∧
      BrowseAgrees K ((((os.filter fun o => Text.hasPrefix o.key (listPrefixOf K)).foldl
          (browsePrefixes B (listPrefixOf K)) []) ++
        (os.filter fun o => Text.hasPrefix o.key (listPrefixOf K)).filterMap
          (browseLeaf? B (listPrefixOf K))).mergeSort fun a b => decide (a.name ≤ b.name))
        records := by
  obtain ⟨root, dirs, objs, side', hwalk, -, hrep⟩ := scanBucket_reports hon hok hos hfit hK
  exact ⟨_, side', hwalk,
    browse_agrees hK hfit hrep (hrep.dir_names (scanBucket_names hon hok hos hwalk))⟩

/-- Browsing a path and walking it agree one level below its key: for a path that names an
allowed bucket `B` and a key `K` the same way before and after cleaning, over a listing of
64-bit sizes with no key equal to `K`, both answer, and the prefix entries holding an object,
the object entries and the prefix entries of markers alone stand as `BrowseAgrees` says. -/
theorem listNodes_agrees_with_scanPath (hP : splitObjectPath (cleanPath P) = some (B, K))
    (hstable : cleanPath (cleanPath P) = cleanPath P) (hallow : side.Allows B)
    (hon : side.store.offline = false) (hok : side.store.failures.lookup B = none)
    (hos : side.store.buckets.lookup B = some os)
    (hfit : ∀ o ∈ os, Word.fits o.sizeBytes = true) (hno : K = "" ∨ ∀ o ∈ os, o.key ≠ K) :
    ∃ nodes records side₁ side₂,
      (ExceptT.run (listNodes P)).run side = (.ok nodes, side₁) ∧
      (ExceptT.run (scanPath P)).run side = (.ok records, side₂) ∧
      BrowseAgrees K nodes records := by
  obtain ⟨-, -, -, hK⟩ := splitObjectPath_some hP
  obtain ⟨side₁, hlist⟩ := listNodes_lists hP hstable hallow hon hok hos
  by_cases hKe : K = ""
  · -- the whole bucket
    subst hKe
    obtain ⟨side₂, hre₂, hrun⟩ := scanPath_whole_bucket hP hallow hon
    obtain ⟨records, side', hwalk, hagree⟩ := browse_agrees_walk hK hfit
      (hre₂.offline.trans hon) (by rw [hre₂.failures]; exact hok) (by rw [hre₂.buckets]; exact hos)
    exact ⟨_, records, side₁, side', hlist, hrun.trans hwalk, hagree⟩
  by_cases hres : hasReservedSegment K = true
  · -- a reserved key: both list nothing
    obtain ⟨side₂, hrun⟩ := scanPath_reserved_key hP hallow hon hKe hres
    rw [browse_reserved hres hKe] at hlist
    exact ⟨[], [], side₁, side₂, hlist, hrun, ⟨by simp, by simp, by simp⟩⟩
  -- below a key that no object has: the walk starts below the key
  obtain ⟨side₂, hre₂, hrun⟩ := scanPath_below_key hP hallow hon hok hKe (by simpa using hres)
  have hnone : os.find? (·.key == K) = none :=
    List.find?_eq_none.2 fun o ho => by simpa using (hno.resolve_left hKe) o ho
  rw [hos, Option.bind_some, hnone, Option.elim_none] at hrun
  obtain ⟨records, side', hwalk, hagree⟩ := browse_agrees_walk hK hfit
    (hre₂.offline.trans hon) (by rw [hre₂.failures]; exact hok) (by rw [hre₂.buckets]; exact hos)
  exact ⟨_, records, side₁, side', hlist, hrun.trans hwalk, hagree⟩

end Runs

/-- Browsing and walking prefix `a` of a bucket holding an object, a deeper object and a
directory marker below it. -/
theorem browse_of_prefix_a :
    let os : List ListedObject :=
      [⟨"a/x.csv", 3, none, none⟩, ⟨"a/y/z", 5, none, none⟩, ⟨"a/m/", 0, none, none⟩]
    let side : ObjectSide := ⟨⟨["b"], none⟩, { buckets := [("b", os)] }, []⟩
    splitObjectPath (cleanPath "b/a") = some ("b", "a") ∧
      cleanPath (cleanPath "b/a") = cleanPath "b/a" ∧ side.Allows "b" ∧
      side.store.offline = false ∧ side.store.failures.lookup "b" = none ∧
      side.store.buckets.lookup "b" = some os ∧ (∀ o ∈ os, Word.fits o.sizeBytes = true) ∧
      ("a" = "" ∨ ∀ o ∈ os, o.key ≠ "a") ∧
      ∃ nodes records side₁ side₂,
        (ExceptT.run (listNodes "b/a")).run side = (.ok nodes, side₁) ∧
        (ExceptT.run (scanPath "b/a")).run side = (.ok records, side₂) ∧
        BrowseAgrees "a" nodes records := by
  intro os side
  have hP : splitObjectPath (cleanPath "b/a") = some ("b", "a") := by decide
  have hstable : cleanPath (cleanPath "b/a") = cleanPath "b/a" := by decide
  have hallow : side.Allows "b" := .listed (by decide)
  have hfit : ∀ o ∈ os, Word.fits o.sizeBytes = true := by decide
  have hno : "a" = "" ∨ ∀ o ∈ os, o.key ≠ "a" := .inr (by decide)
  exact ⟨hP, hstable, hallow, rfl, rfl, rfl, hfit, hno,
    listNodes_agrees_with_scanPath hP hstable hallow rfl rfl rfl hfit hno⟩

/-- Browsing and walking part ways on `b/x /`, which cleans to `b/x ` once and to `b/x` twice:
browsing lists object `y` of key `x /y`, while the walk reports prefix `x` and object `x/z`. They
part ways on `b/a/` when a key is `a`: browsing lists object `x` of key `a/x`, while the walk
reports the object `a` alone. -/
theorem listNodes_scanPath_disagree :
    let unclean : ObjectSide := ⟨⟨["b"], none⟩,
      { buckets := [("b", [⟨"x /y", 1, none, none⟩, ⟨"x/z", 2, none, none⟩])] }, []⟩
    let keyed : ObjectSide := ⟨⟨["b"], none⟩,
      { buckets := [("b", [⟨"a", 1, none, none⟩, ⟨"a/x", 2, none, none⟩])] }, []⟩
    ((ExceptT.run (listNodes "b/x /")).run unclean).1.toOption.map (·.map (·.name)) =
        some ["y"] ∧
      ((ExceptT.run (scanPath "b/x /")).run unclean).1.toOption.map (·.map (·.relativePath)) =
        some ["x", "x/z"] ∧
      ((ExceptT.run (listNodes "b/a/")).run keyed).1.toOption.map (·.map (·.name)) =
        some ["x"] ∧
      ((ExceptT.run (scanPath "b/a/")).run keyed).1.toOption.map (·.map (·.relativePath)) =
        some ["a"] := by
  decide +kernel

end DataCatalog.Storage
