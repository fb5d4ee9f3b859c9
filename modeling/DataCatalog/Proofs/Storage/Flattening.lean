import Mathlib
import DataCatalog.Proofs.Storage.Tables
import DataCatalog.Proofs.Storage.Reads
import DataCatalog.Proofs.Scan.BucketTrees
/-!
# A walk flattens the listing

A walk of bucket `B` below key `K` lists the keys that start with `K/` (every key when `K` is
empty), drops directory markers and keys with a reserved segment, and reports them in three
runs: one record for `K` itself, counting the listed objects and their total size; one record for
each directory strictly between `K` and an object's normalized path, in code-point order, counting
the objects below it; and one record per object, in key order, with its normalized key as
relative path and the key as listed in its path. Sizes add up as 64-bit words do, wrapping
around.

The directories come from two places that must agree: the walk cuts each key after the listing
prefix and joins its non-empty segments one by one, while an object's relative path normalizes
the whole key. Below a key without empty segments both give the directories strictly between
the key and the object.

A path is cleaned before it is read, and the walk reads the bucket and the key of the cleaned
path: a trailing slash or blank is gone from the key it reports.
-/

namespace DataCatalog.Storage

open DataCatalog.Text

/-! ## Prefixes and directories -/

theorem hasPrefix_iff {s p : String} : Text.hasPrefix s p = true ↔ ∃ rest, s = p ++ rest := by
  rw [Text.hasPrefix, List.isPrefixOf_iff_prefix]
  constructor
  · rintro ⟨t, ht⟩
    exact ⟨String.ofList t, by rw [← String.toList_inj, String.toList_append, ← ht,
      String.toList_ofList]⟩
  · rintro ⟨rest, rfl⟩
    exact ⟨rest.toList, by rw [String.toList_append]⟩

instance (d r : String) : Decidable (IsDirOf d r) :=
  decidable_of_iff (Text.hasPrefix r (d ++ "/") = true) (by rw [hasPrefix_iff]; rfl)

theorem splitOn_ne_nil (s : String) : splitOn '/' s ≠ [] := by
  simp [splitOn, splitList_ne_nil]

/-- The directories above a join of slash-free segments are the joins of its proper prefixes of
segments. -/
theorem isDirOf_joinWith_iff {segs : List String} (hs : ∀ s ∈ segs, '/' ∉ s.toList) {d : String} :
    IsDirOf d (joinWith "/" segs) ↔
      ∃ k, k + 1 < segs.length ∧ d = joinWith "/" (segs.take (k + 1)) := by
  constructor
  · rintro ⟨rest, hr⟩
    have hne : segs ≠ [] := by
      rintro rfl
      exact IsDirOf.ne_empty ⟨rest, hr⟩ rfl
    -- splitting both sides at every slash gives the segments of `d`, then those of the rest
    have hsplit := congrArg (splitOn '/') hr
    rw [splitOn_joinWith hne hs, splitOn_append_slash] at hsplit
    have hd := List.length_pos_iff.2 (splitOn_ne_nil d)
    have hr' := List.length_pos_iff.2 (splitOn_ne_nil rest)
    refine ⟨(splitOn '/' d).length - 1, ?_, ?_⟩
    · rw [hsplit, List.length_append]
      omega
    · rw [Nat.sub_add_cancel hd, hsplit, List.take_left, joinWith_splitOn]
  · rintro ⟨k, hk, rfl⟩
    have htake : segs.take (k + 1) ≠ [] := List.ne_nil_of_length_pos (by simp; omega)
    have hdrop : segs.drop (k + 1) ≠ [] := List.ne_nil_of_length_pos (by simp; omega)
    exact ⟨joinWith "/" (segs.drop (k + 1)), by
      rw [← joinWith_append htake hdrop, List.take_append_drop]⟩

/-- Below `K/`, the directories above `K/J` are `K/x` for the directories `x` above `J`. -/
theorem isDirOf_append_slash_iff {K d J : String} :
    (∃ x, d = K ++ "/" ++ x ∧ IsDirOf x J) ↔ IsDirOf K d ∧ IsDirOf d (K ++ "/" ++ J) := by
  constructor
  · rintro ⟨x, rfl, rest, rfl⟩
    exact ⟨⟨x, rfl⟩, rest, by simp only [String.append_assoc]⟩
  · rintro ⟨⟨x, rfl⟩, rest, hr⟩
    refine ⟨x, rfl, rest, ?_⟩
    simp only [String.append_assoc, String.append_right_inj] at hr
    simpa only [String.append_assoc] using hr

/-- No directory lies strictly between a path and itself. -/
theorem not_isDirOf_between {K d : String} (h₁ : IsDirOf K d) (h₂ : IsDirOf d K) : False := by
  obtain ⟨x, rfl⟩ := h₁
  obtain ⟨y, hy⟩ := h₂
  have := congrArg String.length hy
  simp only [String.length_append] at this
  have hs : "/".length = 1 := rfl
  omega

/-- The non-empty segments of a text. -/
def segmentsOf (s : String) : List String := (splitOn '/' s).filter (!·.isEmpty)

theorem segmentsOf_slash_free {s : String} : ∀ x ∈ segmentsOf s, '/' ∉ x.toList := by
  intro x hx
  obtain ⟨cs, hcs, rfl⟩ := List.mem_map.1 (List.mem_filter.1 hx).1
  simpa using not_mem_of_mem_splitList hcs

theorem normalizeKey_eq_joinWith (s : String) : normalizeKey s = joinWith "/" (segmentsOf s) := rfl

/-- The directories a walk gives an object are the listing prefix followed by the directories
above the non-empty segments of the key after the prefix. -/
theorem mem_directoriesOf {L rel d : String} :
    d ∈ directoriesOf L rel ↔ ∃ x, d = L ++ x ∧ IsDirOf x (joinWith "/" (segmentsOf rel)) := by
  have heq : directoriesOf L rel = (List.range ((segmentsOf rel).length - 1)).map
      fun k => L ++ joinWith "/" ((segmentsOf rel).take (k + 1)) := rfl
  simp only [heq, List.mem_map, List.mem_range]
  constructor
  · rintro ⟨k, hk, rfl⟩
    exact ⟨_, rfl, (isDirOf_joinWith_iff segmentsOf_slash_free).2 ⟨k, by omega, rfl⟩⟩
  · rintro ⟨x, rfl, hx⟩
    obtain ⟨k, hk, rfl⟩ := (isDirOf_joinWith_iff segmentsOf_slash_free).1 hx
    exact ⟨k, by omega, rfl⟩

/-- A walk gives an object each of its directories once. -/
theorem directoriesOf_nodup (L rel : String) : (directoriesOf L rel).Nodup := by
  have heq : directoriesOf L rel = (List.range ((segmentsOf rel).length - 1)).map
      fun k => L ++ joinWith "/" ((segmentsOf rel).take (k + 1)) := rfl
  rw [heq]
  refine List.nodup_range.map_on fun a ha b hb hab => ?_
  rw [List.mem_range] at ha hb
  -- the joined prefixes of segments split back into prefixes of different lengths
  have hslash : ∀ j, ∀ s ∈ (segmentsOf rel).take j, '/' ∉ s.toList :=
    fun j s hs => segmentsOf_slash_free s (List.mem_of_mem_take hs)
  have hne : ∀ j, j < (segmentsOf rel).length → (segmentsOf rel).take (j + 1) ≠ [] :=
    fun j hj => List.ne_nil_of_length_pos (by simp; omega)
  have h := congrArg (splitOn '/') ((String.append_right_inj L).1 hab)
  rw [splitOn_joinWith (hne a (by omega)) (hslash _), splitOn_joinWith (hne b (by omega))
    (hslash _)] at h
  have hlen := congrArg List.length h
  simp only [List.length_take] at hlen
  omega

/-! ## The walk below a key -/

/-- The listing prefix of a walk below `K`: `K/`, or nothing for the whole bucket. -/
def listPrefixOf (K : String) : String := if K.isEmpty then "" else K ++ "/"

/-- `d` is a directory strictly between `K` and the path `r`: above `r`, and below `K` unless `K`
is empty. -/
def Between (K d r : String) : Prop := (K = "" ∨ IsDirOf K d) ∧ IsDirOf d r

/-- Below a key without empty segments, a key's segments are the key's, then those after it. -/
theorem segmentsOf_below {K rel : String} (hK : IsNormal K) :
    segmentsOf (K ++ "/" ++ rel) = splitOn '/' K ++ segmentsOf rel := by
  rw [segmentsOf, splitOn_append_slash, List.filter_append,
    List.filter_eq_self.2 fun x hx => by simpa [String.isEmpty_iff] using hK x hx]
  rfl

theorem dropChars_below (L rel : String) : Text.dropChars (L ++ rel) L.length = rel := by
  rw [Text.dropChars, String.toList_append, List.drop_left' String.length_toList,
    String.ofList_toList]

/-- The directories a walk below `K` gives a listed object are the directories strictly between
`K` and the object's normalized key. -/
theorem mem_directoriesOf_below {K : String} (hK : K = "" ∨ IsNormal K) {key : String}
    (hkey : Text.hasPrefix key (listPrefixOf K) = true) {d : String} :
    d ∈ directoriesOf (listPrefixOf K) (Text.dropChars key (listPrefixOf K).length) ↔
      Between K d (normalizeKey key) := by
  obtain ⟨rel, rfl⟩ := hasPrefix_iff.1 hkey
  rw [dropChars_below, mem_directoriesOf]
  by_cases he : K = ""
  · subst he
    simp [listPrefixOf, Between, normalizeKey_eq_joinWith]
  have hn := hK.resolve_left he
  have hL : listPrefixOf K = K ++ "/" := by simp [listPrefixOf, String.isEmpty_iff, he]
  rw [hL, normalizeKey_eq_joinWith, segmentsOf_below hn]
  by_cases hs : segmentsOf rel = []
  · -- nothing follows `K`: the object's path is `K` itself, with no directory between
    rw [hs, List.append_nil, joinWith_splitOn]
    constructor
    · rintro ⟨x, -, hx⟩
      exact absurd (IsDirOf.ne_empty hx) (by simp [joinWith])
    · rintro ⟨h₁, h₂⟩
      exact (not_isDirOf_between (h₁.resolve_left he) h₂).elim
  · rw [joinWith_append (splitOn_ne_nil K) hs, joinWith_splitOn, isDirOf_append_slash_iff]
    simp [Between, he]

/-! ## The directory table -/

/-- Adding an object to a directory table updates a table sorted by directory. -/
theorem bumpDir_eq (dir : String) (size : Int) : ∀ T : List (String × Int × Int),
    bumpDir dir size T = upsertSorted (·.1) dir (dir, size, 1)
      (fun e => (e.1, Word.wrap (e.2.1 + size), e.2.2 + 1)) T
  | [] => rfl
  | (d, s, n) :: rest => by
    unfold bumpDir upsertSorted
    rw [bumpDir_eq dir size rest]

theorem wrappingSum_eq (xs : List Int) : Word.wrappingSum xs = Word.wrap xs.sum := rfl

/-- The entry that a run of contributions of sizes `ss` to directory `d` leaves, from an entry
holding the wrapped total `a` of `n` objects. -/
theorem foldEntry_dir (d : String) : ∀ (ss : List Int) (a n : Int),
    foldEntry (fun x : String × Int => (x.1, x.2, (1 : Int)))
      (fun x e => (e.1, Word.wrap (e.2.1 + x.2), e.2.2 + 1)) (some (d, Word.wrap a, n))
      (ss.map (d, ·)) = some (d, Word.wrap (a + ss.sum), n + ss.length)
  | [], a, n => by simp [foldEntry]
  | s :: ss, a, n => by
    have ih := foldEntry_dir d ss (a + s) (n + 1)
    simp only [foldEntry, List.map_cons, List.foldl_cons, Option.elim_some,
      Word.wrap_add_wrap_left] at ih ⊢
    rw [ih]
    simp only [List.sum_cons, List.length_cons, Nat.cast_add, Nat.cast_one]
    rw [add_assoc a s, add_assoc n 1, add_comm 1 (ss.length : Int)]

/-- The entry a walk leaves for directory `d` from the sizes of the objects below it: their
wrapped total and their number, or none when there are none. -/
theorem foldEntry_dir_none (d : String) {ss : List Int} (hfit : ∀ s ∈ ss, Word.fits s = true) :
    foldEntry (fun x : String × Int => (x.1, x.2, (1 : Int)))
      (fun x e => (e.1, Word.wrap (e.2.1 + x.2), e.2.2 + 1)) none (ss.map (d, ·)) =
      if ss = [] then none else some (d, Word.wrappingSum ss, (ss.length : Int)) := by
  cases ss with
  | nil => rfl
  | cons s ss =>
    have hs : Word.wrap s = s := Word.wrap_of_fits (hfit s List.mem_cons_self)
    have h := foldEntry_dir d ss s 1
    rw [hs] at h
    simp only [foldEntry, List.map_cons, List.foldl_cons, Option.elim_none] at h ⊢
    rw [h, wrappingSum_eq, List.sum_cons, List.length_cons, Nat.cast_add, Nat.cast_one,
      add_comm (1 : Int)]
    simp

/-- The directory table a walk builds from its objects below the listing prefix `L`. -/
abbrev dirTable (L : String) (objs : List ListedObject) : List (String × Int × Int) :=
  objs.foldl (fun acc o => (directoriesOf L (Text.dropChars o.key L.length)).foldl
    (fun acc d => bumpDir d o.sizeBytes acc) acc) []

/-- The contributions of one directory: one per object that has it, since an object has each of
its directories once. -/
theorem filter_contributions (L d : String) (objs : List ListedObject) :
    (objs.flatMap fun o => (directoriesOf L (Text.dropChars o.key L.length)).map
      (·, o.sizeBytes)).filter (fun x => x.1 = d) =
    ((objs.filter fun o => d ∈ directoriesOf L (Text.dropChars o.key L.length)).map
      (·.sizeBytes)).map (d, ·) := by
  induction objs with
  | nil => rfl
  | cons o objs ih =>
    rw [List.flatMap_cons, List.filter_append, ih, List.filter_cons]
    have hone : ((directoriesOf L (Text.dropChars o.key L.length)).map (·, o.sizeBytes)).filter
        (fun x => x.1 = d) =
        if d ∈ directoriesOf L (Text.dropChars o.key L.length) then [(d, o.sizeBytes)] else [] := by
      rw [List.filter_map]
      have hf : ((directoriesOf L (Text.dropChars o.key L.length)).filter
          ((fun x : String × Int => decide (x.1 = d)) ∘ (·, o.sizeBytes))) =
          (directoriesOf L (Text.dropChars o.key L.length)).filter (· = d) := rfl
      rw [hf, List.filter_eq, (directoriesOf_nodup _ _).count]
      split <;> rfl
    rw [hone]
    split <;> rename_i hd <;> simp [hd]

/-- The directory table of a walk: sorted strictly by directory, one entry for each directory of
an object, holding the wrapped total size and the number of the objects that have it. -/
theorem dirTable_spec (L : String) {objs : List ListedObject}
    (hfit : ∀ o ∈ objs, Word.fits o.sizeBytes = true) :
    (dirTable L objs).Pairwise (·.1 < ·.1) ∧
      (∀ d, d ∈ (dirTable L objs).map (·.1) ↔
        ∃ o ∈ objs, d ∈ directoriesOf L (Text.dropChars o.key L.length)) ∧
      ∀ e ∈ dirTable L objs,
        e.2.1 = Word.wrappingSum ((objs.filter fun o =>
          e.1 ∈ directoriesOf L (Text.dropChars o.key L.length)).map (·.sizeBytes)) ∧
        e.2.2 = ((objs.filter fun o =>
          e.1 ∈ directoriesOf L (Text.dropChars o.key L.length)).length : Int) := by
  -- the nested folds are one fold of updates over the contributions of all objects
  have hfold : dirTable L objs = (objs.flatMap fun o =>
      (directoriesOf L (Text.dropChars o.key L.length)).map (·, o.sizeBytes)).foldl
      (fun T x => upsertSorted (·.1) x.1 (x.1, x.2, 1)
        (fun e => (e.1, Word.wrap (e.2.1 + x.2), e.2.2 + 1)) T) [] := by
    rw [List.foldl_flatMap]
    refine congrArg (fun f => objs.foldl f []) (funext fun acc => funext fun o => ?_)
    rw [List.foldl_map]
    simp only [bumpDir_eq]
  obtain ⟨hs, hentry⟩ := @foldl_upsertSorted (String × Int × Int) (String × Int) (·.1) (·.1)
    (fun x => (x.1, x.2, 1)) (fun x e => (e.1, Word.wrap (e.2.1 + x.2), e.2.2 + 1))
    (fun _ => rfl) (fun _ _ => rfl) _ [] List.Pairwise.nil
  rw [← hfold] at hs hentry
  -- the entry of `d` folds the sizes of the objects that have `d`
  have hat : ∀ d, entryAt (·.1) (dirTable L objs) d =
      let ss := (objs.filter fun o => d ∈ directoriesOf L (Text.dropChars o.key L.length)).map
        (·.sizeBytes)
      if ss = [] then none else some (d, Word.wrappingSum ss, (ss.length : Int)) := by
    intro d
    rw [hentry, filter_contributions]
    exact foldEntry_dir_none d fun x hx => by
      obtain ⟨o, ho, hox⟩ := List.mem_map.1 hx
      rw [← hox]
      exact hfit o (List.mem_filter.1 ho).1
  refine ⟨hs, fun d => ?_, fun e he => ?_⟩
  · rw [mem_keys_iff_entryAt, hat]
    dsimp only
    split
    · rename_i hnil
      simp only [Option.isSome_none, Bool.false_eq_true, false_iff, not_exists, not_and]
      intro o ho hd
      simp only [List.map_eq_nil_iff, List.filter_eq_nil_iff] at hnil
      exact hnil o ho (by simpa using hd)
    · rename_i hne
      simp only [Option.isSome_some, true_iff]
      obtain ⟨x, hx⟩ := List.exists_mem_of_ne_nil _ hne
      obtain ⟨o, ho, -⟩ := List.mem_map.1 hx
      exact ⟨o, (List.mem_filter.1 ho).1, by simpa using (List.mem_filter.1 ho).2⟩
  · have h := (entryAt_of_mem hs he).symm.trans (hat e.1)
    dsimp only at h
    split at h
    · cases h
    · have he' := Option.some.inj h
      exact ⟨congrArg (·.2.1) he', (congrArg (·.2.2) he').trans (by simp)⟩

/-! ## What a walk reports -/

/-- The objects a walk below `K` lists: keys that start with `K/` (every key when `K` is empty),
that are not directory markers and have no reserved segment. -/
def walkedBelow (K : String) (o : ListedObject) : Bool :=
  Text.hasPrefix o.key (listPrefixOf K) && !Text.hasSuffix o.key "/" && !hasReservedSegment o.key

/-- A walk of bucket `B` below `K` over the listing `os` reports the record `root` of `K`, the
records `dirs` of the directories, and the records of the objects `objs`. -/
structure WalkReport (B K : String) (os : List ListedObject) (root : ObjectRecord)
    (dirs : List ObjectRecord) (objs : List ListedObject) : Prop where
  objs_perm : objs.Perm (os.filter (walkedBelow K))
  objs_sorted : objs.Pairwise fun a b => a.key ≤ b.key
  root_bucket : root.bucket = B
  root_path : root.relativePath = K
  root_kind : root.kind = if K = "" then .bucket else .keyPrefix
  root_count : root.objectCount = objs.length
  root_size : root.sizeBytes = Word.wrappingSum (objs.map (·.sizeBytes))
  dirs_sorted : dirs.Pairwise fun a b => a.relativePath < b.relativePath
  dirs_kind : ∀ r ∈ dirs, r.kind = .keyPrefix ∧ r.bucket = B
  dirs_mem : ∀ d, d ∈ dirs.map (·.relativePath) ↔ ∃ o ∈ objs, Between K d (normalizeKey o.key)
  dirs_count : ∀ r ∈ dirs,
    r.objectCount = (objs.filter fun o => IsDirOf r.relativePath (normalizeKey o.key)).length
  dirs_size : ∀ r ∈ dirs, r.sizeBytes = Word.wrappingSum
    ((objs.filter fun o => IsDirOf r.relativePath (normalizeKey o.key)).map (·.sizeBytes))

theorem pairwise_sortByKey (l : List ListedObject) :
    (l.mergeSort fun a b => decide (a.key ≤ b.key)).Pairwise fun a b => a.key ≤ b.key :=
  (List.pairwise_mergeSort (fun a b c hab hbc => by simp only [decide_eq_true_eq] at *; exact le_trans hab hbc)
    (fun a b => by simpa using le_total a.key b.key) l).imp (by simp)

/-- The objects a walk below `K` keeps, sorted by key, are those of the listing it walks. -/
theorem walkedObjects_perm (K : String) (os : List ListedObject) :
    (((os.filter fun x => Text.hasPrefix x.key (listPrefixOf K)).filter
      fun o => !Text.hasSuffix o.key "/" && !hasReservedSegment o.key).mergeSort
        (fun a b => decide (a.key ≤ b.key))).Perm (os.filter (walkedBelow K)) := by
  refine (List.mergeSort_perm _ _).trans (List.Perm.of_eq ?_)
  rw [List.filter_filter]
  exact List.filter_congr fun o _ => by
    simp only [walkedBelow]
    cases Text.hasPrefix o.key (listPrefixOf K) <;> simp

/-- A walk of a bucket that the store answers reports its listing below `K`. -/
theorem scanBucket_reports {side : ObjectSide} {B K : String} {os : List ListedObject}
    {R : List (String × String)}
    (hon : side.store.offline = false) (hok : side.store.failures.lookup B = none)
    (hos : side.store.buckets.lookup B = some os) (hfit : ∀ o ∈ os, Word.fits o.sizeBytes = true)
    (hK : K = "" ∨ IsNormal K) :
    ∃ root dirs objs side', (ExceptT.run (scanBucket R B K)).run side =
      (.ok (root :: dirs ++ objs.map (·.record R B)), side') ∧ side.store.Recounted side'.store ∧
      WalkReport B K os root dirs objs := by
  obtain ⟨s', hlist, hre⟩ := listObjects_answers hon hok hos (listPrefixOf K)
  unfold scanBucket
  dsimp only
  rw [show (if K.isEmpty then "" else K ++ "/") = listPrefixOf K from rfl,
    run_bind_of_ok (onStore_answers hlist)]
  refine ⟨_, _, _, _, rfl, hre, ?_⟩
  set objs := ((os.filter fun x => Text.hasPrefix x.key (listPrefixOf K)).filter
    fun o => !Text.hasSuffix o.key "/" && !hasReservedSegment o.key).mergeSort
      (fun a b => decide (a.key ≤ b.key)) with hobjs
  have hperm : objs.Perm (os.filter (walkedBelow K)) := walkedObjects_perm K os
  have hwalked : ∀ o ∈ objs, o ∈ os ∧ walkedBelow K o = true :=
    fun o ho => List.mem_filter.1 (hperm.subset ho)
  -- the directories the walk gives an object are those strictly between `K` and its path
  have hdirs : ∀ o ∈ objs, ∀ d, d ∈ directoriesOf (listPrefixOf K)
      (Text.dropChars o.key (listPrefixOf K).length) ↔ Between K d (normalizeKey o.key) := by
    intro o ho d
    have hw := (hwalked o ho).2
    simp only [walkedBelow, Bool.and_eq_true] at hw
    exact mem_directoriesOf_below hK hw.1.1
  obtain ⟨hs, hmem, hent⟩ := dirTable_spec (listPrefixOf K) fun o ho => hfit o (hwalked o ho).1
  have hfilter : ∀ e ∈ dirTable (listPrefixOf K) objs,
      (objs.filter fun o => e.1 ∈ directoriesOf (listPrefixOf K)
        (Text.dropChars o.key (listPrefixOf K).length)) =
      objs.filter fun o => IsDirOf e.1 (normalizeKey o.key) := by
    intro e he
    obtain ⟨o', ho', hd'⟩ := (hmem e.1).1 (List.mem_map_of_mem he)
    have hbelow := ((hdirs o' ho' e.1).1 hd').1
    exact List.filter_congr fun o ho => by simp [hdirs o ho, Between, hbelow]
  refine ⟨hperm, pairwise_sortByKey _, rfl, rfl, ?_, rfl, rfl, List.pairwise_map.2 hs,
    fun r hr => ?_, fun d => ?_, fun r hr => ?_, fun r hr => ?_⟩
  · by_cases h : K = "" <;> simp [h, String.isEmpty_iff]
  · obtain ⟨e, -, rfl⟩ := List.mem_map.1 hr
    exact ⟨rfl, rfl⟩
  · rw [List.map_map]
    refine (hmem d).trans ⟨fun ⟨o, ho, hd⟩ => ⟨o, ho, (hdirs o ho d).1 hd⟩,
      fun ⟨o, ho, hd⟩ => ⟨o, ho, (hdirs o ho d).2 hd⟩⟩
  · obtain ⟨e, he, rfl⟩ := List.mem_map.1 hr
    rw [← hfilter e he]
    exact (hent e he).2
  · obtain ⟨e, he, rfl⟩ := List.mem_map.1 hr
    rw [← hfilter e he]
    exact (hent e he).1

/-- A path that names a bucket does not clean to the empty path. -/
theorem cleanPath_nonempty_of_split {P B K : String}
    (hP : splitObjectPath (cleanPath P) = some (B, K)) : (cleanPath P).isEmpty = false := by
  rw [Bool.eq_false_iff]
  intro he
  have hnone : splitObjectPath "" = none := by decide
  rw [String.isEmpty_iff.1 he, hnone] at hP
  cases hP

section Entry

variable {side : ObjectSide} {P B K : String}

/-- A path that names a whole bucket walks it, once the allow-list has been read. -/
theorem scanPath_whole_bucket (hP : splitObjectPath (cleanPath P) = some (B, ""))
    (hallow : side.Allows B) (hon : side.store.offline = false) :
    ∃ side₁, side.store.Recounted side₁.store ∧
      (ExceptT.run (scanPath P)).run side =
        (ExceptT.run (scanBucket side.mediaTypes B "")).run side₁ := by
  obtain ⟨hc, hB, -, -⟩ := splitObjectPath_some hP
  obtain ⟨side₁, hsplit, hre₁⟩ := splitAllowed_answers hon hallow hc hB
  refine ⟨side₁, hre₁, ?_⟩
  unfold scanPath
  rw [run_bind_of_ok (run_get side)]
  simp only [cleanPath_nonempty_of_split hP, Bool.false_eq_true, if_false]
  rw [run_bind_of_ok hsplit]
  dsimp only
  rw [if_pos (show ("" : String).isEmpty = true from rfl)]

/-- A path that names a key below a bucket looks the key up: an object of that key is the whole
answer, and otherwise the walk starts below the key. -/
theorem scanPath_below_key (hP : splitObjectPath (cleanPath P) = some (B, K))
    (hallow : side.Allows B) (hon : side.store.offline = false)
    (hok : side.store.failures.lookup B = none) (hKe : K ≠ "")
    (hres : hasReservedSegment K = false) :
    ∃ side₁, side.store.Recounted side₁.store ∧
      (ExceptT.run (scanPath P)).run side =
        ((side.store.buckets.lookup B).bind (·.find? (·.key == K))).elim
          ((ExceptT.run (scanBucket side.mediaTypes B K)).run side₁)
          fun o => (.ok [o.record side.mediaTypes B], side₁) := by
  obtain ⟨hc, hB, -, -⟩ := splitObjectPath_some hP
  obtain ⟨side₁, hsplit, hre₁⟩ := splitAllowed_answers hon hallow hc hB
  have hok₁ : side₁.store.failures.lookup B = none := by rw [hre₁.failures]; exact hok
  obtain ⟨s₂, hhead, hre₂⟩ := headObject_answers (hre₁.offline.trans hon) hok₁ K
  rw [hre₁.buckets] at hhead
  refine ⟨{ side₁ with store := s₂ }, hre₁.trans hre₂, ?_⟩
  have hKe' : K.isEmpty = false := by simpa [String.isEmpty_iff] using hKe
  unfold scanPath
  rw [run_bind_of_ok (run_get side)]
  simp only [cleanPath_nonempty_of_split hP, Bool.false_eq_true, if_false]
  rw [run_bind_of_ok hsplit]
  dsimp only
  rw [if_neg (by simp [hKe']), if_neg (by simp [hres]), run_bind_of_ok (onStore_answers hhead)]
  cases (side.store.buckets.lookup B).bind (·.find? (·.key == K)) <;> rfl

end Entry

/-- A walk of a path reads the bucket and the key that cleaning leaves: below a key without a
reserved segment, that no listed key equals, it reports the listing below the key; on a key that
a listed object has, it reports that object alone. -/
theorem scanPath_flattens_listing {side : ObjectSide} {P B K : String} {os : List ListedObject}
    (hP : splitObjectPath (cleanPath P) = some (B, K)) (hallow : side.Allows B)
    (hon : side.store.offline = false) (hok : side.store.failures.lookup B = none)
    (hos : side.store.buckets.lookup B = some os)
    (hfit : ∀ o ∈ os, Word.fits o.sizeBytes = true) (hres : hasReservedSegment K = false) :
    ((K = "" ∨ ∀ o ∈ os, o.key ≠ K) → ∃ root dirs objs side',
      (ExceptT.run (scanPath P)).run side =
        (.ok (root :: dirs ++ objs.map (·.record side.mediaTypes B)), side') ∧
      WalkReport B K os root dirs objs) ∧
    (K ≠ "" → ∀ o, os.find? (·.key == K) = some o →
      ∃ side', (ExceptT.run (scanPath P)).run side =
        (.ok [o.record side.mediaTypes B], side')) := by
  obtain ⟨-, -, -, hK⟩ := splitObjectPath_some hP
  by_cases hKe : K = ""
  · -- the whole bucket
    subst hKe
    obtain ⟨side₁, hre₁, hrun⟩ := scanPath_whole_bucket hP hallow hon
    obtain ⟨root, dirs, objs, side', hwalk, -, hrep⟩ :=
      @scanBucket_reports side₁ B "" os _ (hre₁.offline.trans hon) (by rw [hre₁.failures]; exact hok)
        (by rw [hre₁.buckets]; exact hos) hfit (.inl rfl)
    exact ⟨fun _ => ⟨root, dirs, objs, side', hrun.trans hwalk, hrep⟩, fun h => absurd rfl h⟩
  obtain ⟨side₁, hre₁, hrun⟩ := scanPath_below_key hP hallow hon hok hKe hres
  rw [hos, Option.bind_some] at hrun
  refine ⟨fun hno => ?_, fun _ o ho => ⟨side₁, by rw [hrun, ho]; rfl⟩⟩
  have hnone : os.find? (·.key == K) = none :=
    List.find?_eq_none.2 fun o ho => by simpa using (hno.resolve_left hKe) o ho
  rw [hnone, Option.elim_none] at hrun
  obtain ⟨root, dirs, objs, side', hwalk, -, hrep⟩ :=
    @scanBucket_reports side₁ B K os _ (hre₁.offline.trans hon) (by rw [hre₁.failures]; exact hok)
      (by rw [hre₁.buckets]; exact hos) hfit (.inr (hK.resolve_left hKe))
  exact ⟨root, dirs, objs, side', hrun.trans hwalk, hrep⟩

/-- A walk of prefix `a` of bucket `b`, read through an allow-list that names `b`. -/
theorem walk_of_prefix_a :
    let os : List ListedObject := [⟨"a/x.csv", 3, none, none⟩, ⟨"a/y/z", 5, none, none⟩]
    let side : ObjectSide := ⟨⟨["b"], none⟩, { buckets := [("b", os)] }, []⟩
    splitObjectPath (cleanPath "b/a") = some ("b", "a") ∧ side.Allows "b" ∧
      side.store.offline = false ∧ side.store.failures.lookup "b" = none ∧
      side.store.buckets.lookup "b" = some os ∧ (∀ o ∈ os, Word.fits o.sizeBytes = true) ∧
      hasReservedSegment "a" = false ∧
      (("a" = "" ∨ ∀ o ∈ os, o.key ≠ "a") → ∃ root dirs objs side',
        (ExceptT.run (scanPath "b/a")).run side =
          (.ok (root :: dirs ++ objs.map (·.record side.mediaTypes "b")), side') ∧
        WalkReport "b" "a" os root dirs objs) ∧
      ("a" ≠ "" → ∀ o, os.find? (·.key == "a") = some o →
        ∃ side', (ExceptT.run (scanPath "b/a")).run side =
          (.ok [o.record side.mediaTypes "b"], side')) := by
  intro os side
  have hP : splitObjectPath (cleanPath "b/a") = some ("b", "a") := by decide
  have hallow : side.Allows "b" := .listed (by decide)
  have hfit : ∀ o ∈ os, Word.fits o.sizeBytes = true := by decide
  have hres : hasReservedSegment "a" = false := by decide
  exact ⟨hP, hallow, rfl, rfl, rfl, hfit, hres,
    scanPath_flattens_listing hP hallow rfl rfl rfl hfit hres⟩

/-- The root of a walk of `b/a/` carries the key `a` that cleaning leaves, not `a/`; and two
objects of `2^62` bytes each total `-2^63` bytes, their sum wrapped at 64 bits. -/
theorem scanPath_cleans_key_and_wraps_totals :
    let small : ObjectSide :=
      ⟨⟨["b"], none⟩, { buckets := [("b", [⟨"a/x.csv", 3, none, none⟩])] }, []⟩
    let large : ObjectSide := ⟨⟨["b"], none⟩, { buckets := [("b",
      [⟨"p/x", 4611686018427387904, none, none⟩, ⟨"p/y", 4611686018427387904, none, none⟩])] }, []⟩
    ((ExceptT.run (scanPath "b/a/")).run small).1.toOption.map
        (fun rs => rs.map (·.relativePath)) = some ["a", "a/x.csv"] ∧
      ((ExceptT.run (scanPath "b")).run large).1.toOption.map (fun rs => rs.head?.map (·.sizeBytes)) =
        some (some (-9223372036854775808)) := by
  refine ⟨by decide +kernel, ?_⟩
  -- sorting the listing is beyond evaluation here, so the total is read off the walk's report
  obtain ⟨side₁, hre₁, hrun⟩ := @scanPath_whole_bucket ⟨⟨["b"], none⟩, { buckets := [("b",
      [⟨"p/x", 4611686018427387904, none, none⟩, ⟨"p/y", 4611686018427387904, none, none⟩])] }, []⟩
    "b" "b" (by decide) (.listed (by decide)) rfl
  obtain ⟨root, dirs, objs, side', hwalk, -, hrep⟩ := @scanBucket_reports side₁ "b" ""
    [⟨"p/x", 4611686018427387904, none, none⟩, ⟨"p/y", 4611686018427387904, none, none⟩] _
    (hre₁.offline.trans rfl) (by rw [hre₁.failures]; rfl) (by rw [hre₁.buckets]; rfl)
    (by decide) (.inl rfl)
  have hsum : (objs.map (·.sizeBytes)).sum = 9223372036854775808 := by
    rw [(hrep.objs_perm.map _).sum_eq]
    decide +kernel
  rw [hrun, hwalk]
  simp only [Except.toOption, Option.map_some, List.cons_append, List.head?_cons,
    hrep.root_size, wrappingSum_eq, hsum]
  decide

end DataCatalog.Storage
