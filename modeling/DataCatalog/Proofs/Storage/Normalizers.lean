import DataCatalog.Proofs.Storage.Flattening
/-!
# Path normalizers

Four normalizers meet on an object path. Cleaning trims the blanks around a typed path and
drops its blank segments; a rebuild takes the first kept segment as the bucket and the others as
the key; the connector cuts the cleaned path at its first slash and checks the bucket against its
allow-list; and a rebuild drops empty segments once more from the relative paths a walk
reports, by a fast path that gives back a path with no empty segment as it is.

The rebuild's split and the connector's agree on every path: a path names a bucket exactly when
it cleans to something, it then cleans to `bucket/key`, and the connector answers that bucket
and key once the bucket passes its allow-list. The fast path agrees with dropping empty
segments on every text, and every relative path a walk reports is already without empty
segments, so the rebuild's second pass changes none of them.

Cleaning is not idempotent, though: a rebuild hands the connector `bucket/key` again, and
cleaning it once more trims a blank at its start or its end. The connector reads the same
bucket and key back when `bucket/key` has no blank at either end (`objectPath_normalizers_agree`).
-/

namespace DataCatalog.Storage

open DataCatalog.Connect DataCatalog.Text

/-! ## The split of a cleaned path -/

section Split

variable {p b k : String}

/-- A path names no bucket exactly when it cleans to nothing. -/
theorem splitObjectPath_eq_none_iff : splitObjectPath p = none ↔ cleanPath p = "" := by
  unfold splitObjectPath cleanPath
  split
  · rename_i hsegs
    simp [hsegs, joinWith]
  · rename_i bucket rest hsegs
    have hb := (mem_pathSegments (show bucket ∈ pathSegments p by
      rw [hsegs]; exact List.mem_cons_self)).1
    rw [hsegs]
    simpa using joinWith_ne_empty bucket List.mem_cons_self (ne_empty_of_isBlankSegment hb)

/-- The connector's cut of a cleaned path at its first slash is the rebuild's split into bucket
and key, or two empty texts for a path that cleans to nothing. -/
theorem splitFirst_cleanPath (p : String) :
    (splitFirst '/' (cleanPath p)).getD (cleanPath p, "") = (splitObjectPath p).getD ("", "") := by
  cases hs : splitObjectPath p with
  | none =>
    rw [splitObjectPath_eq_none_iff.1 hs]
    rfl
  | some bk =>
    obtain ⟨hc, hb, -, -⟩ := splitObjectPath_some hs
    rw [hc, splitFirst_joinBucket _ hb]
    rfl

/-- The connector splits a path that names bucket `b` and key `k` into `b` and `k`, after
checking `b` against its allow-list. -/
theorem splitAllowed_of_splitObjectPath (h : splitObjectPath p = some (b, k)) :
    splitAllowed p = (do
      if (← allowedBuckets).contains b then pure (b, k) else throw (.bucketNotAllowed b)) := by
  unfold splitAllowed
  simp only [splitFirst_cleanPath, h, Option.getD_some]

/-- The key the connector splits off is empty or has no empty segment. -/
theorem splitAllowed_key {side side' : ObjectSide}
    (h : (ExceptT.run (splitAllowed p)).run side = (.ok (b, k), side')) : k = "" ∨ IsNormal k := by
  have hbk := (splitAllowed_ok h).1
  rw [splitFirst_cleanPath] at hbk
  cases hs : splitObjectPath p with
  | none =>
    rw [hs] at hbk
    exact .inl (Prod.mk.inj hbk).2
  | some bk =>
    rw [hs, Option.getD_some] at hbk
    subst hbk
    exact (splitObjectPath_some hs).2.2.2

end Split

/-! ## Cleaning a cleaned path -/

section Rejoin

variable {p b k : String}

/-- Splitting a cleaned path at its slashes and dropping blank segments gives back the kept
segments of the path. -/
theorem pathSegments_of_cleanPath (p : String) :
    (splitOn '/' (cleanPath p)).filter (!isBlankSegment ·) = pathSegments p := by
  by_cases hS : pathSegments p = []
  · rw [cleanPath, hS]
    rfl
  · rw [cleanPath, splitOn_joinWith hS fun x hx => (mem_pathSegments hx).2]
    exact List.filter_eq_self.2 fun x hx => by simp [(mem_pathSegments hx).1]

/-- A cleaned path with no blank at either end cleans to itself. -/
theorem cleanPath_cleanPath (ht : trim (cleanPath p) = cleanPath p) :
    cleanPath (cleanPath p) = cleanPath p := by
  rw [cleanPath, pathSegments, ht, pathSegments_of_cleanPath]
  rfl

/-- A cleaned path with no blank at either end, followed by a slash, cleans to the path. -/
theorem cleanPath_cleanPath_slash (ht : trim (cleanPath p) = cleanPath p) :
    cleanPath (cleanPath p ++ "/") = cleanPath p := by
  have hl : trimList (cleanPath p).toList = (cleanPath p).toList := by
    simpa [trim] using congrArg String.toList ht
  -- the slash stops the trimming at the end, and the start has no blank
  have htrim : trim (cleanPath p ++ "/") = cleanPath p ++ "/" := by
    rw [trim, String.toList_append, show "/".toList = ['/'] from rfl, trimList_append_slash,
      dropBlanks_of_trimList hl, ← String.toList_inj, String.toList_ofList, String.toList_append]
    rfl
  rw [cleanPath, pathSegments, htrim,
    show cleanPath p ++ "/" = cleanPath p ++ "/" ++ "" from String.append_empty.symm,
    splitOn_append_slash, List.filter_append, pathSegments_of_cleanPath,
    show (splitOn '/' "").filter (!isBlankSegment ·) = [] from rfl, List.append_nil]
  rfl

/-- A rebuild hands the connector `b/k` again for the bucket `b` and key `k` of a path; when
`b/k` has no blank at either end, cleaning it gives back `b/k`. -/
theorem cleanPath_joinRel_rejoined (h : splitObjectPath p = some (b, k))
    (ht : trim (joinBucket b k) = joinBucket b k) : cleanPath (joinRel b k) = joinBucket b k := by
  obtain ⟨hc, -, hb, -⟩ := splitObjectPath_some h
  rw [← hc] at ht ⊢
  rw [joinRel_of_ne hb]
  by_cases hk : k = ""
  · subst hk
    have hbc : b = cleanPath p := by simp [hc, joinBucket]
    rw [String.append_empty, hbc]
    exact cleanPath_cleanPath_slash ht
  · have hbc : b ++ "/" ++ k = cleanPath p := by simp [hc, joinBucket, String.isEmpty_iff, hk]
    rw [hbc]
    exact cleanPath_cleanPath ht

-- The blanks hypothesis is needed: the bucket ` b` of the path `/ b` does not come back, since
-- the rebuild's split keeps its leading blank and cleaning the rejoined path trims it.
example : splitObjectPath "/ b" = some (" b", "") ∧ cleanPath (joinRel " b" "") = "b" := by
  constructor <;> decide

end Rejoin

/-! ## Relative paths a walk reports -/

theorem IsNormal.append_slash {a b : String} (ha : IsNormal a) (hb : IsNormal b) :
    IsNormal (a ++ "/" ++ b) := by
  intro seg hseg
  rw [splitOn_append_slash, List.mem_append] at hseg
  exact hseg.elim (ha seg) (hb seg)

/-- The records a walk below an empty or normal key reports have empty or normal relative
paths: the walked root has the key, a directory the key followed by segments of an object's
key, an object its key normalized. -/
theorem scanBucket_paths_normal {R : List (String × String)} {bucket pfx : String}
    {rs : List ObjectRecord} {side side' : ObjectSide} (hpfx : pfx = "" ∨ IsNormal pfx)
    (h : (ExceptT.run (scanBucket R bucket pfx)).run side = (.ok rs, side')) :
    ∀ r ∈ rs, r.relativePath = "" ∨ IsNormal r.relativePath := by
  unfold scanBucket at h
  dsimp only at h
  rw [show (if pfx.isEmpty then "" else pfx ++ "/") = listPrefixOf pfx from rfl] at h
  obtain ⟨listed, side₁, -, h₂⟩ := run_bind_ok h
  generalize ((listed.filter fun o => !Text.hasSuffix o.key "/" &&
    !hasReservedSegment o.key).mergeSort fun a b => decide (a.key ≤ b.key)) = objs at h₂
  obtain ⟨rfl, -⟩ := run_pure_ok h₂
  intro r hr
  simp only [List.cons_append, List.mem_cons, List.mem_append, List.mem_map] at hr
  rcases hr with rfl | ⟨⟨d, size, n⟩, hd, rfl⟩ | ⟨o, -, rfl⟩
  · exact hpfx
  · -- a directory: the listing prefix, then a directory above the rest of an object's key
    obtain ⟨o, -, hdo⟩ := mem_dirTable objs (List.mem_map_of_mem hd)
    obtain ⟨x, rfl, hx⟩ := mem_directoriesOf.1 hdo
    rw [← normalizeKey_eq_joinWith] at hx
    have hxn : IsNormal x := hx.normal ((normalizeKey_normal _).resolve_left hx.ne_empty)
    right
    by_cases hp : pfx = ""
    · simpa [listPrefixOf, hp] using hxn
    · simpa [listPrefixOf, String.isEmpty_iff, hp, String.append_assoc] using
        (hpfx.resolve_left hp).append_slash hxn
  · exact normalizeKey_normal o.key

/-- Walks of several buckets, collected one after another, report only records that each walk
may report. -/
theorem forIn_walks {P : ObjectRecord → Prop} (walk : String → ConnectorCall (List ObjectRecord))
    (hwalk : ∀ b side rs side', (ExceptT.run (walk b)).run side = (.ok rs, side') →
      ∀ r ∈ rs, P r) :
    ∀ (bs : List String) (acc rs : List ObjectRecord) (side side' : ObjectSide),
      (∀ r ∈ acc, P r) →
      (ExceptT.run (forIn bs acc fun b s => do
        let x ← walk b
        pure (ForInStep.yield (s ++ x)))).run side = (.ok rs, side') →
      ∀ r ∈ rs, P r
  | [], acc, rs, side, side', hacc, h => by
    rw [List.forIn_nil] at h
    obtain ⟨rfl, -⟩ := run_pure_ok h
    exact hacc
  | b :: bs, acc, rs, side, side', hacc, h => by
    rw [List.forIn_cons] at h
    obtain ⟨step, side₁, h₁, h₂⟩ := run_bind_ok h
    obtain ⟨x, side₂, h₃, h₄⟩ := run_bind_ok h₁
    obtain ⟨rfl, rfl⟩ := run_pure_ok h₄
    refine forIn_walks walk hwalk bs (acc ++ x) rs _ side' ?_ h₂
    intro r hr
    rcases List.mem_append.1 hr with hr | hr
    · exact hacc r hr
    · exact hwalk b side x _ h₃ r hr

/-- Every record a walk of a path reports has an empty or normal relative path. -/
theorem scanPath_paths_normal {path : String} {rs : List ObjectRecord} {side side' : ObjectSide}
    (h : (ExceptT.run (scanPath path)).run side = (.ok rs, side')) :
    ∀ r ∈ rs, r.relativePath = "" ∨ IsNormal r.relativePath := by
  unfold scanPath at h
  have hwalk := run_get_bind_ok h
  dsimp only at hwalk
  split at hwalk
  · -- the empty path walks every allowed bucket whole
    obtain ⟨buckets, side₁, -, h₂⟩ := run_bind_ok hwalk
    obtain ⟨rs', side₂, h₃, h₄⟩ := run_bind_ok h₂
    obtain ⟨rfl, -⟩ := run_pure_ok h₄
    exact forIn_walks (scanBucket _ · "")
      (fun _ _ _ _ hb => scanBucket_paths_normal (.inl rfl) hb) buckets [] rs side₁ side₂
      (by simp) h₃
  obtain ⟨⟨bucket, key⟩, side₁, h₁, h₂⟩ := run_bind_ok hwalk
  have hkey := splitAllowed_key h₁
  dsimp only at h₂
  split at h₂
  · exact scanBucket_paths_normal (.inl rfl) h₂
  split at h₂
  · obtain ⟨rfl, -⟩ := run_pure_ok h₂
    simp
  obtain ⟨o, side₂, -, h₄⟩ := run_bind_ok h₂
  split at h₄
  · -- a path naming an object reports that object alone
    obtain ⟨rfl, -⟩ := run_pure_ok h₄
    simpa [ListedObject.record] using normalizeKey_normal _
  · exact scanBucket_paths_normal hkey h₄

/-- A path that is empty or without empty segments is kept by the fast path. -/
theorem collapseEmptySegments_of_normal {r : String} (h : r = "" ∨ IsNormal r) :
    collapseEmptySegments r = r := by
  rw [collapseEmptySegments_eq_normalizeKey]
  rcases h with rfl | h
  · rfl
  · exact h.normalizeKey

/-! ## The normalizers together -/

/-- A path names a bucket exactly when it cleans to something; it then cleans to `bucket/key`,
and the connector splits it into the same bucket and key, refusing the bucket only by its
allow-list. After a rebuild joins them again, the connector reads that bucket and key back when
`bucket/key` has no blank at either end. Dropping empty segments by the fast path is dropping
them by splitting, and keeps every relative path a walk reports. -/
theorem objectPath_normalizers_agree (p r : String) :
    ((∃ b k, splitObjectPath p = some (b, k)) ↔ cleanPath p ≠ "") ∧
    (∀ b k, splitObjectPath p = some (b, k) →
      cleanPath p = joinBucket b k ∧
      splitAllowed p = (do
        if (← allowedBuckets).contains b then pure (b, k) else throw (.bucketNotAllowed b)) ∧
      (trim (joinBucket b k) = joinBucket b k →
        splitAllowed (cleanPath (joinRel b k)) = splitAllowed p)) ∧
    collapseEmptySegments r = normalizeKey r ∧
    ∀ path side side' rs, (ExceptT.run (scanPath path)).run side = (.ok rs, side') →
      ∀ x ∈ rs, collapseEmptySegments x.relativePath = x.relativePath := by
  refine ⟨?_, fun b k h => ?_, collapseEmptySegments_eq_normalizeKey r,
    fun path side side' rs h x hx => collapseEmptySegments_of_normal (scanPath_paths_normal h x hx)⟩
  · rw [← not_iff_not, ne_eq, not_not, ← splitObjectPath_eq_none_iff, Option.eq_none_iff_forall_ne_some]
    simp
  · obtain ⟨hc, -, -, -⟩ := splitObjectPath_some h
    refine ⟨hc, splitAllowed_of_splitObjectPath h, fun ht => ?_⟩
    -- the connector cleans the path it is handed once more
    have ht' : trim (cleanPath p) = cleanPath p := by rw [hc]; exact ht
    rw [cleanPath_joinRel_rejoined h ht, ← hc]
    unfold splitAllowed
    rw [cleanPath_cleanPath ht']

end DataCatalog.Storage
