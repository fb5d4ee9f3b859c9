import DataCatalog.Proofs.Scan.Rebuild
import DataCatalog.Proofs.Scan.TableEntries
/-!
# The tree a bucket pass leaves

A bucket pass clears the bucket node's subtree and rebuilds it from a walk of the bucket. What
it leaves there is exactly the directory tree of the walked objects: one live prefix node per
directory strictly above an object's normalized path, named and placed by that directory; one
object item per normalized path, below the node of its directory, holding the object of the
greatest key that normalizes to it; and the bucket node itself, scanned, reporting how many
objects the walk listed and their wrapping total size.

The rebuild keeps, between records, the tracked prefix nodes (`Frame`): the target at the base
and every other one linked to its parent's entry, together exactly the nodes of the subtree.
Beside it, `Stock` says which items the object records placed so far have left below them: the
item of a path shows the last record of that path. Neither needs the catalog's aggregates to be
right, so the tree comes out whatever the catalog held before.
-/

namespace DataCatalog.Catalog

open DataCatalog.Ident DataCatalog.Storage

section Writes

variable {c c' : Tables}

/-- A node write keeps every row of another id, and the row it returns replaces any row of its
id. -/
theorem upsertNode_keeps (hw : c.Wf) {i : NodeInput} {row : NodeRow}
    (h : upsertNode i c = .ok (row, c')) :
    row ∈ c'.nodes ∧ (∀ x ∈ c.nodes, x.id ≠ row.id → x ∈ c'.nodes) ∧
      ∀ x ∈ c.nodes, x.id = row.id → row.Refines x := by
  rcases (upsertNode_cases hw h).2 with ⟨old, hold, -, href, hc'⟩ | ⟨-, hfresh, hc'⟩
  · rw [hc']
    refine ⟨List.mem_map.2 ⟨old, hold, if_pos rfl⟩, fun x hx hne => ?_, fun x hx hid => ?_⟩
    · exact List.mem_map.2 ⟨x, hx, if_neg (href.id ▸ hne)⟩
    · obtain rfl := hw.node_eq_of_id hx hold (hid.trans href.id)
      exact href
  · rw [hc']
    exact ⟨List.mem_append_right _ (List.mem_singleton_self _),
      fun x hx _ => List.mem_append_left _ hx, fun x hx hid => absurd hid (hfresh x hx)⟩

/-- An item write keeps the nodes and every item of another key below its node, and holds the
row it returns, which carries what the write asked for. -/
theorem upsertItem_cases (hw : c.Wf) {i : ItemInput} {row : ItemRow}
    (h : upsertItem i c = .ok (row, c')) :
    ∃ node, c.nodeById? i.tenant i.node = some node ∧ c'.nodes = c.nodes ∧ row ∈ c'.items ∧
      row.node = node.id ∧ row.kind = i.kind ∧ row.name = i.name ∧
      row.sizeBytes = i.sizeBytes ∧ row.lastModifiedMs = i.lastModified.map Time.Instant.toMillis ∧
      row.attributes = i.attributes ∧
      (∀ it ∈ c'.items, it = row ∨ (it ∈ c.items ∧ it.hasKey i.tenant node.id i.kind i.name = false)) ∧
      ∀ it ∈ c.items, it.hasKey i.tenant node.id i.kind i.name = false → it ∈ c'.items := by
  obtain ⟨node, hnode, ⟨old, hfind, rfl, rfl⟩ | ⟨hfind, rfl, rfl⟩⟩ := upsertItem_ok h
  · have hold := List.mem_of_find?_eq_some hfind
    have hfound := List.find?_some hfind
    obtain ⟨hot, hon, hok, hona⟩ := ItemRow.hasKey_iff.1 hfound
    have hmap := replaceWhere_eq_map ItemRow.id old.id (fun _ => old.rewritten i node) c.items
      hw.itemIds
    -- a row of another key keeps its place: its id is not the rewritten one's
    have hother : ∀ it ∈ c.items, it.hasKey i.tenant node.id i.kind i.name = false →
        it.id ≠ old.id := fun it hit hk hid => by
      obtain rfl := hw.item_eq_of_id hit hold hid
      simp [hfound] at hk
    refine ⟨node, hnode, rfl, mem_replaceWhere_const ⟨old, hold, by simp⟩, hon, hok, hona, rfl,
      rfl, rfl, fun it hit => ?_, fun it hit hk => ?_⟩
    · simp only [hmap, List.mem_map] at hit
      obtain ⟨x, hx, rfl⟩ := hit
      by_cases hid : x.id = old.id
      · exact .inl (if_pos hid)
      · rw [if_neg hid]
        refine .inr ⟨hx, ?_⟩
        rw [Bool.eq_false_iff]
        intro hk
        obtain ⟨hxt, hxn, hxk, hxa⟩ := ItemRow.hasKey_iff.1 hk
        -- two rows of one node agree on tenant and resource, so `x` would have `old`'s key
        obtain ⟨hnm, -, -, -⟩ := Tables.nodeById?_some hnode
        have hxr := (hw.item_of_node hnm hx hxn).2
        have hor := (hw.item_of_node hnm hold hon).2
        refine hid (congrArg ItemRow.id (List.inj_on_of_nodup_map hw.itemKeys hx hold ?_))
        simp [ItemRow.naturalKey, hxt, hot, hxr, hor, hxn, hon, hxk, hok, hxa, hona]
    · rw [hmap]
      exact List.mem_map.2 ⟨it, hit, if_neg (hother it hit hk)⟩
  · refine ⟨node, hnode, rfl, List.mem_append_right _ (List.mem_singleton_self _), rfl, rfl,
      rfl, rfl, rfl, rfl, fun it hit => ?_, fun it hit _ => List.mem_append_left _ hit⟩
    rcases List.mem_append.1 hit with hit | hit
    · exact .inr ⟨hit, by simpa using List.find?_eq_none.1 hfind it hit⟩
    · exact .inl (List.mem_singleton.1 hit)

/-- Some row of id `x` is marked scanned. -/
def Tables.ScannedAt (c : Tables) (x : NodeId) : Prop :=
  ∃ r ∈ c.nodes, r.id = x ∧ r.scanStatus = .scanned

/-- Finishing a scan keeps every mark made before. -/
theorem Tables.ScannedAt.finish {x : NodeId} (h : c.ScannedAt x) {t : TenantId} {id : NodeId}
    {a : Aggregate} (hf : finishNodeScan t id a c = .ok ((), c')) : c'.ScannedAt x := by
  obtain rfl := finishNodeScan_ok hf
  obtain ⟨r, hr, rfl, hs⟩ := h
  refine ⟨_, List.mem_map_of_mem hr, ?_, ?_⟩ <;> split <;> simp [NodeRow.finished, hs]

/-- Finishing the scan of a placed node marks it scanned. -/
theorem Tables.Places.scannedAt_finish {n : NodeRow} (h : c.Places n) {a : Aggregate}
    (hf : finishNodeScan n.tenant n.id a c = .ok ((), c')) : c'.ScannedAt n.id := by
  obtain rfl := finishNodeScan_ok hf
  obtain ⟨r, hr, href, -⟩ := h
  refine ⟨_, List.mem_map.2 ⟨r, hr, if_pos ?_⟩, href.id, rfl⟩
  simp [NodeRow.isNode, href.tenant, href.id]

end Writes

/-- The item shows the object record: an object item named by its path's last segment, with the
record's size, time and attributes. -/
structure ItemRow.Shows (it : ItemRow) (r : ObjectRecord) : Prop where
  kind : it.kind = .object
  name : it.name = baseName r.relativePath
  size : it.sizeBytes = r.sizeBytes
  modified : it.lastModifiedMs = r.lastModified.map Time.Instant.toMillis
  attributes : it.attributes = .object r.fileType r.contentType r.etag

end DataCatalog.Catalog

namespace DataCatalog.Text

/-- Joining two non-empty runs of segments puts one separator between them. -/
theorem joinWith_append : ∀ {a b : List String}, a ≠ [] → b ≠ [] →
    joinWith "/" (a ++ b) = joinWith "/" a ++ "/" ++ joinWith "/" b
  | [x], b, _, hb => by
    obtain ⟨y, rest, rfl⟩ := List.exists_cons_of_ne_nil hb
    rfl
  | x :: y :: rest, b, _, hb => by
    have ih := joinWith_append (a := y :: rest) (List.cons_ne_nil _ _) hb
    calc joinWith "/" ((x :: y :: rest) ++ b) = x ++ "/" ++ joinWith "/" ((y :: rest) ++ b) := rfl
      _ = joinWith "/" (x :: y :: rest) ++ "/" ++ joinWith "/" b := by
        rw [ih, joinWith_cons_cons]
        simp only [String.append_assoc]

end DataCatalog.Text

namespace DataCatalog.Storage

open DataCatalog.Text

/-! ## Directories of a walk -/

/-- `d` is a directory strictly above the path `r`: `r` goes on below it after a slash. -/
def IsDirOf (d r : String) : Prop := ∃ rest, r = d ++ "/" ++ rest

/-- The objects a walk of a bucket lists: those that are not directory markers and have no
reserved segment. -/
def walkedObjects (os : List ListedObject) : List ListedObject :=
  os.filter fun o => !Text.hasSuffix o.key "/" && !hasReservedSegment o.key

theorem IsDirOf.normal {d r : String} (h : IsDirOf d r) (hr : IsNormal r) : IsNormal d := by
  obtain ⟨rest, rfl⟩ := h
  intro seg hseg
  exact hr seg (by rw [splitOn_append_slash]; exact List.mem_append_left _ hseg)

/-- The directory of a path with a slash is a directory above it. -/
theorem isDirOf_parentDir {r : String} (hs : '/' ∈ r.toList) : IsDirOf (parentDir r) r := by
  obtain ⟨d, b, -, rfl, hd, -⟩ := exists_parentDir_baseName hs
  exact ⟨b, by rw [hd]⟩

/-- One directory up from a directory above `r` is the top, or again a directory above `r`. -/
theorem IsDirOf.parentDir {d r : String} (h : IsDirOf d r) :
    Storage.parentDir d = "" ∨ IsDirOf (Storage.parentDir d) r := by
  by_cases hs : '/' ∈ d.toList
  · obtain ⟨d', b, -, rfl, hd, -⟩ := exists_parentDir_baseName hs
    obtain ⟨rest, rfl⟩ := h
    exact .inr ⟨b ++ "/" ++ rest, by rw [hd]; simp only [String.append_assoc]⟩
  · exact .inl (parentDir_of_not_mem hs)

/-- A directory of the listing `objs`: one above the normal form of some object's key. -/
def ListingDir (objs : List ListedObject) (d : String) : Prop :=
  ∃ o ∈ objs, IsDirOf d (normalizeKey o.key)

theorem IsDirOf.ne_empty {d r : String} (h : IsDirOf d r) : r ≠ "" := by
  obtain ⟨rest, rfl⟩ := h
  intro he
  have := congrArg String.length he
  have hs : "/".length = 1 := rfl
  simp only [String.length_append, hs, String.length_empty] at this
  omega

/-- The directory of a path below `d` is `d` itself, or again below `d`. -/
theorem IsDirOf.parentDir_eq_or {d r : String} (h : IsDirOf d r) :
    Storage.parentDir r = d ∨ IsDirOf d (Storage.parentDir r) := by
  obtain ⟨rest, rfl⟩ := h
  by_cases hs : '/' ∈ rest.toList
  · obtain ⟨p, b, hb, rfl, -, -⟩ := exists_parentDir_baseName hs
    right
    refine ⟨p, ?_⟩
    rw [show d ++ "/" ++ (p ++ "/" ++ b) = d ++ "/" ++ p ++ "/" ++ b by
      simp only [String.append_assoc]]
    simp [Storage.parentDir, splitLast_append_slash hb]
  · left
    simp [Storage.parentDir, splitLast_append_slash hs]

/-- A directory of a normal path is normal, and so is its own normal form. -/
theorem IsDirOf.normalizeKey_eq {d key : String} (h : IsDirOf d (normalizeKey key)) :
    IsNormal d ∧ normalizeKey d = d := by
  have hn : IsNormal (normalizeKey key) := (normalizeKey_normal key).resolve_left h.ne_empty
  have hd := h.normal hn
  exact ⟨hd, hd.normalizeKey⟩

/-- Dropping empty segments keeps a path free of reserved segments. -/
theorem Unreserved.normalizeKey {k : String} (h : Unreserved k) :
    Unreserved (Storage.normalizeKey k) := by
  unfold Storage.normalizeKey
  generalize hsegs : (splitOn '/' k).filter (!·.isEmpty) = segs
  cases segs with
  | nil => exact unreserved_empty
  | cons s rest =>
    have hsub : ∀ x ∈ s :: rest, x ∈ splitOn '/' k := fun x hx =>
      (List.mem_filter.1 (hsegs ▸ hx)).1
    intro seg hseg
    rw [splitOn_joinWith (List.cons_ne_nil _ _)] at hseg
    · exact h seg (hsub seg hseg)
    · intro x hx
      obtain ⟨cs, hcs, rfl⟩ := List.mem_map.1 (hsub x hx)
      simpa using not_mem_of_mem_splitList hcs

/-- The directories a walk reports for a key are the directories above its normal form. -/
theorem isDirOf_of_mem_directoriesOf {key d : String} (h : d ∈ directoriesOf "" key) :
    IsDirOf d (normalizeKey key) := by
  unfold directoriesOf at h
  obtain ⟨k, hk, rfl⟩ := List.mem_map.1 h
  rw [List.mem_range] at hk
  have hne₁ : ((splitOn '/' key).filter (!·.isEmpty)).take (k + 1) ≠ [] := by
    simp only [ne_eq, List.take_eq_nil_iff, Nat.add_one_ne_zero, false_or]
    intro he
    simp [he] at hk
  have hne₂ : ((splitOn '/' key).filter (!·.isEmpty)).drop (k + 1) ≠ [] := by
    simp only [ne_eq, List.drop_eq_nil_iff, not_le]
    omega
  refine ⟨joinWith "/" (((splitOn '/' key).filter (!·.isEmpty)).drop (k + 1)), ?_⟩
  rw [String.empty_append, ← joinWith_append hne₁ hne₂, List.take_append_drop]
  rfl

/-- Adding an object to a directory table adds at most its directory. -/
theorem mem_bumpDir {dir d : String} {size : Int} :
    ∀ {acc : List (String × Int × Int)}, d ∈ (bumpDir dir size acc).map (·.1) →
      d = dir ∨ d ∈ acc.map (·.1)
  | [], h => by simpa [bumpDir] using h
  | (d', s, n) :: rest, h => by
    unfold bumpDir at h
    split at h
    · exact .inr (by simpa using h)
    split at h
    · simpa using h
    simp only [List.map_cons, List.mem_cons] at h
    rcases h with h | h
    · exact .inr (by simp [h])
    · rcases mem_bumpDir h with h | h
      · exact .inl h
      · exact .inr (by simp [h])

/-- Folding a table over a list, where each step adds at most the keys its element gives,
adds only those keys. -/
theorem mem_foldl_keys {β : Type} {d : String}
    {f : List (String × Int × Int) → β → List (String × Int × Int)} (keysOf : β → List String)
    (hf : ∀ acc x, d ∈ (f acc x).map (·.1) → d ∈ acc.map (·.1) ∨ d ∈ keysOf x) :
    ∀ (xs : List β) (acc : List (String × Int × Int)),
      d ∈ (xs.foldl f acc).map (·.1) → d ∈ acc.map (·.1) ∨ ∃ x ∈ xs, d ∈ keysOf x
  | [], acc, h => .inl h
  | x :: xs, acc, h => by
    rcases mem_foldl_keys keysOf hf xs (f acc x) h with h | ⟨y, hy, hd⟩
    · rcases hf acc x h with h | h
      · exact .inl h
      · exact .inr ⟨x, List.mem_cons_self, h⟩
    · exact .inr ⟨y, List.mem_cons_of_mem _ hy, hd⟩

/-- The directory table a walk builds holds the directories of its objects only. -/
theorem mem_dirTable {listPrefix d : String} (objs : List ListedObject) :
    d ∈ (objs.foldl (fun acc o =>
        (directoriesOf listPrefix (Text.dropChars o.key listPrefix.length)).foldl
          (fun acc d => bumpDir d o.sizeBytes acc) acc) []).map (·.1) →
      ∃ o ∈ objs, d ∈ directoriesOf listPrefix (Text.dropChars o.key listPrefix.length) := by
  intro h
  -- each object adds the directories above it, one at a time
  have hstep : ∀ (acc : List (String × Int × Int)) (o : ListedObject),
      d ∈ ((directoriesOf listPrefix (Text.dropChars o.key listPrefix.length)).foldl
        (fun acc d => bumpDir d o.sizeBytes acc) acc).map (·.1) →
      d ∈ acc.map (·.1) ∨ d ∈ directoriesOf listPrefix (Text.dropChars o.key listPrefix.length) := by
    intro acc o h
    rcases mem_foldl_keys (fun x => [x]) (fun acc x h =>
      (mem_bumpDir h).symm.imp id List.mem_singleton.2) _ acc h with h | ⟨x, hx, hd⟩
    · exact .inl h
    · exact .inr (List.mem_singleton.1 hd ▸ hx)
  rcases mem_foldl_keys _ hstep objs [] h with h | h
  · simp at h
  · exact h

/-- A walk of a whole bucket: the bucket's own record, counting the walked objects and their
wrapping total, then one record per directory above a walked object, then the walked objects'
records in key order. -/
theorem scanBucket_whole {R : List (String × String)} {bucket : String} {rs : List ObjectRecord}
    (h : (ExceptT.run (scanBucket R bucket "")).run side = (.ok rs, side')) :
    side'.store.buckets = side.store.buckets ∧ ∃ os, side.store.buckets.lookup bucket = some os ∧
      ∃ root dirs, rs = root :: (dirs ++ ((walkedObjects os).mergeSort
          fun a b => decide (a.key ≤ b.key)).map (·.record R bucket)) ∧
        root.bucket = bucket ∧ root.relativePath = "" ∧ root.kind = .bucket ∧
        root.objectCount = (walkedObjects os).length ∧
        root.sizeBytes = Word.wrappingSum ((walkedObjects os).map (·.sizeBytes)) ∧
        ∀ r ∈ dirs, r.kind = .keyPrefix ∧ r.bucket = bucket ∧
          ∃ o ∈ walkedObjects os, IsDirOf r.relativePath (normalizeKey o.key) := by
  unfold scanBucket at h
  simp only [show ("" : String).isEmpty = true from rfl, if_true] at h
  obtain ⟨listed, side₁, h₁, h₂⟩ := run_bind_ok h
  obtain ⟨hb, os, hos, rfl⟩ := listObjects_ok (onStore_ok h₁)
  obtain ⟨rfl, rfl⟩ := run_pure_ok h₂
  have hall : os.filter (fun o => Text.hasPrefix o.key "") = os :=
    List.filter_eq_self.2 fun o _ => by simp [Text.hasPrefix]
  -- sorting permutes the walked objects
  have hperm := List.mergeSort_perm (walkedObjects os) fun a b => decide (a.key ≤ b.key)
  unfold walkedObjects at hperm ⊢
  rw [hall]
  refine ⟨hb, os, hos, _, _, rfl, rfl, rfl, rfl, by rw [hperm.length_eq], ?_, fun r hr => ?_⟩
  · simp only [Word.wrappingSum]
    exact congrArg Word.wrap (hperm.map _).sum_eq
  · obtain ⟨x, hx, rfl⟩ := List.mem_map.1 hr
    obtain ⟨o, ho, hd⟩ := mem_dirTable _ (List.mem_map_of_mem hx)
    refine ⟨rfl, rfl, o, hperm.subset ho, isDirOf_of_mem_directoriesOf ?_⟩
    simpa [Text.dropChars] using hd

/-! ## A walk of a whole bucket -/

/-- A trailing slash stops the trimming of trailing blanks. -/
theorem trimList_append_slash (l : List Char) :
    trimList (l ++ ['/']) = dropBlanks l ++ ['/'] := by
  have hslash : isBlank '/' = false := by decide
  have hfront : dropBlanks (l ++ ['/']) = dropBlanks l ++ ['/'] := by
    unfold dropBlanks
    rw [List.dropWhile_append]
    split
    · rename_i he
      rw [List.isEmpty_iff.1 he, List.nil_append]
      exact List.dropWhile_cons_of_neg (by simp [hslash])
    · rfl
  unfold trimList
  rw [hfront, List.reverse_append, List.reverse_singleton, List.singleton_append, dropBlanks,
    List.dropWhile_cons_of_neg (by simp [hslash])]
  simp

/-- A text that trimming leaves alone has no leading blank to drop. -/
theorem dropBlanks_of_trimList {l : List Char} (h : trimList l = l) : dropBlanks l = l := by
  have hle : (trimList l).length ≤ (dropBlanks l).length := by
    unfold trimList
    rw [List.length_reverse]
    exact ((List.dropWhile_suffix _).length_le).trans (List.length_reverse).le
  rw [h] at hle
  exact (List.dropWhile_suffix _).eq_of_length
    (Nat.le_antisymm (List.dropWhile_suffix _).length_le hle)

/-- A clean bucket name is its own only path segment: not blank, with no slash and no blank at
either end. -/
theorem pathSegments_bucket {B : String} (h : splitObjectPath B = some (B, "")) :
    isBlankSegment B = false ∧ '/' ∉ B.toList ∧ trimList B.toList = B.toList ∧
      dropBlanks B.toList = B.toList := by
  unfold splitObjectPath at h
  split at h
  · cases h
  rename_i bucket rest hsegs
  obtain ⟨rfl, -⟩ := Prod.mk.inj (Option.some.inj h)
  obtain ⟨hsplit, hblank⟩ := List.mem_filter.1
    (show bucket ∈ pathSegments bucket by rw [hsegs]; exact List.mem_cons_self)
  obtain ⟨seg, hseg, hb⟩ := List.mem_map.1 hsplit
  have hslash : '/' ∉ bucket.toList := by
    rw [← hb, String.toList_ofList]
    exact not_mem_of_mem_splitList hseg
  -- the trimmed name has no slash, so it is the segment itself
  have hnot : '/' ∉ trimList bucket.toList := fun hm => by
    unfold trimList dropBlanks at hm
    rw [List.mem_reverse] at hm
    exact hslash ((List.dropWhile_suffix _).subset
      (List.mem_reverse.1 ((List.dropWhile_suffix _).subset hm)))
  rw [Text.trim, String.toList_ofList, splitList_of_not_mem hnot, List.mem_singleton] at hseg
  have htrim : trimList bucket.toList = bucket.toList := by rw [← hseg, ← hb, String.toList_ofList]
  exact ⟨by simpa using hblank, hslash, htrim, dropBlanks_of_trimList htrim⟩

/-- A clean bucket name, with or without the slash a walk of the whole bucket adds, cleans to
itself. -/
theorem cleanPath_bucket {B : String} (h : splitObjectPath B = some (B, "")) :
    cleanPath (joinRel B "") = B ∧ cleanPath B = B := by
  obtain ⟨hblank, hslash, htrim, hdrop⟩ := pathSegments_bucket h
  have hne : B ≠ "" := by
    rintro rfl
    exact absurd hblank (by decide)
  have hkeep : B.toList.all isBlank = false := hblank
  constructor
  · have ht : Text.trim (joinRel B "") = B ++ "/" := by
      rw [joinRel_of_ne hne, String.append_empty, Text.trim, String.toList_append,
        show "/".toList = ['/'] from rfl, trimList_append_slash, hdrop, ← String.toList_inj,
        String.toList_ofList, String.toList_append]
      rfl
    rw [cleanPath, pathSegments, ht, splitOn, String.toList_append,
      show "/".toList = ['/'] from rfl, splitList_append_sep, splitList_of_not_mem hslash]
    simp [splitList, hkeep, isBlankSegment, joinWith]
  · have ht : Text.trim B = B := by
      rw [Text.trim, htrim, String.ofList_toList]
    rw [cleanPath, pathSegments, ht, splitOn, splitList_of_not_mem hslash]
    simp [hkeep, isBlankSegment, joinWith]

/-- A walk of a clean bucket name with the slash a rebuild adds is a walk of the whole bucket,
after a check of the allow-list that leaves the buckets alone. -/
theorem scanPath_bucket {B : String} (hB : splitObjectPath B = some (B, "")) {rs : List ObjectRecord}
    (h : (ExceptT.run (scanPath (joinRel B ""))).run side = (.ok rs, side')) :
    ∃ side₁, side₁.store.buckets = side.store.buckets ∧
      (ExceptT.run (scanBucket side.mediaTypes B "")).run side₁ = (.ok rs, side') := by
  obtain ⟨hc, hc'⟩ := cleanPath_bucket hB
  obtain ⟨hblank, hslash, -, -⟩ := pathSegments_bucket hB
  have hne : B.isEmpty = false := by
    rw [Bool.eq_false_iff]
    intro he
    rw [String.isEmpty_iff] at he
    subst he
    exact absurd hblank (by decide)
  unfold scanPath at h
  have hwalk := run_get_bind_ok h
  dsimp only at hwalk
  rw [hc, hne] at hwalk
  obtain ⟨⟨bucket, key⟩, side₁, h₁, h₂⟩ := run_bind_ok hwalk
  obtain ⟨hbk, hb⟩ := splitAllowed_ok h₁
  rw [hc', Text.splitFirst_none hslash] at hbk
  obtain ⟨rfl, rfl⟩ := Prod.mk.inj hbk
  exact ⟨side₁, hb, h₂⟩

end DataCatalog.Storage

namespace DataCatalog.Scan

open DataCatalog.Catalog DataCatalog.Storage

/-! ## The tracked prefix nodes -/

/-- Setting entry `k` to a row of the id tracked there keeps every entry under its key and id. -/
theorem survives_setEntry {k : String} {v : NodeRow} {tracked : List (String × NodeRow)}
    (hnd : (tracked.map (·.1)).Nodup) (hkey : ∀ e ∈ tracked, e.1 = k → e.2.id = v.id) :
    ∀ q ∈ tracked, ∃ q' ∈ setEntry k v tracked, q'.1 = q.1 ∧ q'.2.id = q.2.id := by
  intro q hq
  by_cases hqk : q.1 = k
  · exact ⟨(k, v), (mem_setEntry hnd).2 (.inl rfl), hqk.symm, (hkey q hq hqk).symm⟩
  · exact ⟨q, (mem_setEntry hnd).2 (.inr ⟨hqk, hq⟩), rfl, rfl⟩

/-- The prefix nodes a subtree rebuild of `target`, walked from `base`, has tracked in catalog
`c` by relative path: the target at the base, every other one linked to the entry of its parent
one segment up, and together exactly the nodes of the target's subtree. -/
structure Frame (c : Tables) (target : NodeRow) (base : String)
    (tracked : List (String × NodeRow)) : Prop where
  wf : c.Wf
  root : ∃ t, (base, t) ∈ tracked ∧ t.Refines target
  keys : (tracked.map (·.1)).Nodup
  ids : (tracked.map (·.2.id)).Nodup
  rows : ∀ e ∈ tracked, c.Places e.2
  within : ∀ e ∈ tracked, e.2.tenant = target.tenant ∧ e.2.inSubtree target.path
  links : ∀ e ∈ tracked, e.1 ≠ base → ∃ q ∈ tracked, e.1 = joinRel q.1 e.2.name ∧
    e.2.parent = some q.2.id ∧ e.2.kind = .keyPrefix ∧ e.2.name ≠ "" ∧ '/' ∉ e.2.name.toList
  complete : ∀ n ∈ c.nodes, n.tenant = target.tenant → n.inSubtree target.path →
    ∃ e ∈ tracked, e.2.id = n.id

/-- Every entry of `tracked'` is one of `tracked` under its key and id, or names a node that
catalog `c` did not hold; and every entry of `tracked` is kept so in `tracked'`. -/
def TrackGrows (c : Tables) (tracked tracked' : List (String × NodeRow)) : Prop :=
  (∀ q ∈ tracked, ∃ q' ∈ tracked', q'.1 = q.1 ∧ q'.2.id = q.2.id) ∧
    ∀ e ∈ tracked', (∃ q ∈ tracked, q.1 = e.1 ∧ q.2.id = e.2.id) ∨ ∀ n ∈ c.nodes, n.id ≠ e.2.id

namespace Frame

variable {c c' : Tables} {target : NodeRow} {base : String} {tracked : List (String × NodeRow)}

theorem eq_of_id (h : Frame c target base tracked) {e e' : String × NodeRow}
    (he : e ∈ tracked) (he' : e' ∈ tracked) (hid : e.2.id = e'.2.id) : e = e' :=
  List.inj_on_of_nodup_map h.ids he he' hid

theorem eq_of_key (h : Frame c target base tracked) {e e' : String × NodeRow}
    (he : e ∈ tracked) (he' : e' ∈ tracked) (hk : e.1 = e'.1) : e = e' :=
  List.inj_on_of_nodup_map h.keys he he' hk

theorem entry_of_id (h : Frame c target base tracked) {k k' : String} {a b : NodeRow}
    (ha : (k, a) ∈ tracked) (hb : (k', b) ∈ tracked) (hid : a.id = b.id) : k = k' ∧ a = b :=
  Prod.mk.inj (h.eq_of_id ha hb hid)

theorem entry_of_key (h : Frame c target base tracked) {k : String} {a b : NodeRow}
    (ha : (k, a) ∈ tracked) (hb : (k, b) ∈ tracked) : a = b :=
  (Prod.mk.inj (h.eq_of_key ha hb rfl)).2

/-- A row of a tracked node's id is the one in its place. -/
theorem row_eq (h : Frame c target base tracked) {e : String × NodeRow} (he : e ∈ tracked)
    {n : NodeRow} (hn : n ∈ c.nodes) (hid : n.id = e.2.id) : n.Refines e.2 := by
  obtain ⟨r, hr, href, -⟩ := h.rows e he
  obtain rfl := h.wf.node_eq_of_id hn hr (hid.trans href.id.symm)
  exact href

/-- A property holds of every tracked entry when it holds at the base and passes down each
link, from the entry one segment up to the entry below it. -/
theorem induction_links (h : Frame c target base tracked) {P : String × NodeRow → Prop}
    (hbase : ∀ e ∈ tracked, e.1 = base → P e)
    (hlink : ∀ e ∈ tracked, ∀ q ∈ tracked, e.1 ≠ base → e.1 = joinRel q.1 e.2.name →
      e.2.parent = some q.2.id → e.2.kind = .keyPrefix → e.2.name ≠ "" →
      '/' ∉ e.2.name.toList → P q → P e) :
    ∀ e ∈ tracked, P e := by
  intro e he
  -- induction on the length of the path: a link leads to a strictly shorter one
  induction hl : e.1.length using Nat.strong_induction_on generalizing e with
  | _ k ih =>
    by_cases hb : e.1 = base
    · exact hbase e he hb
    · obtain ⟨q, hq, hjoin, hqpar, hkind, hne, hslash⟩ := h.links e he hb
      have hlt : q.1.length < k := by
        rw [← hl, hjoin]
        exact length_lt_joinRel hne
      exact hlink e he q hq hb hjoin hqpar hkind hne hslash (ih _ hlt q hq rfl)

/-- Every tracked path is the base or longer. -/
theorem base_le (h : Frame c target base tracked) : ∀ e ∈ tracked, base.length ≤ e.1.length :=
  h.induction_links (fun e _ hb => hb ▸ Nat.le_refl _) fun e _ q _ _ hjoin _ _ hne _ hq => by
    rw [hjoin]
    exact hq.trans (length_lt_joinRel hne).le

/-- Going up from a tracked path stays on tracked paths, each step shorter. -/
theorem climbs (h : Frame c target base tracked) : ClimbsTo base (· ∈ tracked.map (·.1)) := by
  intro d hd hb
  obtain ⟨e, he, rfl⟩ := List.mem_map.1 hd
  obtain ⟨q, hq, hjoin, -, -, hne, hslash⟩ := h.links e he hb
  rw [hjoin, parentDir_joinRel hslash]
  exact ⟨List.mem_map_of_mem hq, length_lt_joinRel hne⟩

/-- A node below a tracked one is tracked one segment below it, under its own name. -/
theorem child_at (h : Frame c target base tracked) {cur : String} {par : NodeRow}
    (hp : (cur, par) ∈ tracked) {m : NodeRow} (hm : m ∈ c.nodes) (hpar : m.parent = some par.id) :
    ∃ e ∈ tracked, e.1 = joinRel cur m.name ∧ e.2.id = m.id := by
  obtain ⟨pr, hpr, hrefp, -⟩ := h.rows _ hp
  have hb := h.wf.sitsBelow_of_parent hm hpr (by rw [hpar, hrefp.id])
  obtain ⟨hpt, hps⟩ := h.within _ hp
  have hms : m.inSubtree target.path :=
    hb.inSubtree (by simpa [NodeRow.inSubtree, hrefp.path] using hps)
  obtain ⟨e, he, hid⟩ := h.complete m hm (by rw [← hb.tenant, hrefp.tenant, hpt]) hms
  have hrefm := h.row_eq he hm hid.symm
  by_cases hbase : e.1 = base
  · -- the target sits above every tracked node, never below one
    obtain ⟨t, ht, hreft⟩ := h.root
    obtain rfl : e = (base, t) := h.eq_of_key he ht hbase
    refine absurd ?_ hb.not_inSubtree
    simpa [NodeRow.inSubtree, hrefm.path, hreft.path, hrefp.path] using hps
  · obtain ⟨q, hq, hjoin, hqpar, -, -, -⟩ := h.links e he hbase
    have hqid : q.2.id = (cur, par).2.id := by
      rw [← hrefm.parent, hpar] at hqpar
      exact (Option.some.inj hqpar).symm
    obtain rfl := h.eq_of_id hq hp hqid
    have hname : e.2.name = m.name := (NodeRow.naturalKey_eq.1 hrefm.key).2.2.2.2.symm
    exact ⟨e, he, by rw [hjoin, hname], hid⟩

/-- A path one segment below a tracked one is not the base. -/
theorem joinRel_ne_base (h : Frame c target base tracked) {cur s : String} {par : NodeRow}
    (hp : (cur, par) ∈ tracked) (hs : s ≠ "") : joinRel cur s ≠ base := by
  intro he
  have h₁ : base.length ≤ cur.length := h.base_le _ hp
  have h₂ : cur.length < (joinRel cur s).length := length_lt_joinRel hs
  rw [he] at h₂
  omega

/-- The frame holds as long as the nodes stay the same. -/
theorem of_nodes (h : Frame c target base tracked) (hw' : c'.Wf) (hn : c'.nodes = c.nodes) :
    Frame c' target base tracked :=
  ⟨hw', h.root, h.keys, h.ids, fun e he => (h.rows e he).of_nodes hn, h.within, h.links,
    fun n hm => h.complete n (hn ▸ hm)⟩

/-- What is tracked one segment below a tracked parent is that parent's child of that name. -/
theorem at_child (h : Frame c target base tracked) {cur s : String} {par ex : NodeRow}
    (hp : (cur, par) ∈ tracked) (hx : (joinRel cur s, ex) ∈ tracked) (hs : s ≠ "")
    (hslash : '/' ∉ s.toList) : ex.parent = some par.id ∧ ex.kind = .keyPrefix ∧ ex.name = s := by
  obtain ⟨q, hq, hjoin, hqpar, hkind, -, hxslash⟩ := h.links _ hx (h.joinRel_ne_base hp hs)
  have hdir : q.1 = cur := by
    have := congrArg parentDir hjoin
    rwa [parentDir_joinRel hslash, parentDir_joinRel hxslash, eq_comm] at this
  have hname : ex.name = s := by
    have := congrArg baseName hjoin
    rwa [baseName_joinRel hslash, baseName_joinRel hxslash, eq_comm] at this
  obtain rfl := h.eq_of_key hq hp hdir
  exact ⟨hqpar, hkind, hname⟩

/-! ### Node writes -/

/-- Setting entry `k` to the row a node write returns keeps the frame when the row belongs at
`k`: it lies in the target's subtree, links to the entry of its parent, and takes the place of
whatever is tracked at `k` and of nothing else. -/
theorem write (h : Frame c target base tracked) {i : NodeInput} {k : String} {v : NodeRow}
    (hu : upsertNode i c = .ok (v, c'))
    (hvw : v.tenant = target.tenant ∧ v.inSubtree target.path)
    (hroot : k = base → v.Refines target)
    (hlink : k ≠ base → ∃ q ∈ tracked, k = joinRel q.1 v.name ∧ v.parent = some q.2.id ∧
      v.kind = .keyPrefix ∧ v.name ≠ "" ∧ '/' ∉ v.name.toList)
    (hkey : ∀ e ∈ tracked, e.1 = k → e.2.id = v.id)
    (hid : ∀ e ∈ tracked, e.2.id = v.id → e.1 = k) :
    Frame c' target base (setEntry k v tracked) := by
  have hmem : ∀ e, e ∈ setEntry k v tracked ↔ e = (k, v) ∨ (e.1 ≠ k ∧ e ∈ tracked) :=
    fun _ => mem_setEntry h.keys
  have hkeep := survives_setEntry h.keys hkey
  refine ⟨upsertNode_wf h.wf hu, ?root, nodup_setEntry _ h.keys h.keys fun _ _ he => he,
    nodup_setEntry _ h.keys h.ids hid, ?rows, ?within, ?links, ?complete⟩
  case root =>
    obtain ⟨t, ht, hreft⟩ := h.root
    by_cases hk : base = k
    · exact ⟨v, (hmem _).2 (.inl (by rw [hk])), hroot hk.symm⟩
    · exact ⟨t, (hmem _).2 (.inr ⟨hk, ht⟩), hreft⟩
  case rows =>
    intro e he
    rcases (hmem e).1 he with rfl | ⟨-, he⟩
    · exact (upsertNode_places_row h.wf hu).1
    · exact upsertNode_places h.wf hu (h.rows e he)
  case within =>
    intro e he
    rcases (hmem e).1 he with rfl | ⟨-, he⟩
    · exact hvw
    · exact h.within e he
  case links =>
    intro e he hb
    rcases (hmem e).1 he with rfl | ⟨hek, he⟩
    · obtain ⟨q, hq, hjoin, hpar, hkind, hne, hslash⟩ := hlink hb
      have hqk : q.1 ≠ k := fun e => by
        have := length_lt_joinRel (p := q.1) hne
        rw [← hjoin, e] at this
        exact Nat.lt_irrefl _ this
      exact ⟨q, (hmem q).2 (.inr ⟨hqk, hq⟩), hjoin, hpar, hkind, hne, hslash⟩
    · obtain ⟨q, hq, hjoin, hpar, hrest⟩ := h.links e he hb
      obtain ⟨q', hq', hk', hid'⟩ := hkeep q hq
      exact ⟨q', hq', by rw [hk', hjoin], by rw [hid', hpar], hrest⟩
  case complete =>
    intro n hn ht hs
    rcases upsertNode_nodes h.wf hu n hn with rfl | hn
    · exact ⟨(k, n), (hmem _).2 (.inl rfl), rfl⟩
    · obtain ⟨e, he, hid'⟩ := h.complete n hn ht hs
      obtain ⟨e', he', -, hid''⟩ := hkeep e he
      exact ⟨e', he', hid''.trans hid'⟩

/-- Setting entry `k` to a row that is either the one tracked at `k` again or a new node grows
the tracked table. -/
theorem grows_setEntry (h : Frame c target base tracked) {k : String} {v : NodeRow}
    (hkey : ∀ e ∈ tracked, e.1 = k → e.2.id = v.id)
    (hnew : (∃ q ∈ tracked, q.1 = k ∧ q.2.id = v.id) ∨ ∀ n ∈ c.nodes, n.id ≠ v.id) :
    TrackGrows c tracked (setEntry k v tracked) := by
  refine ⟨survives_setEntry h.keys hkey, fun e he => ?_⟩
  rcases (mem_setEntry h.keys).1 he with rfl | ⟨-, he⟩
  · exact hnew
  · exact .inl ⟨e, he, rfl, rfl⟩

/-- A node write that rewrites the row tracked at `k` in place keeps the frame. -/
theorem rewrite (h : Frame c target base tracked) {i : NodeInput} {k : String} {x v : NodeRow}
    (hu : upsertNode i c = .ok (v, c')) (hx : (k, x) ∈ tracked) (hvx : v.Refines x) :
    Frame c' target base (setEntry k v tracked) ∧ TrackGrows c tracked (setEntry k v tracked) := by
  obtain ⟨hxt, hxs⟩ := h.within _ hx
  obtain ⟨-, -, hpar, hkind, hname⟩ := NodeRow.naturalKey_eq.1 hvx.key
  have hkey : ∀ e ∈ tracked, e.1 = k → e.2.id = v.id := fun e he hek => by
    rw [hvx.id]
    exact congrArg (·.2.id) (h.eq_of_key he hx hek)
  refine ⟨h.write hu ⟨hvx.tenant.trans hxt, by simpa [NodeRow.inSubtree, hvx.path] using hxs⟩
    (fun hk => ?_) (fun hk => ?_) hkey (fun e he hid => ?_),
    h.grows_setEntry hkey (.inl ⟨(k, x), hx, rfl, hvx.id.symm⟩)⟩
  · obtain ⟨t, ht, hreft⟩ := h.root
    obtain rfl := h.entry_of_key (hk ▸ hx) ht
    exact hvx.trans hreft
  · obtain ⟨q, hq, hjoin, hqpar, hrest⟩ := h.links _ hx hk
    exact ⟨q, hq, by rw [hname]; exact hjoin, by rw [hpar]; exact hqpar,
      by rw [hkind, hname]; exact hrest⟩
  · exact congrArg (·.1) (h.eq_of_id he hx (hid.trans hvx.id))

/-- Writing the target again keeps the frame. -/
theorem rewriteTarget (h : Frame c target base tracked) {v : NodeRow}
    {attrs : Option NodeAttributes}
    (hu : upsertNode ⟨target.tenant, target.resource, target.parent, target.kind, target.name,
      attrs⟩ c = .ok (v, c')) :
    Frame c' target base (setEntry base v tracked) ∧
      TrackGrows c tracked (setEntry base v tracked) := by
  obtain ⟨t, ht, hreft⟩ := h.root
  obtain ⟨r, hr, hrt, -⟩ := h.rows _ ht
  have hkey : r.naturalKey = (target.tenant, target.resource, target.parent, target.kind,
      target.name) := (hrt.trans hreft).key
  rcases (upsertNode_cases h.wf hu).2 with ⟨old, hold, hok, hvo, -⟩ | ⟨hnone, -, -⟩
  · -- the row rewritten is the target's own
    obtain rfl : old = r := List.inj_on_of_nodup_map h.wf.nodeKeys hold hr (hok.trans hkey.symm)
    exact h.rewrite hu ht (hvo.trans hrt)
  · exact absurd hkey (hnone r hr)

/-- Writing the child named `s` of the node tracked at `cur` keeps the frame, with the child
tracked one segment below. -/
theorem writeChild (h : Frame c target base tracked) {cur s : String} {par v : NodeRow}
    {attrs : Option NodeAttributes} (hp : (cur, par) ∈ tracked) (hs : s ≠ "")
    (hslash : '/' ∉ s.toList)
    (hu : upsertNode ⟨par.tenant, par.resource, some par.id, .keyPrefix, s, attrs⟩ c =
      .ok (v, c')) :
    Frame c' target base (setEntry (joinRel cur s) v tracked) ∧
      TrackGrows c tracked (setEntry (joinRel cur s) v tracked) := by
  have hw' := upsertNode_wf h.wf hu
  obtain ⟨hvp, hkv⟩ := upsertNode_places_row h.wf hu
  simp only [NodeRow.naturalKey, Prod.mk.injEq] at hkv
  obtain ⟨hvt, -, hvpar, hvk, hvn⟩ := hkv
  rcases (upsertNode_cases h.wf hu).2 with ⟨old, hold, hok, hvo, -⟩ | ⟨hnone, hfresh, -⟩
  · -- the child existed: it is tracked one segment below its parent
    simp only [NodeRow.naturalKey, Prod.mk.injEq] at hok
    obtain ⟨-, -, hopar, -, honame⟩ := hok
    obtain ⟨e, he, hek, hid⟩ := h.child_at hp hold hopar
    rw [honame] at hek
    exact hek ▸ h.rewrite hu he (hvo.trans (h.row_eq he hold hid.symm))
  · -- a new child: nothing is tracked below the parent under its name
    have hnot : ∀ e ∈ tracked, e.1 ≠ joinRel cur s := by
      intro e he hek
      obtain ⟨ex, hx⟩ : ∃ ex, (joinRel cur s, ex) ∈ tracked := ⟨e.2, hek ▸ he⟩
      obtain ⟨hxpar, hxkind, hxname⟩ := h.at_child hp hx hs hslash
      obtain ⟨rx, hrx, hrefx, -⟩ := h.rows _ hx
      obtain ⟨pr, hpr, hrefp, -⟩ := h.rows _ hp
      have hb := h.wf.sitsBelow_of_parent hrx hpr (by rw [hrefx.parent, hxpar, hrefp.id])
      refine hnone rx hrx ?_
      simp only [NodeRow.naturalKey, Prod.mk.injEq]
      refine ⟨?_, ?_, ?_, ?_, ?_⟩
      · rw [← hb.tenant, hrefp.tenant]
      · rw [← hb.resource, (NodeRow.naturalKey_eq.1 hrefp.key).2.1]
      · rw [hrefx.parent, hxpar]
      · rw [(NodeRow.naturalKey_eq.1 hrefx.key).2.2.2.1, hxkind]
      · rw [(NodeRow.naturalKey_eq.1 hrefx.key).2.2.2.2, hxname]
    have hvw : v.tenant = target.tenant ∧ v.inSubtree target.path := by
      obtain ⟨hpt, hps⟩ := h.within _ hp
      obtain ⟨rv, hrv, hrefv, -⟩ := hvp
      obtain ⟨pr, hpr, hrefp, -⟩ := upsertNode_places h.wf hu (h.rows _ hp)
      have hb := hw'.sitsBelow_of_parent hrv hpr (by rw [hrefv.parent, hvpar, hrefp.id])
      refine ⟨by rw [hvt, hpt], ?_⟩
      have : rv.inSubtree target.path :=
        hb.inSubtree (by simpa [NodeRow.inSubtree, hrefp.path] using hps)
      simpa [NodeRow.inSubtree, hrefv.path] using this
    have hkey : ∀ e ∈ tracked, e.1 = joinRel cur s → e.2.id = v.id :=
      fun e he hek => absurd hek (hnot e he)
    refine ⟨h.write hu hvw (fun hk => absurd hk fun hk => hnot _ (h.root.choose_spec.1) hk.symm)
      (fun _ => ⟨_, hp, by rw [hvn], hvpar, hvk, hvn ▸ hs, hvn ▸ hslash⟩) hkey
      (fun e he hid => absurd hid ?_), h.grows_setEntry hkey (.inr hfresh)⟩
    obtain ⟨r, hr, hrefr, -⟩ := h.rows e he
    exact fun hid => hfresh r hr (hrefr.id.trans hid)

/-! ### Starting and restamping -/

/-- Clearing the target's subtree starts the frame with the target alone, at the base, and
leaves no item below it. -/
theorem start (hw : c.Wf) (hp : c.Places target) {r : Nat × Nat}
    (hc : clearSubtree target.tenant target.id c = .ok (r, c')) :
    Frame c' target base [(base, target)] ∧ ∀ it ∈ c'.items, it.node ≠ target.id := by
  obtain ⟨tr, htr, href⟩ := hw.nodeById?_of_places hp
  obtain ⟨node, hnode, rfl⟩ := clearSubtree_ok hc
  rw [htr, Option.some.injEq] at hnode
  subst hnode
  have hrm := (Tables.nodeById?_some htr).1
  have hone : ∀ e ∈ [(base, target)], e = (base, target) := fun e he => List.mem_singleton.1 he
  refine ⟨⟨hw.clearedBelow hrm, ⟨target, List.mem_singleton_self _, .refl _⟩, by simp, by simp,
    ?rows, ?within, ?links, ?complete⟩, fun it hit hid => ?_⟩
  case rows =>
    intro e he
    rw [hone e he]
    exact hp.clearedBelow fun _ _ => href.id.symm
  case within =>
    intro e he
    rw [hone e he]
    exact ⟨rfl, target.inSubtree_self⟩
  case links =>
    intro e he hb
    rw [hone e he] at hb
    exact absurd rfl hb
  case complete =>
    -- only the target's own row is left in its subtree
    intro n hn ht hs
    have hkept := NodeRow.keptBelow_iff.1 (List.mem_filter.1 hn).2
    have hid := hkept (by rw [ht, href.tenant]) (by simpa [NodeRow.inSubtree, href.path] using hs)
    exact ⟨(base, target), List.mem_singleton_self _, (hid.trans href.id).symm⟩
  exact (hw.clearedBelow_childless hrm).2 it hit (hid.trans href.id.symm)

/-- Restamping rows in place, without moving them or their items, keeps the frame. -/
theorem of_update (h : Frame c target base tracked) (hw' : c'.Wf) {p : NodeRow → Bool}
    {f : NodeRow → NodeRow} (hn : c'.nodes = updateWhere p f c.nodes)
    (hf : ∀ m, (f m).Refines m ∧ (f m).isLive = m.isLive) : Frame c' target base tracked := by
  refine ⟨hw', h.root, h.keys, h.ids,
    fun e he => (h.rows e he).of_update hn (fun m => (hf m).1) (fun m => (hf m).2), h.within,
    h.links, fun n hn' ht hs => ?_⟩
  rw [hn, updateWhere, List.mem_map] at hn'
  obtain ⟨m, hm, rfl⟩ := hn'
  by_cases hpm : p m
  · simp only [hpm, if_true] at ht hs ⊢
    obtain ⟨e, he, hid⟩ := h.complete m hm ((hf m).1.tenant ▸ ht)
      (by simpa [NodeRow.inSubtree, (hf m).1.path] using hs)
    exact ⟨e, he, hid.trans (hf m).1.id.symm⟩
  · simp only [hpm, if_false, Bool.false_eq_true] at ht hs ⊢
    exact h.complete m hm ht hs

end Frame

/-! ## The items placed so far -/

/-- The last of the records of path `rel`. -/
def lastAt (objs : List ObjectRecord) (rel : String) : Option ObjectRecord :=
  objs.reverse.find? (·.relativePath == rel)

theorem lastAt_append_singleton (objs : List ObjectRecord) (r : ObjectRecord) (rel : String) :
    lastAt (objs ++ [r]) rel = if r.relativePath = rel then some r else lastAt objs rel := by
  by_cases h : r.relativePath = rel <;> simp [lastAt, h]

theorem lastAt_some {objs : List ObjectRecord} {rel : String} {r : ObjectRecord}
    (h : lastAt objs rel = some r) : r ∈ objs ∧ r.relativePath = rel := by
  have hmem := List.mem_of_find?_eq_some h
  have hp := List.find?_some h
  exact ⟨List.mem_reverse.1 hmem, by simpa using hp⟩

theorem lastAt_isSome {objs : List ObjectRecord} {r : ObjectRecord} (h : r ∈ objs) :
    (lastAt objs r.relativePath).isSome := by
  simpa [lastAt, List.find?_isSome] using ⟨r, h, rfl⟩

/-- A path that is empty or normal is fixed by its directory and its last segment. -/
theorem eq_of_parentDir_baseName {a b : String} (ha : a = "" ∨ IsNormal a)
    (hb : b = "" ∨ IsNormal b) (hd : parentDir a = parentDir b) (hn : baseName a = baseName b) :
    a = b := by
  have hhead : ∀ x : String, x = "" ∨ IsNormal x → x.toList.head? ≠ some '/' := by
    rintro x (rfl | hx)
    · simp
    · exact hx.head
  rw [← joinRel_parentDir_baseName (hhead a ha), ← joinRel_parentDir_baseName (hhead b hb), hd, hn]

/-- What the object records placed so far, in order, have left as items below the tracked
nodes: every item there shows the last record of its path, filed under the path's directory,
and every path placed has such an item. -/
structure Stock (c : Tables) (tracked : List (String × NodeRow)) (objs : List ObjectRecord) :
    Prop where
  normal : ∀ r ∈ objs, r.relativePath = "" ∨ IsNormal r.relativePath
  shows : ∀ it ∈ c.items, ∀ e ∈ tracked, e.2.id = it.node →
    ∃ r, lastAt objs r.relativePath = some r ∧ parentDir r.relativePath = e.1 ∧ it.Shows r
  stocked : ∀ rel r, lastAt objs rel = some r → ∃ it ∈ c.items, ∃ e ∈ tracked,
    e.1 = parentDir rel ∧ e.2.id = it.node ∧ it.Shows r

namespace Stock

variable {c c' : Tables} {target : NodeRow} {base : String}
  {tracked tracked' : List (String × NodeRow)} {objs : List ObjectRecord}

/-- Nothing is placed while the target alone is tracked and holds no item. -/
theorem start {k : String} (h : ∀ it ∈ c.items, it.node ≠ target.id) :
    Stock c [(k, target)] [] := by
  refine ⟨by simp, fun it hit e he hid => ?_, fun rel r hr => by simp [lastAt] at hr⟩
  rw [List.mem_singleton.1 he] at hid
  exact absurd hid.symm (h it hit)

/-- The items stay what they show while only the nodes change. -/
theorem of_items (h : Stock c tracked objs) (hi : c'.items = c.items) : Stock c' tracked objs :=
  ⟨h.normal, hi ▸ h.shows, hi ▸ h.stocked⟩

/-- Node writes that grow the tracked table keep the items shown. -/
theorem of_grows (h : Stock c tracked objs) (hw : c.Wf) (hi : c'.items = c.items)
    (hg : TrackGrows c tracked tracked') : Stock c' tracked' objs := by
  refine ⟨h.normal, fun it hit e he hid => ?_, fun rel r hr => ?_⟩
  · rw [hi] at hit
    rcases hg.2 e he with ⟨q, hq, hk, hqid⟩ | hfresh
    · rw [← hk]
      exact h.shows it hit q hq (hqid.trans hid)
    · -- a node the catalog did not hold has no item
      obtain ⟨n, hn, hh⟩ := hw.itemsHang it hit
      exact absurd (hid.trans hh.node) (hfresh n hn).symm
  · obtain ⟨it, hit, q, hq, hk, hqid, hshow⟩ := h.stocked rel r hr
    obtain ⟨q', hq', hk', hid'⟩ := hg.1 q hq
    exact ⟨it, hi ▸ hit, q', hq', hk'.trans hk, hid'.trans hqid, hshow⟩

/-- Writing the item of an object record below the node tracked at its directory makes it the
item of its path, in place of the one an earlier record of that path left. -/
theorem place (h : Stock c tracked objs) (hf : Frame c target base tracked) {r : ObjectRecord}
    {par : NodeRow} {row : ItemRow} (hu : upsertItem (objectItem par r) c = .ok (row, c'))
    (hp : (parentDir r.relativePath, par) ∈ tracked)
    (hrel : r.relativePath = "" ∨ IsNormal r.relativePath) :
    Stock c' tracked (objs ++ [r]) := by
  obtain ⟨node, hnode, -, hrow, hrn, hrk, hrname, hrs, hrm, hra, hnew, hkeep⟩ :=
    upsertItem_cases hf.wf hu
  -- read the written fields off the object's item once, so that no later step unfolds it
  simp only [objectItem] at hnode hrn hrk hrname hrs hrm hra hnew hkeep
  obtain ⟨hnm, hnt, hnid, -⟩ := Tables.nodeById?_some hnode
  have hshow : row.Shows r := ⟨hrk, hrname, hrs, hrm, hra⟩
  have hrowp : row.node = par.id := hrn.trans hnid
  -- an item of the node with the object's name is the one the write replaces
  have hkey : ∀ it ∈ c.items, it.node = par.id → it.kind = .object →
      it.name = baseName r.relativePath →
      it.hasKey par.tenant node.id .object (baseName r.relativePath) = true := by
    intro it hit hn hk hname
    have ht := (hf.wf.item_of_node hnm hit (hn.trans hnid.symm)).1
    exact ItemRow.hasKey_iff.2 ⟨ht.trans hnt, hn.trans hnid.symm, hk, hname⟩
  refine ⟨fun x hx => ?_, fun it hit e he hid => ?_, fun rel r' hr => ?_⟩
  · rcases List.mem_append.1 hx with hx | hx
    · exact h.normal x hx
    · rw [List.mem_singleton.1 hx]
      exact hrel
  · rcases hnew it hit with rfl | ⟨hit, hno⟩
    · obtain rfl := hf.entry_of_id hp he (hrowp.symm.trans hid.symm) |>.2
      obtain ⟨hk, -⟩ := hf.entry_of_id hp he (hrowp.symm.trans hid.symm)
      exact ⟨r, by rw [lastAt_append_singleton, if_pos rfl], hk, hshow⟩
    · obtain ⟨r', hlast, hdir, hs'⟩ := h.shows it hit e he hid
      have hne : r.relativePath ≠ r'.relativePath := by
        intro heq
        have he' : e = (parentDir r.relativePath, par) := hf.eq_of_key he hp (by rw [← hdir, heq])
        subst he'
        have := hkey it hit hid.symm hs'.kind (hs'.name.trans (by rw [heq]))
        exact Bool.false_ne_true (hno.symm.trans this)
      exact ⟨r', by rw [lastAt_append_singleton, if_neg hne]; exact hlast, hdir, hs'⟩
  · rw [lastAt_append_singleton] at hr
    by_cases hrr : r.relativePath = rel
    · rw [if_pos hrr] at hr
      obtain rfl := Option.some.inj hr
      subst hrr
      exact ⟨row, hrow, _, hp, by dsimp only, hrowp.symm, hshow⟩
    · rw [if_neg hrr] at hr
      obtain ⟨hmem, hrel'⟩ := lastAt_some hr
      obtain ⟨it, hit, e, he, hk, hid, hs'⟩ := h.stocked rel r' hr
      refine ⟨it, hkeep it hit ?_, e, he, hk, hid, hs'⟩
      rw [Bool.eq_false_iff]
      intro hkit
      obtain ⟨-, hin, -, hname⟩ := ItemRow.hasKey_iff.1 hkit
      -- an item of the object's node and name would make `rel` the object's own path
      have he' : e = (parentDir r.relativePath, par) :=
        hf.eq_of_id he hp (hid.trans (hin.trans hnid))
      refine hrr (eq_of_parentDir_baseName hrel (hrel' ▸ h.normal r' hmem) ?_ ?_)
      · rw [← hk, he']
      · exact hname.symm.trans (hs'.name.trans (congrArg baseName hrel'))

end Stock

/-! ## A rebuild in progress -/

theorem Reaches.trans {base a b d : String} (h₁ : Reaches base a b) (h₂ : Reaches base b d) :
    Reaches base a d := by
  induction h₁ with
  | refl => exact h₂
  | up hne _ ih => exact .up hne (ih h₂)

/-- From the base itself, only the base is reached. -/
theorem Reaches.eq_of_base {base x : String} (h : Reaches base base x) : x = base := by
  cases h with
  | refl => rfl
  | up hne _ => exact absurd rfl hne

/-- Going up from a directory above `r` meets only the root and directories above `r`. -/
theorem IsDirOf.reaches {d x r : String} (h : IsDirOf d r) (hx : Reaches "" d x) :
    x = "" ∨ IsDirOf x r := by
  induction hx with
  | refl => exact .inr h
  | up _ hrest ih =>
    rcases h.parentDir with he | h'
    · rw [he] at hrest
      exact .inl hrest.eq_of_base
    · exact ih h'

/-- Going up from the directory of `r` reaches every directory above `r`. -/
theorem IsDirOf.reached {d r : String} (h : IsDirOf d r) : Reaches "" (parentDir r) d := by
  -- induction on the length of `r`: one segment is climbed at a time
  induction hl : r.length using Nat.strong_induction_on generalizing r with
  | _ n ih =>
    rcases h.parentDir_eq_or with he | h'
    · rw [he]
      exact .refl d
    · have hs : '/' ∈ r.toList := by
        by_contra hs
        exact h'.ne_empty (parentDir_of_not_mem hs)
      obtain ⟨p, b, -, hr, hp, -⟩ := exists_parentDir_baseName hs
      have hlt : (parentDir r).length < n := by
        have h1 : "/".length = 1 := rfl
        rw [← hl, hp, hr, String.length_append, String.length_append, h1]
        omega
      exact .up h'.ne_empty (ih _ hlt h' rfl)

/-- Walking down from `x` along non-empty segments, the way back up reaches `x` again. -/
theorem reaches_foldl_joinRel {base : String} :
    ∀ {segs : List String} {x : String}, (∀ s ∈ segs, s ≠ "" ∧ '/' ∉ s.toList) →
      base.length ≤ x.length → Reaches base (segs.foldl joinRel x) x
  | [], x, _, _ => .refl x
  | s :: rest, x, hsegs, hx => by
    obtain ⟨hs, hslash⟩ := hsegs s List.mem_cons_self
    have hlt : x.length < (joinRel x s).length := length_lt_joinRel hs
    have hup : Reaches base (joinRel x s) x :=
      .up (fun he => by rw [he] at hlt; omega) (by rw [parentDir_joinRel hslash]; exact .refl x)
    exact (reaches_foldl_joinRel (fun t ht => hsegs t (List.mem_cons_of_mem _ ht))
      (by omega)).trans hup

/-- A rebuild of `target` from `base` in progress at a world: the frame of the tracked nodes,
the items of the object records placed so far, every tracked path the base or one of `A`, and
the target's row carrying the attributes `X`. -/
structure Building (target : NodeRow) (base : String) (A : String → Prop) (X : NodeAttributes)
    (objs : List ObjectRecord) (tracked : List (String × NodeRow)) (w : World) : Prop where
  frame : Frame w.catalog target base tracked
  stock : Stock w.catalog tracked objs
  allowed : ∀ e ∈ tracked, e.1 = base ∨ A e.1
  attrs : ∀ r ∈ w.catalog.nodes, r.id = target.id → r.attributes = X

/-- The record written as an item when `record` is placed in the rebuild of `base` in
`bucket`: an object record of the bucket, below the base, with its path normalized. -/
def placedObject (bucket base : String) (record : ObjectRecord) : List ObjectRecord :=
  if record.kind = .object ∧ record.bucket = bucket ∧
      hasReservedSegment (normalizeKey record.relativePath) = false ∧
      isWithin base (normalizeKey record.relativePath) = true ∧
      isWithin base (parentDir (normalizeKey record.relativePath)) = true
    then [{ record with relativePath := normalizeKey record.relativePath }] else []

/-- A record the rebuild of `base` places without writing the base's own node, along paths that
are the base or of `A`. -/
structure RecordFits (base : String) (A : String → Prop) (record : ObjectRecord) : Prop where
  notBase : record.kind ≠ .object → normalizeKey record.relativePath ≠ base
  prefixes : record.kind = .keyPrefix →
    ∀ d, Reaches base (normalizeKey record.relativePath) d → d = base ∨ A d
  objects : record.kind = .object →
    ∀ d, Reaches base (parentDir (normalizeKey record.relativePath)) d → d = base ∨ A d

/-- A directory record of the listing fits the rebuild of the whole bucket. -/
theorem RecordFits.listingDir {objs : List ListedObject} {record : ObjectRecord}
    (hk : record.kind = .keyPrefix) (hd : ListingDir objs record.relativePath) :
    RecordFits "" (ListingDir objs) record := by
  obtain ⟨o, ho, hdir⟩ := hd
  obtain ⟨hn, heq⟩ := hdir.normalizeKey_eq
  refine ⟨fun _ => by rw [heq]; exact hn.ne_empty, fun _ x hx => ?_,
    fun hko => absurd (hk.symm.trans hko) (by decide)⟩
  rw [heq] at hx
  exact (IsDirOf.reaches hdir hx).imp id fun h => ⟨o, ho, h⟩

/-- The record of a listed object fits the rebuild of the whole bucket. -/
theorem RecordFits.listed {objs : List ListedObject} {o : ListedObject} (ho : o ∈ objs)
    (R : List (String × String)) (bucket : String) :
    RecordFits "" (ListingDir objs) (o.record R bucket) := by
  refine ⟨fun hk => absurd rfl hk, fun hk => by simp [ListedObject.record] at hk, fun _ x hx => ?_⟩
  change Reaches "" (parentDir (normalizeKey (normalizeKey o.key))) x at hx
  rw [normalizeKey_normalizeKey] at hx
  by_cases hs : '/' ∈ (normalizeKey o.key).toList
  · exact (IsDirOf.reaches (isDirOf_parentDir hs) hx).imp id fun h => ⟨o, ho, h⟩
  · rw [parentDir_of_not_mem hs] at hx
    exact .inl hx.eq_of_base

theorem placedObject_of_ne {bucket base : String} {record : ObjectRecord}
    (hk : record.kind ≠ .object) : placedObject bucket base record = [] :=
  if_neg fun hc => hk hc.1

/-- A listed object with no reserved segment is placed in the rebuild of its whole bucket as its
own record. -/
theorem placedObject_listed (R : List (String × String)) (bucket : String) {o : ListedObject}
    (hres : hasReservedSegment o.key = false) :
    placedObject bucket "" (o.record R bucket) = [o.record R bucket] := by
  have hn : normalizeKey (o.record R bucket).relativePath = (o.record R bucket).relativePath :=
    normalizeKey_normalizeKey o.key
  have hun : hasReservedSegment (normalizeKey (o.record R bucket).relativePath) = false := by
    rw [hn]
    exact hasReservedSegment_eq_false_iff.2 (hasReservedSegment_eq_false_iff.1 hres).normalizeKey
  unfold placedObject
  rw [if_pos ⟨rfl, rfl, hun, rfl, rfl⟩, hn]

/-- Listed objects with no reserved segment are placed in the rebuild of their whole bucket as
their own records. -/
theorem flatMap_placedObject_listed (R : List (String × String)) (bucket : String) :
    ∀ objs : List ListedObject, (∀ o ∈ objs, hasReservedSegment o.key = false) →
      (objs.map (·.record R bucket)).flatMap (placedObject bucket "") =
        objs.map (·.record R bucket)
  | [], _ => rfl
  | o :: rest, hres => by
    rw [List.map_cons, List.flatMap_cons, placedObject_listed R bucket (hres o List.mem_cons_self),
      flatMap_placedObject_listed R bucket rest fun x hx => hres x (List.mem_cons_of_mem _ hx)]
    rfl

/-- Of a bucket walk's directory and object records, the objects are what gets placed. -/
theorem flatMap_placedObject (R : List (String × String)) (bucket : String)
    {dirs : List ObjectRecord} (hdirs : ∀ r ∈ dirs, r.kind = .keyPrefix) {objs : List ListedObject}
    (hres : ∀ o ∈ objs, hasReservedSegment o.key = false) :
    (dirs ++ objs.map (·.record R bucket)).flatMap (placedObject bucket "") =
      objs.map (·.record R bucket) := by
  rw [List.flatMap_append, flatMap_placedObject_listed R bucket objs hres,
    List.flatMap_eq_nil_iff.2 fun r hr => placedObject_of_ne (by rw [hdirs r hr]; decide),
    List.nil_append]

section Building

variable {target : NodeRow} {base : String} {A : String → Prop} {X : NodeAttributes}
  {objs : List ObjectRecord} {tracked : List (String × NodeRow)} {w w' : World}

theorem Step.writeChild_building {cur s : String} {par node : NodeRow}
    {a : Option NodeAttributes} (h : Building target base A X objs tracked w)
    (hp : (cur, par) ∈ tracked) (hs : s ≠ "") (hslash : '/' ∉ s.toList)
    (hA : joinRel cur s = base ∨ A (joinRel cur s))
    (hrun : (writeNode ⟨par.tenant, par.resource, some par.id, .keyPrefix, s, a⟩).runAlone w =
      (.ok node, w')) :
    Building target base A X objs (setEntry (joinRel cur s) node tracked) w' := by
  have hu := Step.inCatalogSpan_catalog hrun
  obtain ⟨hf, hg⟩ := h.frame.writeChild hp hs hslash hu
  refine ⟨hf, h.stock.of_grows h.frame.wf (upsertNode_cases h.frame.wf hu).1 hg,
    fun e he => ?_, fun r hr hid => ?_⟩
  · rcases (mem_setEntry h.frame.keys).1 he with rfl | ⟨-, he⟩
    · exact hA
    · exact h.allowed e he
  · rcases upsertNode_nodes h.frame.wf hu r hr with rfl | hr
    · -- the child is tracked below the base, the target at it
      obtain ⟨t, ht, hreft⟩ := hf.root
      obtain ⟨hk, -⟩ := hf.entry_of_id ((mem_setEntry h.frame.keys).2 (.inl rfl)) ht
        (hid.trans hreft.id.symm)
      exact absurd hk (h.frame.joinRel_ne_base hp hs)
    · exact h.attrs r hr hid

/-- Walking down the segments from a tracked node ends at the node tracked at `rel`, writing
what was missing on the way. -/
theorem walkSegments_building (rel : String) (attrs : Option NodeAttributes)
    (hA : ∀ d, Reaches base rel d → d = base ∨ A d) :
    ∀ (segs : List String) (tracked : List (String × NodeRow)) (cur : String) (par : NodeRow),
      (cur, par) ∈ tracked → (∀ s ∈ segs, s ≠ "" ∧ '/' ∉ s.toList) →
      segs.foldl joinRel cur = rel →
      (walkSegments rel attrs tracked cur par segs).Ensures
        (Building target base A X objs tracked)
        fun r w => Building target base A X objs r.2 w ∧ (rel, r.1) ∈ r.2
  | [], tracked, cur, par, hp, _, hfold => Step.Ensures.pure fun _ h => ⟨h, hfold ▸ hp⟩
  | s :: rest, tracked, cur, par, hp, hsegs, hfold => by
    intro w r w' hpre h
    obtain ⟨hs, hslash⟩ := hsegs s List.mem_cons_self
    have hrest := fun x hx => hsegs x (List.mem_cons_of_mem _ hx)
    have hfold' : rest.foldl joinRel (joinRel cur s) = rel := hfold
    rcases walkSegments_cons_cases h with ⟨existing, hl, h⟩ | ⟨a, node, w₁, h₁, h₂⟩
    · exact walkSegments_building rel attrs hA rest tracked _ existing (mem_of_lookup hl) hrest
        hfold' hpre h
    · -- the child's path lies on the way from `rel` up to the base
      have hreach : Reaches base rel (joinRel cur s) := hfold' ▸ reaches_foldl_joinRel hrest
        (Nat.le_of_lt (lt_of_le_of_lt (hpre.frame.base_le _ hp) (length_lt_joinRel hs)))
      exact walkSegments_building rel attrs hA rest _ _ node
        ((mem_setEntry hpre.frame.keys).2 (.inl rfl)) hrest hfold'
        (Step.writeChild_building hpre hp hs hslash (hA _ hreach) h₁) h₂

/-- The prefix node of a path at or below the base is the one tracked there once the walk
down to it is done. -/
theorem ensurePrefix_building {rel : String} {attrs : Option NodeAttributes}
    (hrel : rel = base ∨ (IsNormal rel ∧ isWithin base rel = true))
    (hA : ∀ d, Reaches base rel d → d = base ∨ A d) :
    (ensurePrefix tracked base rel attrs).Ensures (Building target base A X objs tracked)
      fun r w => Building target base A X objs r.2 w ∧ (rel, r.1) ∈ r.2 := by
  intro w r w' hpre h
  obtain ⟨t, ht, -⟩ := hpre.frame.root
  unfold ensurePrefix at h
  rw [lookup_of_mem hpre.frame.keys ht] at h
  dsimp only at h
  by_cases hb : rel = base
  · subst hb
    rw [if_pos (beq_self_eq_true _)] at h
    obtain ⟨rfl, rfl⟩ := Step.pure_ok h
    exact ⟨hpre, ht⟩
  · rw [if_neg (by simpa using hb)] at h
    obtain ⟨hn, hw⟩ := hrel.resolve_left hb
    obtain ⟨hsegs, harrive⟩ := walk_arrives hn hw hb
    exact walkSegments_building rel attrs hA _ tracked base t ht hsegs harrive hpre h

/-- Placing a record that is not the base's own, whose prefix or object directory lies on paths
of `A`, keeps the rebuild going and adds the object it places. -/
theorem placeRecord_building (bucket : String) (p : Placement) (record : ObjectRecord)
    (hfit : RecordFits base A record) :
    (placeRecord target bucket base p record).Ensures
      (Building target base A X objs p.tracked)
      fun p' => Building target base A X (objs ++ placedObject bucket base record) p'.tracked := by
  intro w p' w' hpre h
  obtain ⟨hbase, hAp, hAo⟩ := hfit
  cases placeRecord_placed h with
  | stay ht _ hnot =>
    have hnone : placedObject bucket base record = [] := if_neg hnot
    rw [ht, hnone, List.append_nil]
    exact hpre
  | retarget hk hb _ => exact absurd hb (hbase hk)
  | keyPrefix hk hn hin h₁ =>
    have hnone : placedObject bucket base record = [] :=
      if_neg fun hc => absurd (hk.symm.trans hc.1) (by decide)
    rw [hnone, List.append_nil]
    exact (ensurePrefix_building (.inr ⟨hn, hin⟩) (hAp hk) hpre h₁).1
  | object hk hb hres hin hdir h₁ h₃ =>
    -- the object's item is written below its directory's prefix
    have hnorm := normalizeKey_normal record.relativePath
    have hplaced : placedObject bucket base record =
        [{ record with relativePath := normalizeKey record.relativePath }] :=
      if_pos ⟨hk, hb, hres, hin, hdir⟩
    obtain ⟨hb₁, hmem⟩ := ensurePrefix_building (parentDir_within hnorm hdir) (hAo hk) hpre h₁
    have hu := Step.inCatalogSpan_catalog h₃
    obtain ⟨-, -, hnodes, -⟩ := upsertItem_cases hb₁.frame.wf hu
    rw [hplaced]
    exact ⟨hb₁.frame.of_nodes (upsertItem_wf hb₁.frame.wf hu) hnodes,
      hb₁.stock.place hb₁.frame hu hmem hnorm, hb₁.allowed,
      fun r hr hid => hb₁.attrs r (hnodes ▸ hr) hid⟩

/-- Placing records one by one, none the base's own, keeps the rebuild going and adds the
objects placed, in order. -/
theorem placeRecords_building (bucket : String) :
    ∀ (records : List ObjectRecord) (p : Placement) (objs : List ObjectRecord),
      (∀ r ∈ records, RecordFits base A r) →
      (placeRecords target bucket base p records).Ensures
        (Building target base A X objs p.tracked)
        fun p' => Building target base A X (objs ++ records.flatMap (placedObject bucket base))
          p'.tracked
  | [], p, objs, _ => Step.Ensures.pure fun _ h => by simpa using h
  | r :: rest, p, objs, hfit => by
    rw [List.flatMap_cons, ← List.append_assoc]
    exact Step.Ensures.bind (placeRecord_building bucket p r (hfit r List.mem_cons_self))
      fun p' => placeRecords_building bucket rest p' _ fun x hx => hfit x (List.mem_cons_of_mem _ hx)

/-- Placing the bucket's own record in a rebuild from the bucket's root writes the target again
with the record's attributes. -/
theorem placeRecord_root_building (bucket : String) (p : Placement) {root : ObjectRecord}
    (hk : root.kind = .bucket) (hrel : root.relativePath = "") (hb : root.bucket = bucket) :
    (placeRecord target bucket "" p root).Ensures (Building target "" A X objs p.tracked)
      fun p' => Building target "" A (storageAttributes root) objs p'.tracked := by
  intro w p' w' hpre h
  unfold placeRecord at h
  simp only [collapseEmptySegments_eq_normalizeKey, hrel, hb, hk, show normalizeKey "" = "" from rfl,
    show hasReservedSegment "" = false from rfl, show isWithin "" "" = true from rfl,
    bne_self_eq_false, Bool.not_true, Bool.or_false, show ("" : String).isEmpty = true from rfl,
    Bool.and_self, Bool.false_eq_true, if_false, if_true] at h
  obtain ⟨v, w₁, h₁, h₂⟩ := Step.runAlone_bind_ok h
  obtain ⟨rfl, rfl⟩ := Step.pure_ok h₂
  have hu := Step.inCatalogSpan_catalog h₁
  obtain ⟨hf, hg⟩ := hpre.frame.rewriteTarget hu
  refine ⟨hf, hpre.stock.of_grows hpre.frame.wf (upsertNode_cases hpre.frame.wf hu).1 hg,
    fun e he => ?_, fun r hr hid => ?_⟩
  · rcases (mem_setEntry hpre.frame.keys).1 he with rfl | ⟨-, he⟩
    · exact .inl rfl
    · exact hpre.allowed e he
  · -- the written row is the target's only one
    obtain ⟨t, ht, hreft⟩ := hf.root
    obtain rfl := hf.entry_of_key ht ((mem_setEntry hpre.frame.keys).2 (.inl rfl))
    obtain rfl := hf.wf.node_eq_of_id hr (upsertNode_keeps hpre.frame.wf hu).1
      (hid.trans hreft.id.symm)
    exact upsertNode_attributes hu rfl

/-- Finishing a node's scan restamps it in place: the rebuild goes on as it was. -/
theorem Building.finish (h : Building target base A X objs tracked w) {t : Ident.TenantId}
    {id : Ident.NodeId} {a : Aggregate}
    (hf : finishNodeScan t id a w.catalog = .ok ((), w'.catalog)) :
    Building target base A X objs tracked w' := by
  have hw' := finishNodeScan_wf h.frame.wf hf
  have hn : w'.catalog.nodes = updateWhere (·.isNode t id)
      (·.finished (Time.Instant.ofMillis w.catalog.clock) a) w.catalog.nodes := by
    rw [finishNodeScan_ok hf]
  have hi : w'.catalog.items = w.catalog.items := by rw [finishNodeScan_ok hf]
  refine ⟨h.frame.of_update hw' hn fun _ => ⟨⟨rfl, rfl, rfl, rfl, rfl⟩, rfl⟩,
    h.stock.of_items hi, h.allowed, fun r hr hid => ?_⟩
  rw [hn] at hr
  obtain ⟨m, hm, rfl⟩ := List.mem_map.1 hr
  by_cases hp : m.isNode t id
  · simp only [hp, if_true] at hid ⊢
    exact h.attrs m hm hid
  · simp only [hp, Bool.false_eq_true, if_false] at hid ⊢
    exact h.attrs m hm hid

/-- Finishing the rebuilt prefixes marks each of them scanned and keeps the rebuild. -/
theorem finishPrefixes_building (totals : List (String × Aggregate)) :
    ∀ l : List (String × NodeRow), (∀ e ∈ l, e ∈ tracked) →
      (finishPrefixes base totals l).Ensures
        (fun w => Building target base A X objs tracked w ∧
          ∀ e ∈ tracked, e ∉ l → e.1 ≠ base → w.catalog.ScannedAt e.2.id)
        fun _ w => Building target base A X objs tracked w ∧
          ∀ e ∈ tracked, e.1 ≠ base → w.catalog.ScannedAt e.2.id
  | [], _ => Step.Ensures.pure fun _ h => ⟨h.1, fun e he hb => h.2 e he List.not_mem_nil hb⟩
  | (rel, node) :: rest, hl => by
    intro w u w' ⟨hb, hsc⟩ h
    have hrest : ∀ e ∈ rest, e ∈ tracked := fun e he => hl e (List.mem_cons_of_mem _ he)
    unfold finishPrefixes at h
    dsimp only at h
    split at h
    · -- a rebuilt prefix is finished, which marks it scanned
      obtain ⟨_, w₁, h₁, h₂⟩ := Step.runAlone_bind_ok h
      have hf := Step.inCatalogSpan_catalog h₁
      refine finishPrefixes_building totals rest hrest ⟨hb.finish hf, fun e he hnot hne => ?_⟩ h₂
      by_cases he' : e = (rel, node)
      · subst he'
        exact (hb.frame.rows _ (hl _ List.mem_cons_self)).scannedAt_finish hf
      · exact (hsc e he (fun hm => (List.mem_cons.1 hm).elim he' hnot) hne).finish hf
    · -- the base's entry is left to the pass itself
      rename_i hbase
      refine finishPrefixes_building totals rest hrest
        ⟨hb, fun e he hnot hne => hsc e he (fun hm => ?_) hne⟩ h
      rcases List.mem_cons.1 hm with rfl | hm
      · exact hne (by simpa using hbase)
      · exact hnot hm

end Building

/-! ## A rebuild of a whole bucket -/

/-- A rebuild of a bucket's node from a walk of the whole bucket places every walked object in
key order below the prefixes of the listing, writes the node with the walk's count and wrapping
total, and leaves every rebuilt prefix scanned. -/
theorem replaceObjects_bucket {target : NodeRow} {w w' : World} {r : Aggregate × ScanCounts}
    (hw : w.catalog.Wf) (hp : w.catalog.Places target)
    (hB : splitObjectPath target.fullName = some (target.fullName, ""))
    (h : (replaceObjects target "" none).runAlone w = (.ok r, w')) :
    ∃ os, w.objects.buckets.lookup target.fullName = some os ∧ ∃ tracked lm,
      Building target "" (ListingDir (walkedObjects os))
        (.storage (walkedObjects os).length
          (Word.wrappingSum ((walkedObjects os).map (·.sizeBytes))) lm)
        (((walkedObjects os).mergeSort fun a b => decide (a.key ≤ b.key)).map
          (·.record w.mediaTypes target.fullName)) tracked w' ∧
      ∀ e ∈ tracked, e.1 ≠ "" → w'.catalog.ScannedAt e.2.id := by
  obtain ⟨-, hslash, -, -⟩ := pathSegments_bucket hB
  unfold replaceObjects at h
  dsimp only at h
  obtain ⟨cleared, w₁, h₁, h₂⟩ := Step.runAlone_bind_ok h
  have hc := Step.inCatalogSpan_catalog h₁
  have hobj : w₁.objects = w.objects := by rw [(Step.inCatalogSpan_ok h₁).2]
  have hreg : w₁.mediaTypes = w.mediaTypes := by rw [(Step.inCatalogSpan_ok h₁).2]
  have hstart : Frame w₁.catalog target "" [("", target)] ∧ _ := Frame.start hw hp hc
  rw [Text.splitFirst_none hslash] at h₂
  dsimp only at h₂
  obtain ⟨records, w₂, h₃, h₄⟩ := Step.runAlone_bind_ok h₂
  obtain ⟨hrun, hw₂⟩ := Step.inObjects_ok h₃
  have hc₂ : w₂.catalog = w₁.catalog := by rw [hw₂]
  -- the walk is a walk of the whole bucket
  generalize hrun' : (ExceptT.run (scanPath (joinRel target.fullName ""))).run
    ⟨w₁.connector, w₁.objects, w₁.mediaTypes⟩ = out at hrun
  obtain ⟨o, side⟩ := out
  obtain rfl : o = .ok records := hrun
  obtain ⟨side₁, hside₁, hscan⟩ := scanPath_bucket hB hrun'
  obtain ⟨-, os, hos, root, dirs, rfl, hrb, hrr, hrk, hrc, hrs, hdirs⟩ := scanBucket_whole hscan
  rw [hside₁] at hos
  obtain ⟨p, w₃, h₅, h₆⟩ := Step.runAlone_bind_ok h₄
  obtain ⟨_, w₄, h₇, h₈⟩ := Step.runAlone_bind_ok h₆
  obtain ⟨rfl, rfl⟩ := Step.pure_ok h₈
  rw [placeRecords] at h₅
  obtain ⟨p₁, w₅, h₉, h₁₀⟩ := Step.runAlone_bind_ok h₅
  -- the rebuild starts from the target alone, with whatever attributes its row has
  obtain ⟨r₀, hr₀, hr₀t, -⟩ := hstart.1.rows _ (List.mem_singleton_self _)
  have hb₀ : Building target "" (ListingDir (walkedObjects os)) r₀.attributes [] [("", target)]
      w₂ := by
    refine ⟨hc₂ ▸ hstart.1, hc₂ ▸ Stock.start hstart.2,
      fun e he => .inl (by rw [List.mem_singleton.1 he]), fun x hx hid => ?_⟩
    rw [hc₂] at hx
    rw [hstart.1.wf.node_eq_of_id hx hr₀ (hid.trans hr₀t.id.symm)]
  have hsorted := List.mergeSort_perm (walkedObjects os) fun a b => decide (a.key ≤ b.key)
  have hfits : ∀ x ∈ dirs ++ ((walkedObjects os).mergeSort fun a b => decide (a.key ≤ b.key)).map
      (·.record w₁.mediaTypes target.fullName), RecordFits "" (ListingDir (walkedObjects os)) x := by
    intro x hx
    rcases List.mem_append.1 hx with hx | hx
    · obtain ⟨hk, -, o, ho, hd⟩ := hdirs x hx
      exact RecordFits.listingDir hk ⟨o, ho, hd⟩
    · obtain ⟨o, ho, rfl⟩ := List.mem_map.1 hx
      exact RecordFits.listed (hsorted.subset ho) _ _
  have hunres : ∀ o ∈ (walkedObjects os).mergeSort (fun a b => decide (a.key ≤ b.key)),
      hasReservedSegment o.key = false := fun o ho => by
    have := (List.mem_filter.1 (hsorted.subset ho)).2
    simp only [Bool.and_eq_true, Bool.not_eq_true'] at this
    exact this.2
  have hb₁ := placeRecord_root_building target.fullName _ hrk hrr hrb hb₀ h₉
  have hb₂ := placeRecords_building target.fullName _ p₁ [] hfits hb₁ h₁₀
  rw [List.nil_append, flatMap_placedObject _ _ (fun x hx => (hdirs x hx).1) hunres] at hb₂
  obtain ⟨hb₃, hscanned⟩ := finishPrefixes_building p.totals p.tracked (fun _ he => he)
    ⟨hb₂, fun e he hnot => absurd he hnot⟩ h₇
  refine ⟨os, by rw [← hobj]; exact hos, p.tracked, root.lastModified, ?_, hscanned⟩
  rw [storageAttributes, hrc, hrs, hreg] at hb₃
  exact hb₃

end DataCatalog.Scan
