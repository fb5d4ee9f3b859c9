import DataCatalog.Proofs.Storage.Keys
import DataCatalog.Storage.Connector
/-!
# What a walk reports

A walk of a bucket or a prefix returns each listed object at most once, as a record whose
relative path is the object's key normalized; the other records are the walked root's and
its directories'. So the object records of one bucket in a walk share a normal path only when
the bucket holds two objects whose keys normalize alike. Store calls change only their
counters, never the buckets, and a cleaned path with a non-blank character in it names a
bucket rather than every bucket.
-/

namespace DataCatalog.Storage

open DataCatalog.Connect

/-! ## Runs of store and connector calls -/

section Runs

variable {ε σ α β : Type}

@[simp] theorem run_get (s : σ) :
    (ExceptT.run (get : ExceptT ε (StateM σ) σ)).run s = (.ok s, s) := rfl

@[simp] theorem run_modify (f : σ → σ) (s : σ) :
    (ExceptT.run (modify f : ExceptT ε (StateM σ) Unit)).run s = (.ok (), f s) := rfl

@[simp] theorem run_throw (e : ε) (s : σ) :
    (ExceptT.run (throw e : ExceptT ε (StateM σ) α)).run s = (.error e, s) := rfl

@[simp] theorem run_pure (a : α) (s : σ) :
    (ExceptT.run (pure a : ExceptT ε (StateM σ) α)).run s = (.ok a, s) := rfl

theorem id_bind (x : α) (f : α → Id β) : @Bind.bind Id _ α β x f = f x := rfl

theorem id_pure (x : α) : (pure x : Id α) = x := rfl

theorem id_map (f : α → β) (x : α) : @Functor.map Id _ α β f x = f x := rfl

/-- A successful sequence is a successful first call followed by a successful rest. -/
theorem run_bind_ok {x : ExceptT ε (StateM σ) α} {f : α → ExceptT ε (StateM σ) β} {s s'' : σ}
    {b : β} (h : (ExceptT.run (x >>= f)).run s = (.ok b, s'')) :
    ∃ a s', (ExceptT.run x).run s = (.ok a, s') ∧ (ExceptT.run (f a)).run s' = (.ok b, s'') := by
  simp only [ExceptT.run_bind, StateT.run_bind] at h
  rcases hx : (ExceptT.run x).run s with ⟨e | a, s'⟩
  · rw [hx] at h
    cases h
  · rw [hx] at h
    exact ⟨a, s', rfl, h⟩

theorem run_pure_ok {a b : α} {s s' : σ}
    (h : (ExceptT.run (pure a : ExceptT ε (StateM σ) α)).run s = (.ok b, s')) : b = a ∧ s' = s := by
  obtain ⟨h₁, h₂⟩ := Prod.mk.inj h
  cases h₁
  exact ⟨rfl, h₂.symm⟩

theorem run_get_ok {a s s' : σ}
    (h : (ExceptT.run (get : ExceptT ε (StateM σ) σ)).run s = (.ok a, s')) : a = s ∧ s' = s := by
  obtain ⟨h₁, h₂⟩ := Prod.mk.inj h
  cases h₁
  exact ⟨rfl, h₂.symm⟩

/-- A successful sequence that first reads the state runs its rest on the state it read. -/
theorem run_get_bind_ok {f : σ → ExceptT ε (StateM σ) β} {s s'' : σ} {b : β}
    (h : (ExceptT.run (get >>= f)).run s = (.ok b, s'')) : (ExceptT.run (f s)).run s = (.ok b, s'') := by
  obtain ⟨_, _, hg, hrest⟩ := run_bind_ok h
  obtain ⟨rfl, rfl⟩ := run_get_ok hg
  exact hrest

theorem run_modify_ok {f : σ → σ} {u : Unit} {s s' : σ}
    (h : (ExceptT.run (modify f : ExceptT ε (StateM σ) Unit)).run s = (.ok u, s')) : s' = f s :=
  (Prod.mk.inj h).2.symm

end Runs

section Calls

variable {α : Type} {s s' : ObjectStore} {side side' : ObjectSide}

theorem listBuckets_ok {bs : List String} (h : (ExceptT.run listBuckets).run s = (.ok bs, s')) :
    s'.buckets = s.buckets := by
  cases hoff : s.offline <;>
    simp [listBuckets, checkOnline, hoff, ExceptT.run_bind, StateT.run_bind, id_bind, id_pure] at h
  all_goals
    obtain ⟨h₁, rfl⟩ := Prod.mk.inj h
    cases h₁
  rfl

theorem listObjects_ok {b p : String} {os' : List ListedObject}
    (h : (ExceptT.run (listObjects b p)).run s = (.ok os', s')) :
    s'.buckets = s.buckets ∧
      ∃ os, s.buckets.lookup b = some os ∧ os' = os.filter (Text.hasPrefix ·.key p) := by
  rcases hl : s.buckets.lookup b with _ | os <;> cases hoff : s.offline <;>
    cases hf : s.failures.lookup b <;>
    simp [listObjects, checkOnline, checkBucket, hl, hoff, hf, ExceptT.run_bind, StateT.run_bind,
      id_bind, id_pure] at h
  all_goals
    obtain ⟨h₁, rfl⟩ := Prod.mk.inj h
    cases h₁
  exact ⟨rfl, _, rfl, rfl⟩

theorem headObject_ok {b k : String} {o : Option ListedObject}
    (h : (ExceptT.run (headObject b k)).run s = (.ok o, s')) : s'.buckets = s.buckets := by
  cases hoff : s.offline <;> cases hf : s.failures.lookup b <;>
    simp [headObject, checkOnline, checkBucket, hoff, hf, ExceptT.run_bind, StateT.run_bind,
      id_bind, id_pure] at h
  all_goals
    obtain ⟨h₁, rfl⟩ := Prod.mk.inj h
    cases h₁
  rfl

/-- A store call run from a connector is the store call on its store. -/
theorem onStore_ok {call : StoreCall α} {a : α}
    (h : (ExceptT.run (onStore call)).run side = (.ok a, side')) :
    (ExceptT.run call).run side.store = (.ok a, side'.store) := by
  rcases hc : (ExceptT.run call).run side.store with ⟨r, st⟩
  simp [onStore, hc, StateT.run_bind, id_bind, id_pure, id_map] at h
  obtain ⟨h₁, rfl⟩ := Prod.mk.inj h
  exact Prod.ext h₁ rfl

/-- Choosing the buckets a connector may read leaves the buckets alone. -/
theorem allowedBuckets_ok {bs : List String}
    (h : (ExceptT.run allowedBuckets).run side = (.ok bs, side')) :
    side'.store.buckets = side.store.buckets := by
  obtain ⟨s₁, side₁, h₁, h₂⟩ := run_bind_ok h
  obtain ⟨rfl, rfl⟩ := run_get_ok h₁
  split at h₂
  · rw [(run_pure_ok h₂).2]
  split at h₂
  · rw [(run_pure_ok h₂).2]
  -- the first need lists the store's buckets and keeps them on the connector
  obtain ⟨listed, side₂, h₃, h₄⟩ := run_bind_ok h₂
  obtain ⟨_, side₃, h₅, h₆⟩ := run_bind_ok h₄
  have hb := listBuckets_ok (onStore_ok h₃)
  rw [(run_pure_ok h₆).2, run_modify_ok h₅]
  exact hb

/-- A path split against the allow-list is the cleaned path's bucket and key. -/
theorem splitAllowed_ok {path : String} {bk : String × String}
    (h : (ExceptT.run (splitAllowed path)).run side = (.ok bk, side')) :
    bk = (Text.splitFirst '/' (cleanPath path)).getD (cleanPath path, "") ∧
      side'.store.buckets = side.store.buckets := by
  unfold splitAllowed at h
  dsimp only at h
  rcases hsplit : (Text.splitFirst '/' (cleanPath path)).getD (cleanPath path, "") with
    ⟨bucket, key⟩
  rw [hsplit] at h
  obtain ⟨bs, side₁, h₁, h₂⟩ := run_bind_ok h
  split at h₂
  · obtain ⟨rfl, rfl⟩ := run_pure_ok h₂
    exact ⟨rfl, allowedBuckets_ok h₁⟩
  · cases h₂

end Calls

/-! ## Object records of a walk -/

/-- In every bucket, no two objects a walk lists (those that are not directory markers and
have no reserved segment) have keys that normalize alike. -/
def ObjectStore.KeysDistinct (s : ObjectStore) : Prop :=
  ∀ b os, s.buckets.lookup b = some os →
    ((os.filter fun o => !Text.hasSuffix o.key "/" && !hasReservedSegment o.key).map
      fun o => normalizeKey o.key).Nodup

/-- The normal relative paths of a walk's object records in one bucket. -/
def objectRels (bucket : String) (records : List ObjectRecord) : List String :=
  (records.filter fun r => r.kind == .object && r.bucket == bucket).map fun r =>
    normalizeKey r.relativePath

theorem objectRels_cons (bucket : String) (r : ObjectRecord) (rest : List ObjectRecord) :
    objectRels bucket (r :: rest) = objectRels bucket [r] ++ objectRels bucket rest := by
  unfold objectRels
  rw [← List.singleton_append, List.filter_append, List.map_append]

theorem objectRels_of_not_object (b : String) {rs : List ObjectRecord}
    (h : ∀ r ∈ rs, r.kind ≠ .object) (rest : List ObjectRecord) :
    objectRels b (rs ++ rest) = objectRels b rest := by
  unfold objectRels
  rw [List.filter_append, List.filter_eq_nil_iff.2 fun r hr => by simp [h r hr], List.nil_append]

/-- The records of listed objects name each object once, by its normalized key. -/
theorem objectRels_records (R : List (String × String)) (bucket b : String)
    (objs : List ListedObject) :
    (objectRels b (objs.map (·.record R bucket))).Sublist
      (objs.map fun o => normalizeKey o.key) := by
  have heq : objectRels b (objs.map (·.record R bucket)) =
      (objs.filter fun o => (o.record R bucket).kind == .object &&
        (o.record R bucket).bucket == b).map fun o => normalizeKey o.key := by
    unfold objectRels
    rw [List.filter_map, List.map_map]
    exact List.map_congr_left fun o _ => by simp [ListedObject.record, normalizeKey_normalizeKey]
  rw [heq]
  exact (List.filter_sublist).map _

/-- A walk of a bucket holds no two object records of one normal path. -/
theorem scanBucket_distinct {R : List (String × String)} {bucket pfx : String}
    {rs : List ObjectRecord} (hd : side.store.KeysDistinct)
    (h : (ExceptT.run (scanBucket R bucket pfx)).run side = (.ok rs, side')) :
    (∀ b, (objectRels b rs).Nodup) ∧ side'.store.buckets = side.store.buckets := by
  unfold scanBucket at h
  dsimp only at h
  obtain ⟨listed, side₁, h₁, h₂⟩ := run_bind_ok h
  obtain ⟨hb, os, hos, rfl⟩ := listObjects_ok (onStore_ok h₁)
  obtain ⟨rfl, rfl⟩ := run_pure_ok h₂
  refine ⟨fun b => ?_, hb⟩
  -- the walked root's and the directories' records are no objects
  rw [objectRels_of_not_object]
  · refine (objectRels_records _ bucket b _).nodup ?_
    -- sorting permutes the listed objects, which are some of the bucket's
    refine ((List.mergeSort_perm _ _).map _).nodup_iff.2 ((hd bucket os hos).sublist ?_)
    rw [List.filter_comm]
    exact (List.filter_sublist).map _
  · intro r hr
    rcases List.mem_cons.1 hr with rfl | hr
    · split <;> simp
    · obtain ⟨d, -, rfl⟩ := List.mem_map.1 hr
      simp

/-- A walk of a path that names a bucket holds no two object records of one normal path. -/
theorem scanPath_distinct {path : String} {rs : List ObjectRecord}
    (hd : side.store.KeysDistinct) (hc : cleanPath path ≠ "")
    (h : (ExceptT.run (scanPath path)).run side = (.ok rs, side')) :
    ∀ b, (objectRels b rs).Nodup := by
  unfold scanPath at h
  -- the walk reads the registry first, and nothing else from it
  have hwalk := run_get_bind_ok h
  dsimp only at hwalk
  rw [if_neg (by simpa using hc)] at hwalk
  obtain ⟨⟨bucket, key⟩, side₁, h₁, h₂⟩ := run_bind_ok hwalk
  have hd₁ : side₁.store.KeysDistinct := by
    unfold ObjectStore.KeysDistinct
    rw [(splitAllowed_ok h₁).2]
    exact hd
  dsimp only at h₂
  split at h₂
  · exact (scanBucket_distinct hd₁ h₂).1
  split at h₂
  · obtain ⟨rfl, -⟩ := run_pure_ok h₂
    simp [objectRels]
  obtain ⟨o, side₂, h₃, h₄⟩ := run_bind_ok h₂
  have hd₂ : side₂.store.KeysDistinct := by
    unfold ObjectStore.KeysDistinct
    rw [headObject_ok (onStore_ok h₃)]
    exact hd₁
  split at h₄
  · -- a path naming an object walks that object alone
    obtain ⟨rfl, -⟩ := run_pure_ok h₄
    exact fun b => (List.nodup_singleton _).sublist (objectRels_records _ _ b [_])
  · exact (scanBucket_distinct hd₂ h₄).1

/-! ## Paths that name a bucket -/

section Cleaning

theorem mem_dropWhile_of_not {p : Char → Bool} {c : Char} {l : List Char} (hc : c ∈ l)
    (hp : p c = false) : c ∈ l.dropWhile p := by
  have hsplit : l.takeWhile p ++ l.dropWhile p = l := List.takeWhile_append_dropWhile
  rw [← hsplit, List.mem_append] at hc
  rcases hc with hc | hc
  · exact absurd (List.mem_takeWhile_imp hc) (by simp [hp])
  · exact hc

/-- Trimming keeps every character that is not blank. -/
theorem mem_trimList {c : Char} {l : List Char} (hc : c ∈ l) (hb : Text.isBlank c = false) :
    c ∈ Text.trimList l := by
  unfold Text.trimList Text.dropBlanks
  rw [List.mem_reverse]
  exact mem_dropWhile_of_not (by rw [List.mem_reverse]; exact mem_dropWhile_of_not hc hb) hb

theorem joinWith_ne_empty : ∀ {l : List String} (s : String), s ∈ l → s ≠ "" →
    Text.joinWith "/" l ≠ ""
  | [_], s, h, hs => by
    rw [List.mem_singleton] at h
    subst h
    exact hs
  | x :: y :: rest, _, _, _ => by
    rw [Text.joinWith_cons_cons]
    intro he
    have := congrArg String.length he
    simp at this

/-- A path with a character that is neither blank nor a slash cleans to a non-empty path. -/
theorem cleanPath_ne_empty {path : String} {c : Char} (hc : c ∈ path.toList)
    (hb : Text.isBlank c = false) (hs : c ≠ '/') : cleanPath path ≠ "" := by
  have ht : c ∈ (Text.trim path).toList := by
    rw [Text.trim, String.toList_ofList]
    exact mem_trimList hc hb
  obtain ⟨seg, hseg, hcs⟩ := Text.mem_splitList_of_mem hs ht
  refine joinWith_ne_empty (String.ofList seg) (List.mem_filter.2 ⟨List.mem_map_of_mem hseg, ?_⟩)
    fun he => ?_
  · simp only [isBlankSegment, String.toList_ofList, Bool.not_eq_true', List.all_eq_false]
    exact ⟨c, hcs, by simp [hb]⟩
  · have := congrArg String.toList he
    rw [String.toList_ofList] at this
    simp [this] at hcs

/-- A kept segment of a path is not blank and has no slash. -/
theorem mem_pathSegments {path x : String} (h : x ∈ pathSegments path) :
    isBlankSegment x = false ∧ '/' ∉ x.toList := by
  obtain ⟨hsplit, hblank⟩ := List.mem_filter.1 h
  obtain ⟨seg, hseg, rfl⟩ := List.mem_map.1 hsplit
  exact ⟨by simpa using hblank,
    by rw [String.toList_ofList]; exact Text.not_mem_of_mem_splitList hseg⟩

theorem ne_empty_of_isBlankSegment {x : String} (h : isBlankSegment x = false) : x ≠ "" := by
  rintro rfl
  exact absurd h (by decide)

/-- The bucket of an object path is a segment with a character that is not blank. -/
theorem splitObjectPath_bucket {path b k : String} (h : splitObjectPath path = some (b, k)) :
    (∃ c ∈ b.toList, Text.isBlank c = false) ∧ '/' ∉ b.toList := by
  unfold splitObjectPath at h
  split at h
  · cases h
  · rename_i bucket rest hsegs
    obtain ⟨rfl, -⟩ := Prod.mk.inj (Option.some.inj h)
    obtain ⟨hblank, hslash⟩ := mem_pathSegments
      (show bucket ∈ pathSegments path by rw [hsegs]; exact List.mem_cons_self)
    refine ⟨?_, hslash⟩
    simpa [isBlankSegment] using hblank

/-- A path below a bucket names that bucket, not every bucket. -/
theorem cleanPath_joinRel_ne_empty {b : String} (hb : ∃ c ∈ b.toList, Text.isBlank c = false)
    (hs : '/' ∉ b.toList) (k : String) : cleanPath (joinRel b k) ≠ "" := by
  obtain ⟨c, hc, hcb⟩ := hb
  have hne : b ≠ "" := by
    rintro rfl
    simp at hc
  rw [joinRel_of_ne hne]
  exact cleanPath_ne_empty (by simp [hc]) hcb fun he => hs (he ▸ hc)

end Cleaning

end DataCatalog.Storage
