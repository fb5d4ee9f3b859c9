import Mathlib
import DataCatalog.Proofs.Storage.Walks
/-!
# Reads that the store answers

A store that is online, with no failure injected for a bucket, answers every read of that
bucket, and a read changes nothing but the store's call counters. A connector then answers the
buckets it may read, and splits a path that names one of them into the bucket and the key of the
path as cleaning leaves it.
-/

namespace DataCatalog.Storage

open DataCatalog.Connect DataCatalog.Text

/-- `s'` is `s` with other call counters. -/
def ObjectStore.Recounted (s s' : ObjectStore) : Prop := s' = { s with calls := s'.calls }

namespace ObjectStore.Recounted

variable {s s' s'' : ObjectStore}

theorem refl (s : ObjectStore) : s.Recounted s := rfl

theorem trans (h : s.Recounted s') (h' : s'.Recounted s'') : s.Recounted s'' := by
  rw [Recounted] at h h' ⊢
  rw [h', h]

theorem buckets (h : s.Recounted s') : s'.buckets = s.buckets := by rw [h]

theorem failures (h : s.Recounted s') : s'.failures = s.failures := by rw [h]

theorem offline (h : s.Recounted s') : s'.offline = s.offline := by rw [h]

end ObjectStore.Recounted

section Runs

variable {ε σ α β : Type}

/-- A sequence whose first call succeeds runs on from that call's answer. -/
theorem run_bind_of_ok {x : ExceptT ε (StateM σ) α} {f : α → ExceptT ε (StateM σ) β} {s s' : σ}
    {a : α} (h : (ExceptT.run x).run s = (.ok a, s')) :
    (ExceptT.run (x >>= f)).run s = (ExceptT.run (f a)).run s' := by
  simp only [ExceptT.run_bind, StateT.run_bind, h]
  rfl

end Runs

section Store

variable {s : ObjectStore} {B : String}

theorem listObjects_answers {os : List ListedObject} (hon : s.offline = false)
    (hok : s.failures.lookup B = none) (hos : s.buckets.lookup B = some os) (p : String) :
    ∃ s', (ExceptT.run (listObjects B p)).run s = (.ok (os.filter (Text.hasPrefix ·.key p)), s') ∧
      s.Recounted s' := by
  refine ⟨{ s with calls := { s.calls with listObjects := s.calls.listObjects + 1 } }, ?_, rfl⟩
  simp [listObjects, checkOnline, checkBucket, hon, hok, hos, ExceptT.run_bind, StateT.run_bind,
    id_bind, id_pure]

theorem headObject_answers (hon : s.offline = false) (hok : s.failures.lookup B = none)
    (k : String) : ∃ s', (ExceptT.run (headObject B k)).run s =
      (.ok ((s.buckets.lookup B).bind fun os => os.find? (·.key == k)), s') ∧ s.Recounted s' := by
  refine ⟨{ s with calls := { s.calls with headObject := s.calls.headObject + 1 } }, ?_, rfl⟩
  simp [headObject, checkOnline, checkBucket, hon, hok, ExceptT.run_bind, StateT.run_bind,
    id_bind, id_map, Except.map]

end Store

section Connector

variable {side : ObjectSide} {B : String}

theorem onStore_answers {α : Type} {call : StoreCall α} {a : α} {s' : ObjectStore}
    (h : (ExceptT.run call).run side.store = (.ok a, s')) :
    (ExceptT.run (onStore call)).run side = (.ok a, { side with store := s' }) := by
  simp [onStore, h, StateT.run_bind, id_bind, id_pure, id_map, Id.run]

/-- The connector may read bucket `B`: `B` is on its allow-list; or, the allow-list being empty,
`B` was discovered, or, nothing discovered yet, `B` is a bucket of the store without a reserved
segment. -/
inductive ObjectSide.Allows (side : ObjectSide) (B : String) : Prop
  | listed : B ∈ side.connector.explicit → side.Allows B
  | discovered {bs : List String} : side.connector.explicit = [] →
      side.connector.discovered = some bs → B ∈ bs → side.Allows B
  | stored : side.connector.explicit = [] → side.connector.discovered = none →
      B ∈ side.store.buckets.map (·.1) → hasReservedSegment B = false → side.Allows B

/-- An online store lets the connector answer the buckets it may read. -/
theorem allowedBuckets_answers (hon : side.store.offline = false) (h : side.Allows B) :
    ∃ bs side', (ExceptT.run allowedBuckets).run side = (.ok bs, side') ∧ B ∈ bs ∧
      side.store.Recounted side'.store := by
  unfold allowedBuckets
  rw [run_bind_of_ok (run_get side)]
  cases h with
  | listed hB =>
    have hne : side.connector.explicit.isEmpty = false :=
      List.isEmpty_eq_false_iff.2 (List.ne_nil_of_mem hB)
    refine ⟨_, side, ?_, hB, .refl _⟩
    simp only [hne, Bool.not_false, if_true]
    rfl
  | discovered hnil hd hB =>
    refine ⟨_, side, ?_, hB, .refl _⟩
    simp only [hnil, List.isEmpty_nil, Bool.not_true, Bool.false_eq_true, if_false, hd]
    rfl
  | stored hnil hd hB hres =>
    -- the first need lists the store's buckets, keeps those without a reserved segment, sorted
    have hlist : (ExceptT.run listBuckets).run side.store = (.ok (side.store.buckets.map (·.1)),
        { side.store with calls := { side.store.calls with
          listBuckets := side.store.calls.listBuckets + 1 } }) := by
      simp [listBuckets, checkOnline, hon, ExceptT.run_bind, StateT.run_bind, id_bind, id_map,
        Except.map]
    let bs := sortTexts ((side.store.buckets.map (·.1)).filter (!hasReservedSegment ·))
    refine ⟨bs, ⟨{ side.connector with discovered := some bs }, { side.store with
      calls := { side.store.calls with listBuckets := side.store.calls.listBuckets + 1 } },
      side.mediaTypes⟩, ?_, ?_, ?_⟩
    · rw [if_neg (by simp [hnil]), hd]
      rw [run_bind_of_ok (onStore_answers hlist)]
      rfl
    · simp [bs, sortTexts, hB, hres]
    · rfl

/-- The first slash of `bucket/key` is the one after a bucket without a slash. -/
theorem splitFirst_joinBucket {B : String} (K : String) (hB : '/' ∉ B.toList) :
    (Text.splitFirst '/' (joinBucket B K)).getD (joinBucket B K, "") = (B, K) := by
  rw [joinBucket]
  split
  · rename_i hK
    rw [String.isEmpty_iff.1 hK, splitFirst_none hB]
    rfl
  · have hs : B ++ "/" ++ K = String.ofList (B.toList ++ '/' :: K.toList) := by
      rw [← String.toList_inj]
      simp [show "/".toList = ['/'] from rfl]
    rw [hs, splitFirst_ofList hB, String.ofList_toList, String.ofList_toList]
    rfl

/-- Splitting a path whose cleaned form is `bucket/key` against an allow-list that admits the
bucket gives the bucket and the key. -/
theorem splitAllowed_answers {path K : String} (hon : side.store.offline = false)
    (h : side.Allows B) (hc : cleanPath path = joinBucket B K) (hB : '/' ∉ B.toList) :
    ∃ side', (ExceptT.run (splitAllowed path)).run side = (.ok (B, K), side') ∧
      side.store.Recounted side'.store := by
  have hsplit : (Text.splitFirst '/' (cleanPath path)).getD (cleanPath path, "") = (B, K) := by
    rw [hc]
    exact splitFirst_joinBucket K hB
  obtain ⟨bs, side₁, h₁, hmem, hre⟩ := allowedBuckets_answers hon h
  refine ⟨side₁, ?_, hre⟩
  unfold splitAllowed
  simp only [hsplit]
  rw [run_bind_of_ok h₁]
  simp only [List.elem_eq_mem, hmem, decide_true, if_true]
  rfl

end Connector

/-! ## Paths that name a bucket -/

/-- A path that names bucket `B` and key `K` cleans to `B/K`; the bucket is a segment without a
slash, and the key is empty or has no empty segment. -/
theorem splitObjectPath_some {p B K : String} (h : splitObjectPath p = some (B, K)) :
    cleanPath p = joinBucket B K ∧ '/' ∉ B.toList ∧ B ≠ "" ∧ (K = "" ∨ IsNormal K) := by
  obtain ⟨⟨c, hc, hcb⟩, hB⟩ := splitObjectPath_bucket h
  have hBne : B ≠ "" := by
    rintro rfl
    simp at hc
  unfold splitObjectPath at h
  split at h
  · cases h
  rename_i bucket rest hsegs
  obtain ⟨rfl, rfl⟩ := Prod.mk.inj (Option.some.inj h)
  -- the segments after the bucket are kept segments: not blank, without a slash
  have hrest : ∀ x ∈ rest, x ≠ "" ∧ '/' ∉ x.toList := by
    intro x hx
    obtain ⟨hblank, hslash⟩ := mem_pathSegments
      (show x ∈ pathSegments p by rw [hsegs]; exact List.mem_cons_of_mem _ hx)
    exact ⟨ne_empty_of_isBlankSegment hblank, hslash⟩
  refine ⟨?_, hB, hBne, ?_⟩
  · rw [cleanPath, hsegs]
    cases rest with
    | nil => simp [joinBucket, joinWith]
    | cons x rest =>
      have hne : joinWith "/" (x :: rest) ≠ "" := joinWith_ne_empty x List.mem_cons_self
        (hrest x List.mem_cons_self).1
      simp [joinBucket, String.isEmpty_iff, hne, joinWith_cons_cons]
  · cases rest with
    | nil => exact .inl rfl
    | cons x rest =>
      right
      intro seg hseg
      rw [splitOn_joinWith (List.cons_ne_nil _ _) fun y hy => (hrest y hy).2] at hseg
      exact (hrest seg hseg).1

end DataCatalog.Storage
