import Mathlib
import DataCatalog.Proofs.Storage.Flattening
import DataCatalog.Scan.Reconcile.Objects
/-!
# Narrow object paths

A refresh that names a path below a bucket walks that path and reads what the walk returns: one
object record whose relative path is the key means the object itself, a single prefix record
counting no object means nothing is there, and anything else is a prefix with the records of its
walk. The walk looks the key up first and falls back to a walk below it; a walk below a key
reports the key's own record, then its directories and objects, and a walk that lists no object
lists no directory either (`scanBucket_shape`).

The reading is right for every listing once the walk reads back the bucket and the key it was
given: the path `B/K`, cleaned, names `B` and `K` again (`narrowPath_classified`). A key the
walk would clean differently, such as one that ends with a blank, is read as another key.
-/

namespace DataCatalog.Scan

open DataCatalog.Storage DataCatalog.Text

/-! ## The three readings -/

section Classify

variable {K : String}

theorem ObjectTarget.classify_single_object {r : ObjectRecord} (hk : r.kind = .object)
    (hp : r.relativePath = K) : ObjectTarget.classify K [r] = .object r := by
  simp [ObjectTarget.classify, hk, hp]

theorem ObjectTarget.classify_empty_prefix {r : ObjectRecord} (hk : r.kind = .keyPrefix)
    (hn : r.objectCount = 0) : ObjectTarget.classify K [r] = .missing := by
  simp [ObjectTarget.classify, hk, hn]

theorem ObjectTarget.classify_of_ne_nil {r : ObjectRecord} {rest : List ObjectRecord}
    (h : rest ≠ []) : ObjectTarget.classify K (r :: rest) = .keyPrefix (r :: rest) := by
  obtain ⟨x, xs, rfl⟩ := List.exists_cons_of_ne_nil h
  rfl

end Classify

/-! ## What a walk below a key returns -/

/-- A walk of a bucket the store answers returns the record of the key, then directory records,
then the records of the objects it walks; the key's record counts those objects, and a walk that
keeps no object returns no directory. -/
theorem scanBucket_shape {side : ObjectSide} {B K : String} {os : List ListedObject}
    {R : List (String × String)} (hon : side.store.offline = false) (hok : side.store.failures.lookup B = none)
    (hos : side.store.buckets.lookup B = some os) :
    ∃ root dirs objs side', (ExceptT.run (scanBucket R B K)).run side =
      (.ok (root :: dirs ++ objs.map (·.record R B)), side') ∧
      objs.Perm (os.filter (walkedBelow K)) ∧
      root.kind = (if K = "" then .bucket else .keyPrefix) ∧
      root.objectCount = (objs.length : Int) ∧ (objs = [] → dirs = []) := by
  obtain ⟨s', hlist, -⟩ := listObjects_answers hon hok hos (listPrefixOf K)
  unfold scanBucket
  dsimp only
  rw [show (if K.isEmpty then "" else K ++ "/") = listPrefixOf K from rfl,
    run_bind_of_ok (onStore_answers hlist)]
  refine ⟨_, _, _, _, rfl, walkedObjects_perm K os, ?_, rfl, fun h => ?_⟩
  · by_cases hK : K = "" <;> simp [hK, String.isEmpty_iff]
  · -- the directories are gathered from the walked objects alone
    simp only [h, List.foldl_nil, List.map_nil]

/-- Walking `B/K` for a key `K` that cleaning keeps, below an allowed bucket whose listing the
store answers, is read as the key's object when the listing has one, as nothing when no walked
object lies below the key, and otherwise as the prefix whose records are the walk below `K`. -/
theorem narrowPath_classified {side : ObjectSide} {B K : String} {os : List ListedObject}
    (hP : splitObjectPath (cleanPath (joinRel B K)) = some (B, K)) (hallow : side.Allows B)
    (hon : side.store.offline = false) (hok : side.store.failures.lookup B = none)
    (hos : side.store.buckets.lookup B = some os) (hKe : K ≠ "")
    (hres : hasReservedSegment K = false) :
    ∃ records side', (ExceptT.run (scanPath (joinRel B K))).run side = (.ok records, side') ∧
      (∀ o, os.find? (·.key == K) = some o →
        ObjectTarget.classify K records = .object (o.record side.mediaTypes B)) ∧
      (os.find? (·.key == K) = none → os.filter (walkedBelow K) = [] →
        ObjectTarget.classify K records = .missing) ∧
      (os.find? (·.key == K) = none → os.filter (walkedBelow K) ≠ [] →
        ObjectTarget.classify K records = .keyPrefix records ∧
          ∃ side₁, (ExceptT.run (scanBucket side.mediaTypes B K)).run side₁ =
            (.ok records, side')) := by
  obtain ⟨-, -, -, hK⟩ := splitObjectPath_some hP
  obtain ⟨side₁, hre₁, hrun⟩ := scanPath_below_key hP hallow hon hok hKe hres
  rw [hos, Option.bind_some] at hrun
  cases hf : os.find? (·.key == K) with
  | some o =>
    rw [hf, Option.elim_some] at hrun
    refine ⟨_, _, hrun, fun o' ho' => ?_, fun h => ?_, fun h => ?_⟩
    · cases ho'
      -- the object found bears the key, which cleaning leaves as it is
      have hkey : o.key = K := by simpa using List.find?_some hf
      exact ObjectTarget.classify_single_object rfl
        (by rw [ListedObject.record, hkey, (hK.resolve_left hKe).normalizeKey])
    · cases h
    · cases h
  | none =>
    rw [hf, Option.elim_none] at hrun
    obtain ⟨root, dirs, objs, side', hwalk, hperm, hkind, hcount, hdirs⟩ :=
      @scanBucket_shape side₁ B K os _ (hre₁.offline.trans hon) (by rw [hre₁.failures]; exact hok)
        (by rw [hre₁.buckets]; exact hos)
    rw [if_neg hKe] at hkind
    refine ⟨_, side', hrun.trans hwalk, fun _ h => ?_, fun _ hnone => ?_,
      fun _ hsome => ⟨ObjectTarget.classify_of_ne_nil ?_, side₁, hwalk⟩⟩
    · cases h
    · have hobjs : objs = [] := (hnone ▸ hperm).eq_nil
      rw [hobjs, hdirs hobjs]
      exact ObjectTarget.classify_empty_prefix hkind (by simp [hcount, hobjs])
    · -- some object is walked below the key, so its record follows the key's
      intro hnil
      have hobjs : objs = [] := List.map_eq_nil_iff.1 (List.append_eq_nil_iff.1 hnil).2
      exact hsome (hobjs ▸ hperm).nil_eq.symm

end DataCatalog.Scan
