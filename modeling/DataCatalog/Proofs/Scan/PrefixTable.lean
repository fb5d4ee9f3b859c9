import DataCatalog.Proofs.Scan.BucketPass
/-!
# The table of prefix nodes a rebuild keeps

A rebuild of the subtree of `target`, walked from the relative path `base` in bucket `bucket`,
keeps a table from relative paths to the prefix nodes it has written, starting with the target at
`base`. The frame of that table (`Frame`) holds when the subtree has been cleared and again after
every record the rebuild places, and it makes the table right: the node of a path `r` is a live
node of the target's subtree whose full name is `bucket/r`, the target itself at `base`, and
below the base the child of the node of `parentDir r`.

Walking down to a path at or below the base returns the node of that path, and the table gains
exactly the paths on the way from it up to the base: those it held keep their nodes, the others
get nodes the catalog did not hold. An object of directory `dir` adds its size to the totals of
exactly the paths met climbing from `dir` to the base. That climb ends: from a path within the
base, `parentDir` reaches the base in at most as many steps as the path has characters, and from
no other path does it reach the base at all.
-/

namespace DataCatalog.Storage

open DataCatalog.Text

/-! ## Climbing to the base -/

section Climb

variable {base d : String}

theorem isWithin_iff : isWithin base d = true ↔ base = "" ∨ d = base ∨ IsDirOf base d := by
  simp [isWithin, String.isEmpty_iff, hasPrefix_iff, IsDirOf, or_assoc]

theorem IsDirOf.trans {a b c : String} (h₁ : IsDirOf a b) (h₂ : IsDirOf b c) : IsDirOf a c := by
  obtain ⟨r₁, rfl⟩ := h₁
  obtain ⟨r₂, rfl⟩ := h₂
  exact ⟨r₁ ++ "/" ++ r₂, by simp only [String.append_assoc]⟩

theorem parentDir_length_lt (hd : d ≠ "") : (parentDir d).length < d.length := by
  by_cases hs : '/' ∈ d.toList
  · obtain ⟨p, b, -, rfl, hp, -⟩ := exists_parentDir_baseName hs
    rw [hp, String.length_append, String.length_append, show "/".length = 1 from rfl]
    omega
  · rw [parentDir_of_not_mem hs, String.length_empty, ← String.length_toList]
    exact List.length_pos_iff.2 (by rwa [Ne, String.toList_eq_nil_iff])

/-- Below a base that is not empty, a path whose directory is within the base is within it. -/
theorem isWithin_of_parentDir (hb : base ≠ "") (h : isWithin base (parentDir d) = true) :
    isWithin base d = true := by
  have hup : parentDir d = base ∨ IsDirOf base (parentDir d) := (isWithin_iff.1 h).resolve_left hb
  -- the directory is not empty, so the path goes on below it
  have hs : '/' ∈ d.toList := by
    by_contra hs
    rw [parentDir_of_not_mem hs] at hup
    rcases hup with he | hdir
    · exact hb he.symm
    · exact hdir.ne_empty rfl
  have hd := isDirOf_parentDir hs
  refine isWithin_iff.2 (.inr (.inr ?_))
  rcases hup with he | hdir
  · exact he ▸ hd
  · exact hdir.trans hd

/-- A path whose directory is within the base is within it. -/
theorem isWithin_of_isWithin_parentDir (h : isWithin base (parentDir d) = true) :
    isWithin base d = true := by
  by_cases hb : base = ""
  · simp [isWithin, hb]
  · exact isWithin_of_parentDir hb h

end Climb

end DataCatalog.Storage

namespace DataCatalog.Scan

open DataCatalog.Catalog DataCatalog.Storage

section Climb

variable {base d : String}

/-- Going up from a path within the base stays within it, each step shorter, until the base. -/
theorem climbsTo_isWithin (base : String) : ClimbsTo base (isWithin base · = true) := by
  intro d hd hne
  show isWithin base (parentDir d) = true ∧ _
  rcases isWithin_iff.1 hd with hb | rfl | hdir
  · -- every path is within the empty base
    subst hb
    exact ⟨by simp [isWithin], parentDir_length_lt hne⟩
  · exact absurd rfl hne
  · refine ⟨isWithin_iff.2 (.inr ?_), parentDir_length_lt hdir.ne_empty⟩
    exact hdir.parentDir_eq_or

/-- Climbing on paths that climb to the base ends at the base. -/
theorem ClimbsTo.reaches_base {P : String → Prop} (hc : ClimbsTo base P) (hd : P d) :
    Reaches base d base := by
  -- induction on the length of the path: each step up shortens it
  induction hl : d.length using Nat.strong_induction_on generalizing d with
  | _ n ih =>
    by_cases hb : d = base
    · rw [hb]
      exact .refl base
    · obtain ⟨hp, hlt⟩ := hc d hd hb
      exact .up hb (ih _ (hl ▸ hlt) hp rfl)

/-- A climb on climbing paths is some number of steps up, no more than it shortens the path. -/
theorem Reaches.iterate {P : String → Prop} (hc : ClimbsTo base P) {r : String}
    (h : Reaches base d r) (hd : P d) : ∃ n, n + r.length ≤ d.length ∧ parentDir^[n] d = r := by
  induction h with
  | refl d => exact ⟨0, by simp, rfl⟩
  | @up d r hne _ ih =>
    obtain ⟨hp, hlt⟩ := hc d hd hne
    obtain ⟨n, hn, hit⟩ := ih hp
    exact ⟨n + 1, by omega, by rw [Function.iterate_succ_apply, hit]⟩

/-- From a path within the base, going up reaches the base in at most as many steps as the path
has characters. -/
theorem climb_reaches_base (hd : isWithin base d = true) :
    ∃ n, n ≤ d.length ∧ parentDir^[n] d = base := by
  have hc := climbsTo_isWithin base
  obtain ⟨n, hn, hit⟩ := (hc.reaches_base hd).iterate hc hd
  exact ⟨n, by omega, hit⟩

/-- Only from a path within the base does going up reach the base. -/
theorem isWithin_of_climb : ∀ (n : Nat) {d : String}, parentDir^[n] d = base →
    isWithin base d = true
  | 0, d, h => by
    rw [Function.iterate_zero_apply] at h
    simp [isWithin, h]
  | n + 1, d, h => by
    rw [Function.iterate_succ_apply] at h
    exact isWithin_of_isWithin_parentDir (isWithin_of_climb n h)

/-- Adding an object of directory `dir` within the base adds it to exactly the paths met
climbing from `dir` to the base. -/
theorem addUpTo_within (size : Int) {dir : String} (hdir : isWithin base dir = true)
    (totals : List (String × Aggregate)) (r : String) :
    (Reaches base dir r → (addUpTo base size (dir.length + 1) dir totals).lookup r =
      some (((totals.lookup r).getD {}).addItem size)) ∧
    (¬Reaches base dir r →
      (addUpTo base size (dir.length + 1) dir totals).lookup r = totals.lookup r) := by
  rw [addUpTo_lookup (climbsTo_isWithin base) size _ dir totals r hdir (Nat.lt_succ_self _)]
  exact ⟨fun h => if_pos h, fun h => if_neg h⟩

end Climb

/-! ## The paths a walk down passes -/

/-- The paths met walking down from `cur` along `segs`, `cur` left out. -/
def pathsBelow : String → List String → List String
  | _, [] => []
  | cur, s :: rest => joinRel cur s :: pathsBelow (joinRel cur s) rest

/-- Climbing from the end of a walk down from `y` meets the paths the walk passed, then climbs on
from `y`. -/
theorem reaches_foldl_iff {base : String} : ∀ {segs : List String} {y d : String},
    (∀ s ∈ segs, s ≠ "" ∧ '/' ∉ s.toList) → base.length ≤ y.length →
    (Reaches base (segs.foldl joinRel y) d ↔ d ∈ pathsBelow y segs ∨ Reaches base y d)
  | [], y, d, _, _ => by simp [pathsBelow]
  | s :: rest, y, d, hsegs, hy => by
    obtain ⟨hs, hslash⟩ := hsegs s List.mem_cons_self
    have hlt : y.length < (joinRel y s).length := length_lt_joinRel hs
    -- one step down, then up again
    have hstep : Reaches base (joinRel y s) d ↔ d = joinRel y s ∨ Reaches base y d := by
      constructor
      · intro h
        cases h with
        | refl => exact .inl rfl
        | up _ h => exact .inr (by rwa [parentDir_joinRel hslash] at h)
      · rintro (rfl | h)
        · exact .refl _
        · exact .up (fun he => by rw [he] at hlt; omega) (by rwa [parentDir_joinRel hslash])
    rw [List.foldl_cons, reaches_foldl_iff (fun t ht => hsegs t (List.mem_cons_of_mem _ ht))
      (by omega), hstep, pathsBelow, List.mem_cons]
    exact or_left_comm.trans or_assoc.symm

/-! ## How a walk down grows the table -/

theorem mem_keys_setEntry {α : Type} {k d : String} {v : α} {l : List (String × α)}
    (hnd : (l.map (·.1)).Nodup) : d ∈ (setEntry k v l).map (·.1) ↔ d ∈ l.map (·.1) ∨ d = k := by
  simp only [List.mem_map]
  constructor
  · rintro ⟨e, he, rfl⟩
    rcases (mem_setEntry hnd).1 he with rfl | ⟨-, he⟩
    · exact .inr rfl
    · exact .inl ⟨e, he, rfl⟩
  · rintro (⟨e, he, rfl⟩ | rfl)
    · by_cases hk : e.1 = k
      · exact ⟨(k, v), (mem_setEntry hnd).2 (.inl rfl), hk.symm⟩
      · exact ⟨e, (mem_setEntry hnd).2 (.inr ⟨hk, he⟩), rfl⟩
    · exact ⟨(d, v), (mem_setEntry hnd).2 (.inl rfl), rfl⟩

/-- An entry of a key the table did not hold names a node the catalog did not hold. -/
theorem TrackGrows.fresh {c : Tables} {tracked tracked' : List (String × NodeRow)}
    (h : TrackGrows c tracked tracked') {e : String × NodeRow} (he : e ∈ tracked')
    (hk : e.1 ∉ tracked.map (·.1)) : ∀ m ∈ c.nodes, m.id ≠ e.2.id := by
  rcases h.2 e he with ⟨q, hq, hqk, -⟩ | hfresh
  · exact absurd (hqk ▸ List.mem_map_of_mem hq) hk
  · exact hfresh

/-- How a walk down grows the tracked table, from catalog `c` to `c'`: every tracked entry stays
under its key and id, every other entry names a node `c` did not hold, no node of `c` goes away,
and the keys grow by `added`. -/
structure TableGrowth (c c' : Tables) (tracked tracked' : List (String × NodeRow))
    (added : List String) : Prop where
  grows : TrackGrows c tracked tracked'
  kept : ∀ m ∈ c.nodes, ∃ m' ∈ c'.nodes, m'.id = m.id
  keys : ∀ d, d ∈ tracked'.map (·.1) ↔ d ∈ tracked.map (·.1) ∨ d ∈ added

namespace TableGrowth

variable {c₁ c₂ c₃ : Tables} {t₁ t₂ t₃ : List (String × NodeRow)} {a₁ a₂ : List String}

theorem refl (c : Tables) (tracked : List (String × NodeRow)) :
    TableGrowth c c tracked tracked [] :=
  ⟨⟨fun q hq => ⟨q, hq, rfl, rfl⟩, fun e he => .inl ⟨e, he, rfl, rfl⟩⟩,
    fun m hm => ⟨m, hm, rfl⟩, by simp⟩

theorem trans (h₁ : TableGrowth c₁ c₂ t₁ t₂ a₁) (h₂ : TableGrowth c₂ c₃ t₂ t₃ a₂) :
    TableGrowth c₁ c₃ t₁ t₃ (a₁ ++ a₂) := by
  refine ⟨⟨fun q hq => ?_, fun e he => ?_⟩, fun m hm => ?_, fun d => ?_⟩
  · obtain ⟨q₁, hq₁, hk₁, hid₁⟩ := h₁.grows.1 q hq
    obtain ⟨q₂, hq₂, hk₂, hid₂⟩ := h₂.grows.1 q₁ hq₁
    exact ⟨q₂, hq₂, hk₂.trans hk₁, hid₂.trans hid₁⟩
  · rcases h₂.grows.2 e he with ⟨q, hq, hk, hid⟩ | hfresh
    · rcases h₁.grows.2 q hq with ⟨q', hq', hk', hid'⟩ | hfresh'
      · exact .inl ⟨q', hq', hk'.trans hk, hid'.trans hid⟩
      · exact .inr fun n hn => hid ▸ hfresh' n hn
    · -- a node the later catalog did not hold was not in the earlier one either
      refine .inr fun n hn hid => ?_
      obtain ⟨m, hm, hmid⟩ := h₁.kept n hn
      exact hfresh m hm (hmid.trans hid)
  · obtain ⟨m₁, hm₁, hid₁⟩ := h₁.kept m hm
    obtain ⟨m₂, hm₂, hid₂⟩ := h₂.kept m₁ hm₁
    exact ⟨m₂, hm₂, hid₂.trans hid₁⟩
  · rw [h₂.keys, h₁.keys, List.mem_append, or_assoc]

/-- A key the table holds already may be counted among the added ones. -/
theorem cons_of_mem (h : TableGrowth c₁ c₂ t₁ t₂ a₁) {k : String} (hk : k ∈ t₁.map (·.1)) :
    TableGrowth c₁ c₂ t₁ t₂ (k :: a₁) := by
  refine ⟨h.grows, h.kept, fun d => ?_⟩
  rw [h.keys, List.mem_cons]
  constructor
  · rintro (hd | hd)
    · exact .inl hd
    · exact .inr (.inr hd)
  · rintro (hd | rfl | hd)
    · exact .inl hd
    · exact .inl hk
    · exact .inr hd

end TableGrowth

section Walk

variable {target : NodeRow} {base : String} {c c' : Tables} {tracked : List (String × NodeRow)}

/-- Writing the child named `s` of the node tracked at `cur` keeps the frame and grows the table
by the child's path. -/
theorem Frame.writeChild_growth (h : Frame c target base tracked) {cur s : String}
    {par v : NodeRow} {attrs : Option NodeAttributes} (hp : (cur, par) ∈ tracked) (hs : s ≠ "")
    (hslash : '/' ∉ s.toList)
    (hu : upsertNode ⟨par.tenant, par.resource, some par.id, .keyPrefix, s, attrs⟩ c =
      .ok (v, c')) :
    Frame c' target base (setEntry (joinRel cur s) v tracked) ∧
      TableGrowth c c' tracked (setEntry (joinRel cur s) v tracked) [joinRel cur s] := by
  obtain ⟨hf, hg⟩ := h.writeChild hp hs hslash hu
  obtain ⟨hv, hother, -⟩ := upsertNode_keeps h.wf hu
  refine ⟨hf, hg, fun m hm => ?_, fun d => ?_⟩
  · by_cases hid : m.id = v.id
    · exact ⟨v, hv, hid.symm⟩
    · exact ⟨m, hother m hm hid, rfl⟩
  · rw [mem_keys_setEntry h.keys, List.mem_singleton]

/-- Walking down the segments from a tracked node ends at the node tracked at `rel`, keeping the
frame, and the table grows by the paths the walk passes. -/
theorem walkSegments_frame (rel : String) (attrs : Option NodeAttributes) :
    ∀ (segs : List String) (tracked : List (String × NodeRow)) (cur : String) (par : NodeRow),
      (cur, par) ∈ tracked → (∀ s ∈ segs, s ≠ "" ∧ '/' ∉ s.toList) →
      segs.foldl joinRel cur = rel → ∀ {w : World} {r : NodeRow × List (String × NodeRow)}
      {w' : World}, Frame w.catalog target base tracked →
      (walkSegments rel attrs tracked cur par segs).runAlone w = (.ok r, w') →
      Frame w'.catalog target base r.2 ∧ (rel, r.1) ∈ r.2 ∧
        TableGrowth w.catalog w'.catalog tracked r.2 (pathsBelow cur segs)
  | [], tracked, cur, par, hp, _, hfold, w, r, w', hf, h => by
    obtain ⟨rfl, rfl⟩ := Step.pure_ok h
    exact ⟨hf, hfold ▸ hp, .refl _ _⟩
  | s :: rest, tracked, cur, par, hp, hsegs, hfold, w, r, w', hf, h => by
    obtain ⟨hs, hslash⟩ := hsegs s List.mem_cons_self
    have hrest := fun x hx => hsegs x (List.mem_cons_of_mem _ hx)
    have hfold' : rest.foldl joinRel (joinRel cur s) = rel := hfold
    rcases walkSegments_cons_cases h with ⟨existing, hl, h⟩ | ⟨a, node, w₁, h₁, h₂⟩
    · -- the child is tracked already: walk on from it
      have hx := mem_of_lookup hl
      obtain ⟨hf', hmem, hg'⟩ := walkSegments_frame rel attrs rest tracked _ existing hx hrest
        hfold' hf h
      exact ⟨hf', hmem, hg'.cons_of_mem (List.mem_map_of_mem hx)⟩
    · -- writing the child named `s`, then walking on from it
      obtain ⟨hf₁, hg₁⟩ := hf.writeChild_growth hp hs hslash (Step.inCatalogSpan_catalog h₁)
      obtain ⟨hf', hmem, hg'⟩ := walkSegments_frame rel attrs rest _ _ node
        ((mem_setEntry hf.keys).2 (.inl rfl)) hrest hfold' hf₁ h₂
      exact ⟨hf', hmem, hg₁.trans hg'⟩

/-- Going to a path at or below the base returns the node tracked there, keeping the frame;
the table gains exactly the paths met climbing from it to the base, and every entry tracked
before keeps its node. -/
theorem ensurePrefix_frame {rel : String} {attrs : Option NodeAttributes}
    (hrel : rel = base ∨ (IsNormal rel ∧ isWithin base rel = true)) {w : World}
    {r : NodeRow × List (String × NodeRow)} {w' : World} (hf : Frame w.catalog target base tracked)
    (h : (ensurePrefix tracked base rel attrs).runAlone w = (.ok r, w')) :
    Frame w'.catalog target base r.2 ∧ (rel, r.1) ∈ r.2 ∧
      (∀ d, d ∈ r.2.map (·.1) ↔ d ∈ tracked.map (·.1) ∨ Reaches base rel d) ∧
      TrackGrows w.catalog tracked r.2 := by
  obtain ⟨t, ht, -⟩ := hf.root
  have hbase : base ∈ tracked.map (·.1) := List.mem_map_of_mem ht
  unfold ensurePrefix at h
  rw [lookup_of_mem hf.keys ht] at h
  dsimp only at h
  by_cases hb : rel = base
  · subst hb
    rw [if_pos (beq_self_eq_true _)] at h
    obtain ⟨rfl, rfl⟩ := Step.pure_ok h
    -- from the base only the base is reached, and it is tracked
    refine ⟨hf, ht, fun d => ⟨.inl, ?_⟩, (TableGrowth.refl _ tracked).grows⟩
    rintro (hd | hd)
    · exact hd
    · exact hd.eq_of_base ▸ hbase
  · rw [if_neg (by simpa using hb)] at h
    obtain ⟨hn, hw⟩ := hrel.resolve_left hb
    obtain ⟨hsegs, harrive⟩ := walk_arrives hn hw hb
    obtain ⟨hf', hmem, hg⟩ := walkSegments_frame rel attrs _ tracked base t ht hsegs harrive hf h
    refine ⟨hf', hmem, fun d => ?_, hg.grows⟩
    have hreach := reaches_foldl_iff (d := d) hsegs (Nat.le_refl base.length)
    rw [harrive] at hreach
    rw [hg.keys, hreach]
    constructor
    · rintro (hd | hd)
      · exact .inl hd
      · exact .inr (.inl hd)
    · rintro (hd | hd | hd)
      · exact .inl hd
      · exact .inr hd
      · exact .inl (hd.eq_of_base ▸ hbase)

end Walk

/-! ## The table throughout a rebuild -/

section Table

variable {target : NodeRow} {base : String} {c : Tables} {tracked : List (String × NodeRow)}

/-- Under the frame, the node of path `r` is named `bucket/r` when the target is named
`bucket/base`. -/
theorem Frame.fullName (h : Frame c target base tracked) {bucket : String}
    (hname : target.fullName = joinBucket bucket base) :
    ∀ e ∈ tracked, e.2.fullName = joinBucket bucket e.1 := by
  refine h.induction_links (fun e he hb => ?_) fun e he q hq _ hjoin hqpar hkind hne _ ih => ?_
  · obtain ⟨t, ht, hreft⟩ := h.root
    obtain rfl : e = (base, t) := h.eq_of_key he ht hb
    rw [hreft.fullName, hname]
  · -- the node's row sits below the row of its parent
    obtain ⟨re, hre, hrefe, -⟩ := h.rows e he
    obtain ⟨rq, hrq, hrefq, -⟩ := h.rows q hq
    have hsb := h.wf.sitsBelow_of_parent hre hrq (by rw [hrefe.parent, hqpar, hrefq.id])
    obtain ⟨-, -, -, hk, hn⟩ := NodeRow.naturalKey_eq.1 hrefe.key
    rw [← hrefe.fullName, hsb.fullName, hrefq.fullName, ih, hk, hn, hkind, hjoin,
      joinBucket_joinRel bucket hne]
    rfl

/-- Under the frame, the node of a path other than the base is a child of the node of its
directory. -/
theorem Frame.parent_lookup (h : Frame c target base tracked) {e : String × NodeRow}
    (he : e ∈ tracked) (hb : e.1 ≠ base) :
    ∃ q, tracked.lookup (parentDir e.1) = some q ∧ e.2.parent = some q.id := by
  obtain ⟨q, hq, hjoin, hqpar, -, -, hslash⟩ := h.links e he hb
  refine ⟨q.2, ?_, hqpar⟩
  rw [hjoin, parentDir_joinRel hslash]
  exact lookup_of_mem h.keys hq

/-- Under the frame the table is right: the node of each path is a live node of the target's
subtree named by the path, the target itself at the base, and the child of the node of its
directory below it. -/
theorem Frame.lookup_spec (h : Frame c target base tracked) {bucket : String}
    (hname : target.fullName = joinBucket bucket base) {r : String} {n : NodeRow}
    (hl : tracked.lookup r = some n) :
    c.Places n ∧ n.tenant = target.tenant ∧ n.inSubtree target.path ∧
      n.fullName = joinBucket bucket r ∧ (r = base → n.Refines target) ∧
      (r ≠ base → ∃ q, tracked.lookup (parentDir r) = some q ∧ n.parent = some q.id) := by
  have hm := mem_of_lookup hl
  obtain ⟨ht, hs⟩ := h.within _ hm
  refine ⟨h.rows _ hm, ht, hs, h.fullName hname _ hm, fun hb => ?_, h.parent_lookup hm⟩
  obtain ⟨t, htm, hreft⟩ := h.root
  subst hb
  rw [h.entry_of_key hm htm]
  exact hreft

/-- Placing any record keeps the frame. -/
theorem placeRecord_frame (bucket : String) (p : Placement) (record : ObjectRecord) :
    (placeRecord target bucket base p record).Ensures
      (fun w => Frame w.catalog target base p.tracked)
      fun p' w => Frame w.catalog target base p'.tracked := by
  intro w p' w' hf h
  cases placeRecord_placed h with
  | stay ht _ _ =>
    rw [ht]
    exact hf
  | retarget _ _ h₁ => exact (hf.rewriteTarget (Step.inCatalogSpan_catalog h₁)).1
  | keyPrefix _ hn hin h₁ => exact (ensurePrefix_frame (.inr ⟨hn, hin⟩) hf h₁).1
  | object _ _ _ _ hdir h₁ h₃ =>
    -- the prefixes down to the object's directory, then its item
    have hf₁ := (ensurePrefix_frame (parentDir_within (normalizeKey_normal _) hdir) hf h₁).1
    have hu := Step.inCatalogSpan_catalog h₃
    obtain ⟨-, -, hnodes, -⟩ := upsertItem_cases hf₁.wf hu
    exact hf₁.of_nodes (upsertItem_wf hf₁.wf hu) hnodes

/-- Placing records one by one keeps the frame. -/
theorem placeRecords_frame (bucket : String) :
    ∀ (records : List ObjectRecord) (p : Placement),
      (placeRecords target bucket base p records).Ensures
        (fun w => Frame w.catalog target base p.tracked)
        fun p' w => Frame w.catalog target base p'.tracked
  | [], _ => Step.Ensures.pure fun _ h => h
  | r :: rest, p => Step.Ensures.bind (placeRecord_frame bucket p r)
      fun p' => placeRecords_frame bucket rest p'

/-- An object record of the bucket, with no reserved segment and its directory within the base,
counts one item and adds its size up from its directory to the base. -/
theorem placeRecord_object (bucket : String) (p : Placement) {record : ObjectRecord}
    (hk : record.kind = .object) (hb : record.bucket = bucket)
    (hres : hasReservedSegment (normalizeKey record.relativePath) = false)
    (hdir : isWithin base (parentDir (normalizeKey record.relativePath)) = true) {w : World}
    {p' : Placement} {w' : World}
    (h : (placeRecord target bucket base p record).runAlone w = (.ok p', w')) :
    p'.totals = addUpTo base record.sizeBytes
        ((parentDir (normalizeKey record.relativePath)).length + 1)
        (parentDir (normalizeKey record.relativePath)) p.totals ∧
      p'.counts.items = p.counts.items + 1 := by
  cases placeRecord_placed h with
  | stay _ _ hnot => exact absurd ⟨hk, hb, hres, isWithin_of_isWithin_parentDir hdir, hdir⟩ hnot
  | retarget hk' _ _ => exact absurd hk hk'
  | keyPrefix hk' _ _ _ => exact absurd (hk.symm.trans hk') (by decide)
  | object _ _ _ _ _ _ _ =>
    -- the fields are read off the placement by `dsimp`; `rfl` would unfold `addUpTo` first
    constructor <;> dsimp only

/-! ## The rebuild keeps its table right -/

/-- A rebuild of `target` from `base` in `bucket` keeps a right table from relative paths to
prefix nodes. Clearing the subtree starts the frame with the target at the base, and placing
records keeps it, whatever the records; under the frame, the node of each path `r` is a live node
of the target's subtree named `bucket/r`, the target itself at the base, and below the base the
child of the node of `parentDir r`. Going to a path at or below the base returns its node and adds
to the table exactly the paths climbed from it to the base, each entry kept and each new one a node
the catalog did not hold. An object record within the base counts one item and adds its size to
exactly the paths climbed from its directory to the base, and that climb reaches the base exactly
from the paths within it, in no more steps than the path has characters. -/
theorem rebuild_keeps_prefix_table {target : NodeRow} {bucket base : String} :
    (∀ {w : World} {r : Nat × Nat} {w' : World}, w.catalog.Wf → w.catalog.Places target →
      (clearNode target.tenant target.id).runAlone w = (.ok r, w') →
      Frame w'.catalog target base [(base, target)]) ∧
    (∀ (p : Placement) (records : List ObjectRecord),
      (placeRecords target bucket base p records).Ensures
        (fun w => Frame w.catalog target base p.tracked)
        fun p' w => Frame w.catalog target base p'.tracked) ∧
    (∀ (c : Tables) (tracked : List (String × NodeRow)), Frame c target base tracked →
      target.fullName = joinBucket bucket base → ∀ r n, tracked.lookup r = some n →
        c.Places n ∧ n.tenant = target.tenant ∧ n.inSubtree target.path ∧
        n.fullName = joinBucket bucket r ∧ (r = base → n.Refines target) ∧
        (r ≠ base → ∃ q, tracked.lookup (parentDir r) = some q ∧ n.parent = some q.id)) ∧
    (∀ (tracked : List (String × NodeRow)) (rel : String) (attrs : Option NodeAttributes)
      (w : World) (r : NodeRow × List (String × NodeRow)) (w' : World),
      Frame w.catalog target base tracked → rel = base ∨ (IsNormal rel ∧ isWithin base rel = true) →
      (ensurePrefix tracked base rel attrs).runAlone w = (.ok r, w') →
      Frame w'.catalog target base r.2 ∧ r.2.lookup rel = some r.1 ∧
        (∀ d, d ∈ r.2.map (·.1) ↔ d ∈ tracked.map (·.1) ∨ Reaches base rel d) ∧
        (∀ q ∈ tracked, ∃ q' ∈ r.2, q'.1 = q.1 ∧ q'.2.id = q.2.id) ∧
        (∀ e ∈ r.2, e.1 ∉ tracked.map (·.1) → ∀ m ∈ w.catalog.nodes, m.id ≠ e.2.id)) ∧
    (∀ (p : Placement) (record : ObjectRecord) (w : World) (p' : Placement) (w' : World),
      record.kind = .object → record.bucket = bucket →
      hasReservedSegment (normalizeKey record.relativePath) = false →
      isWithin base (parentDir (normalizeKey record.relativePath)) = true →
      (placeRecord target bucket base p record).runAlone w = (.ok p', w') →
      p'.counts.items = p.counts.items + 1 ∧ ∀ d,
        (Reaches base (parentDir (normalizeKey record.relativePath)) d →
          p'.totals.lookup d = some (((p.totals.lookup d).getD {}).addItem record.sizeBytes)) ∧
        (¬Reaches base (parentDir (normalizeKey record.relativePath)) d →
          p'.totals.lookup d = p.totals.lookup d)) ∧
    ∀ dir : String,
      (isWithin base dir = true → ∃ n, n ≤ dir.length ∧ parentDir^[n] dir = base) ∧
      ((∃ n, parentDir^[n] dir = base) → isWithin base dir = true) := by
  refine ⟨fun hw hp h => (Frame.start hw hp (Step.inCatalogSpan_catalog h)).1,
    fun p records => placeRecords_frame bucket records p, fun c tracked hf hname r n hl => hf.lookup_spec hname hl,
    fun tracked rel attrs w r w' hf hrel h => ?_, fun p record w p' w' hk hb hres hdir h => ?_,
    fun dir => ⟨climb_reaches_base, fun ⟨n, hn⟩ => isWithin_of_climb n hn⟩⟩
  · obtain ⟨hf', hmem, hkeys, hg⟩ := ensurePrefix_frame hrel hf h
    exact ⟨hf', lookup_of_mem hf'.keys hmem, hkeys, hg.1, fun e he hk => hg.fresh he hk⟩
  · obtain ⟨htotals, hitems⟩ := placeRecord_object bucket p hk hb hres hdir h
    refine ⟨hitems, fun d => ?_⟩
    rw [htotals]
    exact addUpTo_within record.sizeBytes hdir p.totals d

end Table

/-- The rebuild of a bucket's root node `b`, cleared and then given the record of object
`x.csv`: the clear starts the table at the root, and the object counts one item and adds its
size to the root's total. -/
theorem bucketRebuild_tracks_one_object :
    let r : ResourceRow := ⟨⟨"r"⟩, ⟨1⟩, ⟨1⟩, "s3", "s3", "r", [], .active, 1, none, ⟨0, 0⟩,
      ⟨0, 0⟩⟩
    let target : NodeRow := ⟨⟨Ident.Uuid.ofSerial 0⟩, ⟨1⟩, ⟨"r"⟩, none, .bucket, "b", 1,
      "/" ++ Ident.Uuid.ofSerial 0 ++ "/", "b", .active, .unscanned, none, none, 0, 0, .empty,
      none, 1, none⟩
    let w : World := { catalog := { resources := [r], nodes := [target], serial := 1 } }
    let cleared := (clearNode target.tenant target.id).runAlone w
    let record : ObjectRecord := ⟨"b", "x.csv", "x.csv", "b/x.csv", .object, 3, 1, none, none,
      none, none⟩
    let p : Placement := ⟨[("", target)], [], {}⟩
    let placed := (placeRecord target "b" "" p record).runAlone cleared.2
    w.catalog.Wf ∧ w.catalog.Places target ∧ cleared.1 = .ok (0, 0) ∧
      Frame cleared.2.catalog target "" [("", target)] ∧
      hasReservedSegment (normalizeKey record.relativePath) = false ∧
      isWithin "" (parentDir (normalizeKey record.relativePath)) = true ∧
      ∃ p', placed.1 = .ok p' ∧ p'.counts.items = 1 ∧
        p'.totals.lookup "" = some (({} : Aggregate).addItem 3) := by
  intro r target w cleared record p placed
  have hw : w.catalog.Wf := by
    constructor <;> simp [w, target]
    exact .inl ⟨rfl, rfl, rfl, rfl⟩
  have hp : w.catalog.Places target :=
    ⟨target, List.mem_singleton_self _, NodeRow.Refines.refl _, rfl⟩
  have hclear : cleared.1 = .ok (0, 0) := by decide +kernel
  have hres : hasReservedSegment (normalizeKey record.relativePath) = false := by decide
  have hdir : isWithin "" (parentDir (normalizeKey record.relativePath)) = true := by decide
  have hplaced : placed.1.toBool = true := by decide +kernel
  have hframe := (@rebuild_keeps_prefix_table target "b" "").1 hw hp (Prod.ext hclear rfl)
  cases h : placed.1 with
  | error e =>
    rw [h] at hplaced
    cases hplaced
  | ok p' =>
    obtain ⟨hitems, htotals⟩ := (@rebuild_keeps_prefix_table target "b" "").2.2.2.2.1 p record
      cleared.2 p' placed.2 rfl rfl hres hdir (Prod.ext h rfl)
    -- the object sits in the base itself, so the climb from its directory is the base alone
    have hbase : parentDir (normalizeKey record.relativePath) = "" := by decide
    have hreach : Reaches "" (parentDir (normalizeKey record.relativePath)) "" := by
      rw [hbase]
      exact Reaches.refl ""
    have hroot := (htotals "").1 hreach
    exact ⟨hw, hp, hclear, hframe, hres, hdir, p', rfl, hitems, hroot⟩

end DataCatalog.Scan
