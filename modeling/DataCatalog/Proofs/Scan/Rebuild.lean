import DataCatalog.Proofs.Scan.Placement
import DataCatalog.Proofs.Storage.Walks
/-!
# A subtree rebuild keeps the catalog sound

A rebuild clears the target's subtree, writes the walk's records below it one by one, finishes
every rebuilt prefix with its total and then the target itself. Between records the catalog
keeps the invariant `Tracks`, and the rows from the target up to its root stay in place; at
the end only the target and what lies above it can be stale, and finishing the target leaves
only its ancestors. That needs the walk to hold no two objects of one bucket whose relative
paths normalize alike.
-/

namespace DataCatalog.Storage

theorem isWithin_empty {base : String} (h : isWithin base "" = true) : base = "" := by
  simp only [isWithin, Bool.or_eq_true, String.isEmpty_iff, beq_iff_eq] at h
  rcases h with (h | h) | h
  · exact h
  · exact h.symm
  · simp [Text.hasPrefix] at h

/-- The directory of a path that is empty or normal, within the base, is the base or a normal
path within it. -/
theorem parentDir_within {base rel : String} (hnorm : rel = "" ∨ IsNormal rel)
    (hdir : isWithin base (parentDir rel) = true) :
    parentDir rel = base ∨ (IsNormal (parentDir rel) ∧ isWithin base (parentDir rel) = true) := by
  by_cases hs : '/' ∈ rel.toList
  · have hn : IsNormal rel := hnorm.resolve_left fun he => by simp [he] at hs
    by_cases hb : parentDir rel = base
    · exact .inl hb
    · exact .inr ⟨hn.parentDir hs, hdir⟩
  · rw [parentDir_of_not_mem hs] at hdir ⊢
    exact .inl (isWithin_empty hdir).symm

end DataCatalog.Storage

namespace DataCatalog.Scan

open DataCatalog.Catalog DataCatalog.Storage

section Placing

variable {target : NodeRow} {above : List NodeRow} {base : String} {placed : List String}
  {tracked : List (String × NodeRow)} {totals : List (String × Aggregate)} {w w' : World}

/-- The rebuild's invariant at a world, with the rows from the target up to its root still
in place. -/
def Placing (target : NodeRow) (above : List NodeRow) (base : String) (placed : List String)
    (tracked : List (String × NodeRow)) (totals : List (String × Aggregate)) (w : World) : Prop :=
  Tracks w.catalog target base placed tracked totals ∧ w.catalog.Ascent (target :: above)

theorem Step.writeChild_placing {cur s : String} {par node : NodeRow}
    {a : Option NodeAttributes} (h : Placing target above base placed tracked totals w)
    (hp : (cur, par) ∈ tracked) (hs : s ≠ "") (hslash : '/' ∉ s.toList)
    (hrun : (writeNode ⟨par.tenant, par.resource, some par.id, .keyPrefix, s, a⟩).runAlone w =
      (.ok node, w')) :
    Placing target above base placed (setEntry (joinRel cur s) node tracked) totals w' := by
  have hu := Step.inCatalogSpan_catalog hrun
  exact ⟨h.1.writeChild hp hs hslash hu, h.2.mono fun _ _ hm => upsertNode_places h.1.wf hu hm⟩

theorem Step.rewriteTarget_placing {node : NodeRow} {a : Option NodeAttributes}
    (h : Placing target above base placed tracked totals w)
    (hrun : (writeNode ⟨target.tenant, target.resource, target.parent, target.kind, target.name,
      a⟩).runAlone w = (.ok node, w')) :
    Placing target above base placed (setEntry base node tracked) totals w' := by
  have hu := Step.inCatalogSpan_catalog hrun
  exact ⟨h.1.rewriteTarget hu, h.2.mono fun _ _ hm => upsertNode_places h.1.wf hu hm⟩

/-- One segment of a walk down: the child named `s` is tracked already and the walk goes on
from it, or the child is written, with some attributes, and the walk goes on from the node
written. -/
theorem walkSegments_cons_cases {rel : String} {attrs : Option NodeAttributes} {cur s : String}
    {par : NodeRow} {rest : List String} {r : NodeRow × List (String × NodeRow)}
    (h : (walkSegments rel attrs tracked cur par (s :: rest)).runAlone w = (.ok r, w')) :
    (∃ existing, tracked.lookup (joinRel cur s) = some existing ∧
      (walkSegments rel attrs tracked (joinRel cur s) existing rest).runAlone w = (.ok r, w')) ∨
    ∃ a node w₁,
      (writeNode ⟨par.tenant, par.resource, some par.id, .keyPrefix, s, a⟩).runAlone w =
        (.ok node, w₁) ∧
      (walkSegments rel attrs (setEntry (joinRel cur s) node tracked) (joinRel cur s) node
        rest).runAlone w₁ = (.ok r, w') := by
  unfold walkSegments at h
  dsimp only at h
  split at h
  · rename_i existing hl
    split at h
    · exact .inl ⟨existing, hl, h⟩
    · obtain ⟨node, w₁, h₁, h₂⟩ := Step.runAlone_bind_ok h
      exact .inr ⟨_, node, w₁, h₁, h₂⟩
  · obtain ⟨node, w₁, h₁, h₂⟩ := Step.runAlone_bind_ok h
    exact .inr ⟨_, node, w₁, h₁, h₂⟩

/-- Walking down the segments from a tracked node ends at the node tracked at the path they
spell, writing what was missing on the way. -/
theorem walkSegments_placing (rel : String) (attrs : Option NodeAttributes) :
    ∀ (segs : List String) (tracked : List (String × NodeRow)) (cur : String) (par : NodeRow),
      (cur, par) ∈ tracked → (∀ s ∈ segs, s ≠ "" ∧ '/' ∉ s.toList) →
      (walkSegments rel attrs tracked cur par segs).Ensures
        (Placing target above base placed tracked totals)
        fun r w => Placing target above base placed r.2 totals w ∧ (segs.foldl joinRel cur, r.1) ∈ r.2
  | [], tracked, cur, par, hp, _ => Step.Ensures.pure fun _ h => ⟨h, hp⟩
  | s :: rest, tracked, cur, par, hp, hsegs => by
    intro w r w' hpre h
    obtain ⟨hs, hslash⟩ := hsegs s List.mem_cons_self
    have hrest := fun x hx => hsegs x (List.mem_cons_of_mem _ hx)
    rcases walkSegments_cons_cases h with ⟨existing, hl, h⟩ | ⟨a, node, w₁, h₁, h₂⟩
    · exact walkSegments_placing rel attrs rest tracked _ existing (mem_of_lookup hl) hrest hpre h
    · exact walkSegments_placing rel attrs rest _ _ node
        ((mem_setEntry hpre.1.keys).2 (.inl rfl)) hrest
        (Step.writeChild_placing hpre hp hs hslash h₁) h₂

theorem Placing.of_placed {placed' : List String}
    (h : Placing target above base placed tracked totals w) (hsub : placed ⊆ placed') :
    Placing target above base placed' tracked totals w := by
  refine ⟨{ h.1 with items := fun it hit e he hid => ?_ }, h.2⟩
  obtain ⟨rel, hrel, hrest⟩ := h.1.items it hit e he hid
  exact ⟨rel, hsub hrel, hrest⟩

/-- The prefix node of a path at or below the base is the one tracked there once the walk
down to it is done. -/
theorem ensurePrefix_placing {rel : String} {attrs : Option NodeAttributes}
    (hrel : rel = base ∨ (IsNormal rel ∧ isWithin base rel = true)) :
    (ensurePrefix tracked base rel attrs).Ensures
      (Placing target above base placed tracked totals)
      fun r w => Placing target above base placed r.2 totals w ∧ (rel, r.1) ∈ r.2 := by
  intro w r w' hpre h
  obtain ⟨t, ht, -⟩ := hpre.1.root
  unfold ensurePrefix at h
  rw [lookup_of_mem hpre.1.keys ht] at h
  dsimp only at h
  by_cases hb : rel = base
  · subst hb
    rw [if_pos (beq_self_eq_true _)] at h
    obtain ⟨rfl, rfl⟩ := Step.pure_ok h
    exact ⟨hpre, ht⟩
  · rw [if_neg (by simpa using hb)] at h
    obtain ⟨hn, hw⟩ := hrel.resolve_left hb
    obtain ⟨hsegs, harrive⟩ := walk_arrives hn hw hb
    have := walkSegments_placing rel attrs _ tracked base t ht hsegs hpre h
    rwa [harrive] at this

/-- How placing one walk record can end, read off `placeRecord` once. The record leaves the
table and the totals as they were, which an object placed here never does; it writes the
target again with its attributes, being a bucket or prefix record of the base itself; it
ensures the prefix of its normal path within the base, being a prefix record; or, being an
object of the bucket with no reserved segment and its directory within the base, it ensures
the directory's prefix, writes its item below it and adds its size up from there. -/
inductive RecordPlaced (target : NodeRow) (bucket base : String) (p : Placement)
    (record : ObjectRecord) (w : World) : Placement → World → Prop
  | stay {p' : Placement} : p'.tracked = p.tracked → p'.totals = p.totals →
      ¬(record.kind = .object ∧ record.bucket = bucket ∧
        hasReservedSegment (normalizeKey record.relativePath) = false ∧
        isWithin base (normalizeKey record.relativePath) = true ∧
        isWithin base (parentDir (normalizeKey record.relativePath)) = true) →
      RecordPlaced target bucket base p record w p' w
  | retarget {node : NodeRow} {w' : World} : record.kind ≠ .object →
      normalizeKey record.relativePath = base →
      (writeNode ⟨target.tenant, target.resource, target.parent, target.kind, target.name,
        some (storageAttributes record)⟩).runAlone w = (.ok node, w') →
      RecordPlaced target bucket base p record w { p with tracked := setEntry base node p.tracked } w'
  | keyPrefix {r : NodeRow × List (String × NodeRow)} {w' : World} :
      record.kind = .keyPrefix → IsNormal (normalizeKey record.relativePath) →
      isWithin base (normalizeKey record.relativePath) = true →
      (ensurePrefix p.tracked base (normalizeKey record.relativePath)
        (some (storageAttributes record))).runAlone w = (.ok r, w') →
      RecordPlaced target bucket base p record w { p with tracked := r.2 } w'
  | object {r : NodeRow × List (String × NodeRow)} {row : ItemRow} {w₁ w' : World} :
      record.kind = .object → record.bucket = bucket →
      hasReservedSegment (normalizeKey record.relativePath) = false →
      isWithin base (normalizeKey record.relativePath) = true →
      isWithin base (parentDir (normalizeKey record.relativePath)) = true →
      (ensurePrefix p.tracked base (parentDir (normalizeKey record.relativePath)) none).runAlone w =
        (.ok r, w₁) →
      (writeItem (objectItem r.1 { record with relativePath := normalizeKey record.relativePath })).runAlone
        w₁ = (.ok row, w') →
      RecordPlaced target bucket base p record w
        ⟨r.2, addUpTo base record.sizeBytes ((parentDir (normalizeKey record.relativePath)).length + 1)
          (parentDir (normalizeKey record.relativePath)) p.totals,
          { p.counts with items := p.counts.items + 1 }⟩ w'

theorem placeRecord_placed {bucket : String} {p p' : Placement} {record : ObjectRecord}
    (h : (placeRecord target bucket base p record).runAlone w = (.ok p', w')) :
    RecordPlaced target bucket base p record w p' w' := by
  unfold placeRecord at h
  dsimp only at h
  rw [collapseEmptySegments_eq_normalizeKey] at h
  split at h
  · -- a reserved segment: the record is counted as skipped
    rename_i hres
    obtain ⟨rfl, rfl⟩ := Step.pure_ok h
    exact .stay rfl rfl fun hc => by simp [hc.2.2.1] at hres
  split at h
  · -- another bucket, or a path outside the base
    rename_i hout
    obtain ⟨rfl, rfl⟩ := Step.pure_ok h
    exact .stay rfl rfl fun hc => by simp [hc.2.1, hc.2.2.2.1] at hout
  rename_i hin
  simp only [Bool.or_eq_true, bne_iff_ne, ne_eq, Bool.not_eq_true', not_or, not_not,
    Bool.not_eq_false] at hin
  split at h
  · -- the bucket's own record writes the target again, from the bucket's root only
    rename_i hk
    split at h
    · rename_i hb
      simp only [Bool.and_eq_true, String.isEmpty_iff] at hb
      obtain ⟨node, w₁, h₁, h₂⟩ := Step.runAlone_bind_ok h
      obtain ⟨rfl, rfl⟩ := Step.pure_ok h₂
      exact .retarget (by rw [hk]; decide) (hb.2.trans hb.1.symm) h₁
    · obtain ⟨rfl, rfl⟩ := Step.pure_ok h
      exact .stay rfl rfl fun hc => absurd (hk.symm.trans hc.1) (by decide)
  · -- a prefix record writes the target again, or the prefix and what is missing above it
    rename_i hk
    split at h
    · obtain ⟨rfl, rfl⟩ := Step.pure_ok h
      exact .stay rfl rfl fun hc => absurd (hk.symm.trans hc.1) (by decide)
    rename_i hne
    split at h
    · rename_i hb
      obtain ⟨node, w₁, h₁, h₂⟩ := Step.runAlone_bind_ok h
      obtain ⟨rfl, rfl⟩ := Step.pure_ok h₂
      exact .retarget (by rw [hk]; decide) (by simpa using hb) h₁
    obtain ⟨r, w₁, h₁, h₂⟩ := Step.runAlone_bind_ok h
    obtain ⟨rfl, rfl⟩ := Step.pure_ok h₂
    exact .keyPrefix hk ((normalizeKey_normal _).resolve_left (by simpa using hne)) hin.2 h₁
  · -- an object record writes the prefixes down to its directory, then its item
    rename_i hk
    split at h
    · rename_i hdir
      obtain ⟨rfl, rfl⟩ := Step.pure_ok h
      exact .stay rfl rfl fun hc => by simp [hc.2.2.2.2] at hdir
    rename_i hdir
    simp only [Bool.not_eq_true', Bool.not_eq_false] at hdir
    obtain ⟨r, w₁, h₁, h₂⟩ := Step.runAlone_bind_ok h
    obtain ⟨row, w₂, h₃, h₄⟩ := Step.runAlone_bind_ok h₂
    obtain ⟨rfl, rfl⟩ := Step.pure_ok h₄
    exact .object hk hin.1 (by simpa using ‹¬hasReservedSegment (normalizeKey record.relativePath) = true›)
      hin.2 hdir h₁ h₃

theorem placeRecord_placing (bucket : String) (p : Placement) (record : ObjectRecord)
    (hnew : (placed ++ objectRels bucket [record]).Nodup) :
    (placeRecord target bucket base p record).Ensures
      (Placing target above base placed p.tracked p.totals)
      fun p' => Placing target above base (placed ++ objectRels bucket [record]) p'.tracked p'.totals := by
  intro w p' w' hpre h
  have hsub : placed ⊆ placed ++ objectRels bucket [record] := List.subset_append_left _ _
  cases placeRecord_placed h with
  | stay ht htot _ =>
    rw [ht, htot]
    exact hpre.of_placed hsub
  | retarget _ _ h₁ => exact (Step.rewriteTarget_placing hpre h₁).of_placed hsub
  | keyPrefix _ hn hin h₁ => exact (ensurePrefix_placing (.inr ⟨hn, hin⟩) hpre h₁).1.of_placed hsub
  | object hk hb _ _ hdir h₁ h₃ =>
    -- the object's item is written below its directory's prefix, the first of its path
    have hnorm := normalizeKey_normal record.relativePath
    have hrels : objectRels bucket [record] = [normalizeKey record.relativePath] := by
      simp [objectRels, hk, hb]
    obtain ⟨hpl, hmem⟩ := ensurePrefix_placing (parentDir_within hnorm hdir) hpre h₁
    have hu := Step.inCatalogSpan_catalog h₃
    obtain ⟨-, -, hnodes, -⟩ := upsertItem_items_off hpl.1.wf hu
    rw [hrels] at hnew ⊢
    have hfresh : normalizeKey record.relativePath ∉ placed := fun hm =>
      (List.nodup_append.1 hnew).2.2 _ hm _ (List.mem_singleton_self _) rfl
    have hobj := hpl.1.placeObject hu hmem hnorm hfresh
    dsimp only at hobj ⊢
    exact ⟨hobj, hpl.2.mono fun _ _ hm => hm.of_nodes hnodes⟩

/-- Placing a walk's records one by one keeps the invariant while no two of its objects in the
bucket share a normal path, nor one with an object placed before. -/
theorem placeRecords_placing (bucket : String) :
    ∀ (records : List ObjectRecord) (p : Placement) (placed : List String),
      (placed ++ objectRels bucket records).Nodup →
      (placeRecords target bucket base p records).Ensures
        (Placing target above base placed p.tracked p.totals)
        fun p' => Placing target above base (placed ++ objectRels bucket records) p'.tracked p'.totals
  | [], p, placed, _ => Step.Ensures.pure fun _ h => by simpa [objectRels] using h
  | r :: rest, p, placed, hnd => by
    rw [objectRels_cons, ← List.append_assoc] at hnd ⊢
    exact Step.Ensures.bind (placeRecord_placing bucket p r (List.Nodup.of_append_left hnd))
      fun p' => placeRecords_placing bucket rest p' _ hnd

/-- Finishing the rebuilt prefixes leaves only the target and what lies above it stale. -/
theorem finishPrefixes_placing (totals : List (String × Aggregate)) :
    ∀ l : List (String × NodeRow), (∀ e ∈ l, e ∈ tracked) →
      (finishPrefixes base totals l).Ensures
        (fun w => Placing target above base placed tracked totals w ∧
          w.catalog.AgreesOff fun x => w.catalog.Above target x ∨ x ∈ l.map (·.2.id))
        fun _ w => Placing target above base placed tracked totals w ∧
          w.catalog.AgreesOff (w.catalog.Above target)
  | [], _ => Step.Ensures.pure fun _ h => ⟨h.1, h.2.mono fun x hx => hx.resolve_right (by simp)⟩
  | (rel, node) :: rest, hl => by
    intro w u w' ⟨hpl, hagree⟩ h
    have hrest : ∀ e ∈ rest, e ∈ tracked := fun e he => hl e (List.mem_cons_of_mem _ he)
    have he : (rel, node) ∈ tracked := hl _ List.mem_cons_self
    unfold finishPrefixes at h
    dsimp only at h
    split at h
    · -- a rebuilt prefix is finished with its total
      obtain ⟨_, w₁, h₁, h₂⟩ := Step.runAlone_bind_ok h
      refine finishPrefixes_placing totals rest hrest ?_ h₂
      have hf := Step.inCatalogSpan_catalog h₁
      obtain ⟨htr, hagree', hpl', habove⟩ := hpl.1.finish hagree he hf
      refine ⟨⟨htr, hpl.2.mono fun _ _ hm => hpl' _ hm⟩, hagree'.mono fun x hx => ?_⟩
      rcases hx.1 with hx' | hx'
      · exact .inl (habove _ _ hx')
      · rcases List.mem_cons.1 hx' with hx' | hx'
        · exact absurd hx' hx.2
        · exact .inr hx'
    · -- the base's entry is the target's own, which lies above itself
      rename_i hb
      refine finishPrefixes_placing totals rest hrest ?_ h
      obtain ⟨t, ht, hreft⟩ := hpl.1.root
      have hbase : rel = base := by simpa using hb
      subst hbase
      obtain rfl := hpl.1.entry_of_key he ht
      refine ⟨hpl, hagree.mono fun x hx => ?_⟩
      rcases hx with hx | hx
      · exact .inl hx
      · rcases List.mem_cons.1 hx with hx | hx
        · left
          rw [hx]
          show w.catalog.Above target node.id
          rw [hreft.id]
          exact Tables.Above.of_places hpl.2.head
        · exact .inr hx

end Placing

/-! ## The whole rebuild -/

section Rebuild

variable {target : NodeRow} {above : List NodeRow} {w w' : World}

/-- Clearing the target's subtree keeps the target and the rows above it in place. -/
theorem clearSubtree_ascent {c c' : Tables} {r : Nat × Nat} (hw : c.Wf)
    (ha : c.Ascent (target :: above))
    (hc : clearSubtree target.tenant target.id c = .ok (r, c')) : c'.Ascent (target :: above) := by
  obtain ⟨node, hnode, rfl⟩ := clearSubtree_ok hc
  obtain ⟨tr, htr, href⟩ := hw.nodeById?_of_places ha.head
  rw [htr, Option.some.injEq] at hnode
  subst hnode
  refine ha.mono fun m hm hp => hp.clearedBelow fun ht hs => ?_
  rcases List.mem_cons.1 hm with rfl | hm
  · exact href.id.symm
  · exact absurd ⟨ht.trans href.tenant, by simpa [NodeRow.inSubtree, href.path] using hs⟩
      (hw.ascent_not_within ha hm)

/-- Stamping a node's scan as begun keeps the catalog sound and every node in place. -/
theorem beginNodeScan_sound {c c' : Tables} {t : Ident.TenantId} {id : Ident.NodeId}
    (hw : c.Wf) (hc : c.Consistent) (h : beginNodeScan t id c = .ok ((), c')) :
    c'.Wf ∧ c'.Consistent ∧ ∀ n, c.Places n → c'.Places n := by
  have hw' := beginNodeScan_wf hw h
  obtain ⟨-, rfl⟩ := beginNodeScan_ok h
  refine ⟨hw', Tables.consistent_iff_agreesOff.2 ?_,
    fun n hn => hn.of_update rfl (fun _ => ⟨rfl, rfl, rfl, rfl, rfl⟩) fun _ => rfl⟩
  exact (Tables.consistent_iff_agreesOff.1 hc).of_stamp rfl rfl (fun _ => ⟨rfl, rfl, rfl, rfl⟩)
    fun _ => rfl

/-- Clearing the target's subtree and rebuilding it from a walk leaves only the target and
what lies above it stale, and yields the target's tally. -/
theorem replaceObjects_sound (base : String) (walked : Option (List ObjectRecord))
    (hwalk : ∀ rs, walked = some rs → ∀ b, (objectRels b rs).Nodup)
    (hbucket : walked = none →
      '/' ∉ target.fullName.toList ∧ ∃ c ∈ target.fullName.toList, Text.isBlank c = false) :
    (replaceObjects target base walked).Ensures
      (fun w => w.Sound ∧ w.catalog.Ascent (target :: above) ∧ w.objects.KeysDistinct)
      fun r w => w.catalog.Wf ∧ w.catalog.Ascent (target :: above) ∧
        w.catalog.AgreesOff (w.catalog.Above target) ∧ r.1 = (w.catalog.tally target).wrap := by
  intro w r w' ⟨hs, ha, hk⟩ h
  unfold replaceObjects at h
  dsimp only at h
  obtain ⟨cleared, w₁, h₁, h₂⟩ := Step.runAlone_bind_ok h
  have hc := Step.inCatalogSpan_catalog h₁
  have hobj : w₁.objects = w.objects := by rw [(Step.inCatalogSpan_ok h₁).2]
  have hpl : Placing target above base [] [(base, target)] [] w₁ :=
    ⟨Tracks.start hs.1 hs.2 ha.head hc, clearSubtree_ascent hs.1 ha hc⟩
  -- whatever the walk, its records are placed and the rebuilt prefixes finished
  have hrest : ∀ bucket records w₂, w₂.catalog = w₁.catalog →
      (∀ b, (objectRels b records).Nodup) →
      (placeRecords target bucket base ⟨[(base, target)], [], {}⟩ records >>= fun p =>
        finishPrefixes base p.totals p.tracked >>= fun _ =>
          (pure ((p.totals.lookup base).getD {}, p.counts) : Step (Aggregate × ScanCounts))).runAlone
        w₂ = (.ok r, w') →
      w'.catalog.Wf ∧ w'.catalog.Ascent (target :: above) ∧
        w'.catalog.AgreesOff (w'.catalog.Above target) ∧ r.1 = (w'.catalog.tally target).wrap := by
    intro bucket records w₂ hw₂ hnd h
    obtain ⟨p, w₃, h₃, h₄⟩ := Step.runAlone_bind_ok h
    obtain ⟨_, w₄, h₅, h₆⟩ := Step.runAlone_bind_ok h₄
    obtain ⟨rfl, rfl⟩ := Step.pure_ok h₆
    have hpl₂ : Placing target above base [] [(base, target)] [] w₂ := by
      unfold Placing
      rw [hw₂]
      exact hpl
    have hpl₃ := placeRecords_placing bucket records _ [] (by simpa using hnd bucket) hpl₂ h₃
    obtain ⟨⟨htr, ha'⟩, hagree⟩ :=
      finishPrefixes_placing p.totals p.tracked (fun _ he => he) ⟨hpl₃, hpl₃.1.agrees⟩ h₅
    obtain ⟨t, ht, hreft⟩ := htr.root
    refine ⟨htr.wf, ha', hagree, ?_⟩
    rw [htr.sums _ ht, Tables.tally_congr hreft.tenant hreft.path]
  split at h₂
  · obtain ⟨records, w₂, h₃, h₄⟩ := Step.runAlone_bind_ok h₂
    obtain ⟨rfl, rfl⟩ := Step.pure_ok h₃
    exact hrest _ _ _ rfl (hwalk _ rfl) h₄
  · -- a walk made now names the target's bucket
    obtain ⟨records, w₂, h₃, h₄⟩ := Step.runAlone_bind_ok h₂
    obtain ⟨hslash, hblank⟩ := hbucket rfl
    obtain ⟨hrun, hw₂⟩ := Step.inObjects_ok h₃
    rw [Text.splitFirst_none hslash] at hrun
    dsimp only at hrun
    generalize hrun' : (ExceptT.run (scanPath (joinRel target.fullName base))).run
      ⟨w₁.connector, w₁.objects, w₁.mediaTypes⟩ = out at hrun
    obtain ⟨o, side⟩ := out
    obtain rfl : o = .ok records := hrun
    have hk₁ : (ObjectSide.mk w₁.connector w₁.objects w₁.mediaTypes).store.KeysDistinct := by
      rw [hobj]
      exact hk
    have hnd := scanPath_distinct hk₁ (cleanPath_joinRel_ne_empty hblank hslash base) hrun'
    exact hrest _ records w₂ (by rw [hw₂]) hnd h₄

end Rebuild

end DataCatalog.Scan
