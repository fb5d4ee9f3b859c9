import DataCatalog.Proofs.Scan.Namespaces
import DataCatalog.Scan.Reconcile.Objects
/-!
# Chains of prefixes

The narrow object passes write or read a chain of nodes from a bucket down to a prefix, change
what lies below its deepest node, and then recompute the aggregates along it, deepest first.
Read deepest first, such a chain is an ascent: each row is placed in the catalog and is the
child of the next, and the last is a root. Everything above the deepest node of an ascent lies
on it, so a write below that node leaves only the ascent's aggregates stale. Recomputing them
deepest first restores them: when a node is recomputed, its children off the ascent never went
stale and its child on the ascent was recomputed just before.
-/

namespace DataCatalog.Catalog

open DataCatalog.Ident

/-- Rows read deepest first up to a root: each placed, each the child of the next. -/
def Tables.Ascent (c : Tables) : List NodeRow → Prop
  | [] => True
  | [r] => c.Places r ∧ r.parent = none
  | n :: m :: rest => c.Places n ∧ n.parent = some m.id ∧ c.Ascent (m :: rest)

section Ascent

variable {c c' : Tables} {n m : NodeRow} {rest : List NodeRow}

theorem NodeRow.Refines.symm {a b : NodeRow} (h : a.Refines b) : b.Refines a :=
  ⟨h.id.symm, h.key.symm, h.depth.symm, h.path.symm, h.fullName.symm⟩

theorem Tables.Above.of_refines {a b : NodeRow} {x : NodeId} (h : c.Above a x)
    (hab : a.Refines b) : c.Above b x := by
  obtain ⟨o, ho, hid, ht, hs⟩ := h
  refine ⟨o, ho, hid, hab.tenant ▸ ht, ?_⟩
  simpa [NodeRow.inSubtree, hab.path] using hs

/-- Rows not stamped by an update keep their place. -/
theorem Tables.Places.of_update_off {p : NodeRow → Bool} {f : NodeRow → NodeRow}
    (h : c.Places n) (hn : c'.nodes = updateWhere p f c.nodes)
    (hoff : ∀ r ∈ c.nodes, r.Refines n → p r = false) : c'.Places n := by
  obtain ⟨r, hr, href, hl⟩ := h
  refine ⟨r, ?_, href, hl⟩
  rw [hn, updateWhere]
  exact List.mem_map.2 ⟨r, hr, by simp [hoff r hr href]⟩

/-- A child is one level deeper than its parent. -/
theorem Tables.Wf.depth_of_parent (hw : c.Wf) (hn : c.Places n) (hm : c.Places m)
    (hp : n.parent = some m.id) : n.depth = m.depth + 1 := by
  obtain ⟨rn, hrn, hrefn, -⟩ := hn
  obtain ⟨rm, hrm, hrefm, -⟩ := hm
  have hb := hw.sitsBelow_of_parent hrn hrm (by rw [hrefn.parent, hp, hrefm.id])
  rw [← hrefn.depth, ← hrefm.depth, hb.depth]

theorem Tables.Wf.depth_le_of_descends (hw : c.Wf) {a b : NodeRow} (h : c.Descends a b) :
    b.depth ≤ a.depth := by
  induction h with
  | refl => exact Nat.le_refl _
  | child hm hp hpar _ ih =>
    have hd := (hw.sitsBelow_of_parent hm hp hpar).depth
    omega

/-- A node never lies in the subtree of a deeper one. -/
theorem Tables.Wf.not_within_of_depth (hw : c.Wf) (hm : c.Places m) (hn : c.Places n)
    (hd : m.depth < n.depth) : ¬(m.tenant = n.tenant ∧ m.inSubtree n.path) := by
  rintro ⟨ht, hs⟩
  obtain ⟨rm, hrm, hrefm, -⟩ := hm
  obtain ⟨rn, hrn, hrefn, -⟩ := hn
  have hdesc := hw.descends_of_within hrm hrn (by rw [hrefm.tenant, hrefn.tenant, ht])
    (by simpa [NodeRow.inSubtree, hrefm.path, hrefn.path] using hs)
  have := hw.depth_le_of_descends hdesc
  rw [hrefm.depth, hrefn.depth] at this
  omega

theorem Tables.Ascent.tail (h : c.Ascent (n :: rest)) : c.Ascent rest := by
  match rest, h with
  | [], _ => trivial
  | _ :: _, h => exact h.2.2

theorem Tables.Ascent.head (h : c.Ascent (n :: rest)) : c.Places n := by
  match rest, h with
  | [], h => exact h.1
  | _ :: _, h => exact h.1

theorem Tables.Ascent.places : ∀ {l : List NodeRow}, c.Ascent l → ∀ n ∈ l, c.Places n
  | [], _, _, hn => absurd hn List.not_mem_nil
  | _ :: _, h, _, hn => by
    rcases List.mem_cons.1 hn with rfl | hn
    · exact h.head
    · exact h.tail.places _ hn

/-- An ascent stays one while its rows stay placed. -/
theorem Tables.Ascent.mono : ∀ {l : List NodeRow}, c.Ascent l →
    (∀ n ∈ l, c.Places n → c'.Places n) → c'.Ascent l
  | [], _, _ => trivial
  | [_], h, hp => ⟨hp _ List.mem_cons_self h.1, h.2⟩
  | _ :: _ :: _, h, hp =>
    ⟨hp _ List.mem_cons_self h.1, h.2.1,
      h.2.2.mono fun n hn => hp n (List.mem_cons_of_mem _ hn)⟩

/-- The rows of an ascent get shallower going up. -/
theorem Tables.Wf.ascent_depth_lt (hw : c.Wf) :
    ∀ {n : NodeRow} {rest : List NodeRow}, c.Ascent (n :: rest) → ∀ m ∈ rest, m.depth < n.depth
  | _, [], _, _, hm => absurd hm List.not_mem_nil
  | _, k :: _, h, m, hm => by
    have hk := hw.depth_of_parent h.1 h.2.2.head h.2.1
    rcases List.mem_cons.1 hm with rfl | hm
    · omega
    · have := hw.ascent_depth_lt h.2.2 m hm
      omega

/-- The rows above the deepest one of an ascent are not in its subtree. -/
theorem Tables.Wf.ascent_not_within (hw : c.Wf) (h : c.Ascent (n :: rest)) (hm : m ∈ rest) :
    ¬(m.tenant = n.tenant ∧ m.inSubtree n.path) :=
  hw.not_within_of_depth (h.tail.places m hm) h.head (hw.ascent_depth_lt h m hm)

/-- Everything above the deepest row of an ascent lies on it. -/
theorem Tables.Wf.ascent_above (hw : c.Wf) :
    ∀ {n : NodeRow} {rest : List NodeRow}, c.Ascent (n :: rest) → ∀ {x : NodeId},
      c.Above n x → x ∈ (n :: rest).map (·.id)
  | _, [], h, x, hx => by
    obtain ⟨r, hr, href, -⟩ := h.1
    have := hw.above_root hr (href.parent.trans h.2) (hx.of_refines href.symm)
    simp [this, href.id]
  | n, k :: rest, h, x, hx => by
    obtain ⟨rn, hrn, hrefn, -⟩ := h.1
    obtain ⟨rk, hrk, hrefk, -⟩ := h.2.2.head
    have hb := hw.sitsBelow_of_parent hrn hrk (by rw [hrefn.parent, h.2.1, hrefk.id])
    rcases hw.above_sitsBelow hrn hrk hb (hx.of_refines hrefn.symm) with rfl | habove
    · simp [hrefn.id]
    · exact List.mem_cons_of_mem _ (hw.ascent_above h.2.2 (habove.of_refines hrefk))

/-- Retiring a node keeps every placed node outside its subtree. -/
theorem retireNode_places {t : TenantId} {id : NodeId} (hw : c.Wf)
    (h : retireNode t id c = .ok ((), c')) (hn : c.Places n)
    (hout : ∀ node, c.nodeById? t id = some node →
      ¬(n.tenant = node.tenant ∧ n.inSubtree node.path)) : c'.Places n := by
  obtain ⟨node, hnode, rfl⟩ := retireNode_ok h
  obtain ⟨hnm, -, hnid, -⟩ := Tables.nodeById?_some hnode
  have hout' := hout node hnode
  have h₁ : (c.clearedBelow node).Places n := hn.clearedBelow fun ht hs => absurd ⟨ht, hs⟩ hout'
  refine h₁.of_update_off rfl fun r hr href => ?_
  -- the one row stamped is the retired node's, and `n` is not in its place
  rw [Bool.eq_false_iff]
  intro hp
  simp only [NodeRow.isNode, Bool.and_eq_true, beq_iff_eq] at hp
  obtain rfl := hw.node_eq_of_id (List.mem_filter.1 hr).1 hnm (hp.2.trans hnid.symm)
  exact hout' ⟨href.tenant.symm, by simpa [NodeRow.inSubtree, href.path] using r.inSubtree_self⟩

end Ascent

end DataCatalog.Catalog

namespace DataCatalog.Scan

open DataCatalog.Catalog DataCatalog.Storage

/-- Recomputing deepest first: the catalog is well formed, the rows left form an ascent, and
only their aggregates may be stale. -/
def Recomputing (rest : List NodeRow) (w : World) : Prop :=
  w.catalog.Wf ∧ w.catalog.Ascent rest ∧ w.catalog.AgreesOff (· ∈ rest.map (·.id))

theorem Recomputing.sound {w : World} (h : Recomputing [] w) : w.Sound :=
  ⟨h.1, Tables.consistent_iff_agreesOff.2 (h.2.2.mono fun x hx => by simp at hx)⟩

/-- Recomputing the deepest row of an ascent from its children makes it agree: none of its
live children lies on the ascent, all of which is shallower. -/
theorem recompute_step (n : NodeRow) (rest : List NodeRow) :
    (do
      let agg ← inCatalog (sumChildren n.tenant n.id)
      inCatalog (setNodeAggregate n.tenant n.id agg) : Step Unit).Ensures
      (Recomputing (n :: rest)) fun _ => Recomputing rest := by
  intro w u w' ⟨hw, ha, hd⟩ h
  obtain ⟨agg, w₁, h₁, h₂⟩ := Step.runAlone_bind_ok h
  obtain ⟨hsum, hc₁⟩ := sumChildren_ok (Step.inCatalogSpan_catalog h₁)
  have hset := Step.inCatalogSpan_catalog h₂
  rw [hc₁] at hset
  obtain ⟨r, hr, href, hl⟩ := ha.head
  rw [← href.tenant, ← href.id] at hsum hset
  have hkids : ∀ ch ∈ w.catalog.liveChildren r, ¬ch.id ∈ (n :: rest).map (·.id) := by
    intro ch hch hmem
    simp only [Tables.liveChildren, List.mem_filter, Bool.and_eq_true, beq_iff_eq] at hch
    obtain ⟨m, hm, hid⟩ := List.mem_map.1 hmem
    have hdeep := hw.depth_of_parent (.of_mem hch.1 hch.2.2) (.of_mem hr hl) hch.2.1.2
    obtain ⟨rm, hrm, hrefm, -⟩ := ha.places m hm
    obtain rfl := hw.node_eq_of_id hch.1 hrm (hid.symm.trans hrefm.id.symm)
    rw [hrefm.depth, href.depth] at hdeep
    rcases List.mem_cons.1 hm with rfl | hm
    · omega
    · have := hw.ascent_depth_lt ha m hm
      omega
  have hnodes : w'.catalog.nodes = updateWhere (·.isNode r.tenant r.id)
      (fun x => { x with itemCount := agg.itemCount, totalSize := agg.totalSize })
      w.catalog.nodes := by
    rw [setNodeAggregate_ok hset]
  obtain ⟨hw', hagree⟩ := hw.recompute hd hr hkids hsum hset
  refine ⟨hw', ha.tail.mono fun m _ hp => hp.of_update hnodes
    (fun _ => ⟨rfl, rfl, rfl, rfl, rfl⟩) (fun _ => rfl), hagree.mono fun x hx => ?_⟩
  rcases List.mem_cons.1 hx.1 with hx' | hx'
  · exact absurd (hx'.trans href.id.symm) hx.2
  · exact hx'

/-- Recomputing a chain deepest first leaves the catalog sound, when only the chain was stale. -/
theorem rollUp_sound (chain : List NodeRow) :
    (rollUp chain).Ensures (Recomputing chain.reverse) fun _ => World.Sound := by
  unfold rollUp
  exact (Step.Ensures.forM fun n rest => recompute_step n rest).mono (fun _ h => h)
    fun _ _ h => h.sound

/-- The end of a non-empty chain heads it read deepest first. -/
theorem reverse_eq_chainEnd (b : NodeRow) {chain : List NodeRow} (h : chain ≠ []) :
    chain.reverse = chainEnd b chain :: chain.dropLast.reverse := by
  conv_lhs => rw [← List.dropLast_append_getLast h]
  rw [List.reverse_append, chainEnd, List.getLastD_eq_getLast?, List.getLast?_eq_some_getLast h]
  rfl

section Build

variable {w w' : World}

/-- Writing the prefixes below `parent` one per segment extends the ascent through `parent`. -/
theorem chainFrom_ascent (segments : List String) :
    ∀ (parent : NodeRow) (above : List NodeRow),
      (chainFrom parent segments).Ensures (fun w => w.Sound ∧ w.catalog.Ascent (parent :: above))
        fun chain w => w.Sound ∧ w.catalog.Ascent (chain.reverse ++ parent :: above) := by
  induction segments with
  | nil => exact fun _ _ => Step.Ensures.pure fun _ h => by simpa using h
  | cons segment rest ih =>
    intro parent above w chain w' ⟨hs, ha⟩ h
    unfold chainFrom at h
    obtain ⟨node, w₁, h₁, h₂⟩ := Step.runAlone_bind_ok h
    obtain ⟨hs₁, hplaces, hkey, hkeep, -⟩ := Step.writeNode_sound hs h₁
    simp only [NodeRow.naturalKey, Prod.mk.injEq] at hkey
    have ha₁ : w₁.catalog.Ascent (node :: parent :: above) :=
      ⟨hplaces, hkey.2.2.1, ha.mono fun m _ hm => hkeep m hm⟩
    obtain ⟨below, w₂, h₃, h₄⟩ := Step.runAlone_bind_ok h₂
    obtain ⟨rfl, rfl⟩ := Step.pure_ok h₄
    obtain ⟨hs₂, ha₂⟩ := ih node (parent :: above) ⟨hs₁, ha₁⟩ h₃
    exact ⟨hs₂, by simpa using ha₂⟩

/-- The chain down to a prefix, read deepest first, is an ascent ending at the bucket. -/
theorem ensureChain_ascent (bucketNode : NodeRow) (rel : String) :
    (ensureChain bucketNode rel).Ensures (fun w => w.Sound ∧ w.catalog.Ascent [bucketNode])
      fun chain w => w.Sound ∧ w.catalog.Ascent chain.reverse ∧ chain ≠ [] := by
  intro w chain w' hpre h
  unfold ensureChain at h
  obtain ⟨below, w₁, h₁, h₂⟩ := Step.runAlone_bind_ok h
  obtain ⟨rfl, rfl⟩ := Step.pure_ok h₂
  obtain ⟨hs, ha⟩ := chainFrom_ascent _ bucketNode [] hpre h₁
  exact ⟨hs, by simpa using ha, List.cons_ne_nil _ _⟩

/-- The item of an object record is named by the last segment of the record's path. -/
theorem objectItem_name (parent : NodeRow) (r : ObjectRecord) :
    (objectItem parent r).name = baseName r.relativePath := by
  -- unfold the item rather than check by `rfl`, which would try to unfold `baseName` first
  simp only [objectItem]

/-- A write below the end of a chain leaves only the chain stale. -/
theorem Step.writeItem_recomputing {i : ItemInput} {row : ItemRow} {chain : List NodeRow}
    {b : NodeRow} (hs : w.Sound) (ha : w.catalog.Ascent chain.reverse) (hne : chain ≠ [])
    (hi : i.tenant = (chainEnd b chain).tenant) (hn : i.node = (chainEnd b chain).id)
    (h : (writeItem i).runAlone w = (.ok row, w')) : Recomputing chain.reverse w' := by
  have hu := Step.inCatalogSpan_catalog h
  rw [reverse_eq_chainEnd b hne] at ha ⊢
  obtain ⟨node, hnode, hagree⟩ :=
    upsertItem_agreesOff hs.1 hu (Tables.consistent_iff_agreesOff.1 hs.2)
  obtain ⟨r, hr, href⟩ := hs.1.nodeById?_of_places ha.head
  rw [hi, hn, hr, Option.some.injEq] at hnode
  subst hnode
  obtain ⟨-, -, hnodes, -⟩ := upsertItem_items_off hs.1 hu
  refine ⟨upsertItem_wf hs.1 hu, ha.mono fun m _ hm => hm.of_nodes hnodes,
    hagree.mono fun x hx => ?_⟩
  rcases hx with hx | hx
  · exact hx.elim
  · exact hs.1.ascent_above ha (hx.of_refines href)

/-- Writing one object again and recomputing its ancestors keeps the catalog sound. -/
theorem refreshObject_sound (bucketNode : NodeRow) (record : ObjectRecord) :
    (refreshObject bucketNode record).Ensures
      (fun w => w.Sound ∧ w.catalog.Ascent [bucketNode]) fun _ => World.Sound := by
  intro w counts w' hpre h
  unfold refreshObject at h
  obtain ⟨chain, w₁, h₁, h₂⟩ := Step.runAlone_bind_ok h
  obtain ⟨hs₁, ha₁, hne⟩ := ensureChain_ascent bucketNode _ hpre h₁
  obtain ⟨row, w₂, h₃, h₄⟩ := Step.runAlone_bind_ok h₂
  have hrec := Step.writeItem_recomputing hs₁ ha₁ hne rfl rfl h₃
  obtain ⟨_, w₃, h₅, h₆⟩ := Step.runAlone_bind_ok h₄
  obtain ⟨-, rfl⟩ := Step.pure_ok h₆
  exact rollUp_sound chain hrec h₅

end Build

section Forget

variable {w w' : World}

theorem mem_ids_of_ne {n : NodeRow} {rest : List NodeRow} {x : Ident.NodeId}
    (h : x ∈ (n :: rest).map (·.id)) (hne : x ≠ n.id) : x ∈ rest.map (·.id) := by
  rcases List.mem_cons.1 h with h | h
  · exact absurd h hne
  · exact h

/-- Reading the prefixes below `parent` one per segment reads an ascent through `parent`, and
changes nothing. -/
theorem prefixChain_spec (segments : List String) :
    ∀ (parent : NodeRow) (above : List NodeRow) {w w' : World} {r : Option (List NodeRow)},
      w.catalog.Ascent (parent :: above) → (prefixChain parent segments).runAlone w = (.ok r, w') →
      w' = w ∧ ∀ below, r = some below → w.catalog.Ascent (below.reverse ++ parent :: above) := by
  induction segments with
  | nil =>
    intro parent above w w' r ha h
    unfold prefixChain at h
    obtain ⟨rfl, rfl⟩ := Step.pure_ok h
    refine ⟨rfl, fun below hb => ?_⟩
    cases hb
    simpa using ha
  | cons segment rest ih =>
    intro parent above w w' r ha h
    unfold prefixChain at h
    obtain ⟨node?, w₁, h₁, h₂⟩ := Step.runAlone_bind_ok h
    obtain ⟨rfl, hw₁⟩ := Step.readCatalog_ok h₁
    rw [hw₁] at h₂
    cases hnode : w.catalog.getNode parent.tenant parent.resource (some parent.id) .keyPrefix
        segment with
    | none =>
      rw [hnode] at h₂
      obtain ⟨rfl, rfl⟩ := Step.pure_ok h₂
      exact ⟨rfl, fun _ hb => by cases hb⟩
    | some node =>
      rw [hnode] at h₂
      dsimp only at h₂
      obtain ⟨hmem, hkey, hlive⟩ := Tables.getNode_some hnode
      simp only [NodeRow.naturalKey, Prod.mk.injEq] at hkey
      have ha₁ : w.catalog.Ascent (node :: parent :: above) := ⟨.of_mem hmem hlive, hkey.2.2.1, ha⟩
      obtain ⟨x, w₂, h₃, h₄⟩ := Step.runAlone_bind_ok h₂
      obtain ⟨rfl, rfl⟩ := Step.pure_ok h₄
      obtain ⟨rfl, hx⟩ := ih node (parent :: above) ha₁ h₃
      refine ⟨rfl, fun below hb => ?_⟩
      obtain ⟨below', rfl, rfl⟩ := Option.map_eq_some_iff.1 hb
      simpa using hx below' rfl

/-- Retiring the empty prefixes at the deep end of an ascent leaves an ascent of which only the
rows may be stale; when nothing was retired nothing changed. -/
theorem pruneEmpty_spec : ∀ (l : List NodeRow) (k : Nat) {w w' : World} {kept : List NodeRow}
    {k' : Nat}, Recomputing l w → (pruneEmpty l k).runAlone w = (.ok (kept, k'), w') →
      Recomputing kept w' ∧ k ≤ k' ∧ (k' = k → w' = w)
  | [], k, w, w', kept, k', hr, h => by
    unfold pruneEmpty at h
    obtain ⟨h₁, rfl⟩ := Step.pure_ok h
    cases h₁
    exact ⟨hr, Nat.le_refl _, fun _ => rfl⟩
  | [root], k, w, w', kept, k', hr, h => by
    unfold pruneEmpty at h
    obtain ⟨h₁, rfl⟩ := Step.pure_ok h
    cases h₁
    exact ⟨hr, Nat.le_refl _, fun _ => rfl⟩
  | node :: m :: rest, k, w, w', kept, k', hr, h => by
    unfold pruneEmpty at h
    obtain ⟨_, w₁, h₁, h₂⟩ := Step.runAlone_bind_ok h
    obtain ⟨-, hw₁⟩ := Step.readCatalog_ok h₁
    obtain ⟨_, w₂, h₃, h₄⟩ := Step.runAlone_bind_ok h₂
    obtain ⟨-, hw₂⟩ := Step.readCatalog_ok h₃
    subst hw₁ hw₂
    split at h₄
    · -- the deepest prefix holds nothing: it goes, and what is above it is pruned in turn
      obtain ⟨_, w₃, h₅, h₆⟩ := Step.runAlone_bind_ok h₄
      have hret := Step.inCatalogSpan_catalog h₅
      obtain ⟨hw, ha, hd⟩ := hr
      obtain ⟨node', hnode, hagree⟩ := retireNode_agreesOff hw hret hd
      obtain ⟨r, hr', href⟩ := hw.nodeById?_of_places ha.head
      rw [hr', Option.some.injEq] at hnode
      subst hnode
      have hr₃ : Recomputing (m :: rest) w₃ := by
        refine ⟨retireNode_wf hw hret, ha.tail.mono fun m' hm' hp => ?_, hagree.mono ?_⟩
        · refine retireNode_places hw hret hp fun node hn hin => ?_
          rw [hr', Option.some.injEq] at hn
          subst hn
          exact hw.ascent_not_within ha hm'
            ⟨hin.1.trans href.tenant, by simpa [NodeRow.inSubtree, href.path] using hin.2⟩
        · rintro x ⟨hD | habove, hne⟩
          · exact mem_ids_of_ne hD (href.id ▸ hne)
          · exact mem_ids_of_ne (hw.ascent_above ha (habove.of_refines href)) (href.id ▸ hne)
      obtain ⟨hk, hle, -⟩ := pruneEmpty_spec (m :: rest) (k + 1) hr₃ h₆
      exact ⟨hk, by omega, fun he => by omega⟩
    · obtain ⟨h₇, rfl⟩ := Step.pure_ok h₄
      cases h₇
      exact ⟨hr, Nat.le_refl _, fun _ => rfl⟩

/-- Recomputing what is left, or nothing when nothing changed, leaves the catalog sound. -/
theorem rollUpIf_sound {kept : List NodeRow} {b : Bool} {counts counts' : ScanCounts}
    (hr : Recomputing kept w) (hb : b = false → w.Sound)
    (h : (if b = true then do let _ ← rollUp kept.reverse; pure counts
      else pure counts : Step ScanCounts).runAlone w = (.ok counts', w')) : w'.Sound := by
  split at h
  · obtain ⟨_, w₁, h₁, h₂⟩ := Step.runAlone_bind_ok h
    obtain ⟨-, rfl⟩ := Step.pure_ok h₂
    exact rollUp_sound kept.reverse (by simpa using hr) h₁
  · obtain ⟨-, rfl⟩ := Step.pure_ok h
    exact hb (by simpa using ‹¬b = true›)

/-- Deleting an item of the end of a chain leaves only the chain stale; deleting nothing
changes nothing. -/
theorem Step.deleteItem_recomputing {chain : List NodeRow} {b : NodeRow} {t : Ident.TenantId}
    {k : ItemKind} {name : String} {removed : Bool} (hs : w.Sound)
    (ha : w.catalog.Ascent chain.reverse) (hne : chain ≠ [])
    (h : (inCatalog (deleteItem t (chainEnd b chain).id k name)).runAlone w = (.ok removed, w')) :
    Recomputing chain.reverse w' ∧ (removed = false → w'.catalog = w.catalog) := by
  have hdel := Step.inCatalogSpan_catalog h
  rw [reverse_eq_chainEnd b hne] at ha ⊢
  obtain ⟨r, hr, href, -⟩ := ha.head
  rw [← href.id] at hdel
  have hagree := deleteItem_agreesOff hs.1 hr hdel (Tables.consistent_iff_agreesOff.1 hs.2)
  have hc' := (deleteItem_ok hdel).2
  have hnodes : w'.catalog.nodes = w.catalog.nodes := by rw [hc']
  refine ⟨⟨hs.1.of_filter_items hnodes (by rw [hc']) (by rw [hc']),
    ha.mono fun _ _ hm => hm.of_nodes hnodes, hagree.mono fun x hx => ?_⟩, ?_⟩
  · rcases hx with hx | hx
    · exact hx.elim
    · exact hs.1.ascent_above ha (hx.of_refines href)
  · rintro rfl
    exact deleteItem_eq_of_none hdel

/-- Retiring a child of the end of a chain leaves only the chain stale. -/
theorem Step.retireChild_recomputing {chain : List NodeRow} {b node : NodeRow}
    (hr : Recomputing chain.reverse w) (hne : chain ≠ []) (hmem : node ∈ w.catalog.nodes)
    (hlive : node.isLive) (hpar : node.parent = some (chainEnd b chain).id)
    (h : (retireCatalogNode node.tenant node.id).runAlone w = (.ok (), w')) :
    Recomputing chain.reverse w' := by
  obtain ⟨hw, ha, hd⟩ := hr
  have hret := Step.inCatalogSpan_catalog h
  rw [reverse_eq_chainEnd b hne] at ha hd ⊢
  have hplaced : w.catalog.Places node := .of_mem hmem hlive
  have hdeep := hw.depth_of_parent hplaced ha.head hpar
  obtain ⟨node', hnode, hagree⟩ := retireNode_agreesOff hw hret hd
  obtain ⟨r', hr', href'⟩ := hw.nodeById?_of_places hplaced
  rw [hr', Option.some.injEq] at hnode
  subst hnode
  obtain ⟨rp, hrp, hrefp, -⟩ := ha.head
  have hb := hw.sitsBelow_of_parent hmem hrp (by rw [hpar, hrefp.id])
  refine ⟨retireNode_wf hw hret, ha.mono fun m hm hp => ?_, hagree.mono ?_⟩
  · -- the chain lies above the retired child, shallower than it
    refine retireNode_places hw hret hp fun n hn hin => ?_
    rw [hr', Option.some.injEq] at hn
    subst hn
    have hlt : m.depth < node.depth := by
      rcases List.mem_cons.1 hm with rfl | hm
      · omega
      · have := hw.ascent_depth_lt ha m hm
        omega
    exact hw.not_within_of_depth hp hplaced hlt
      ⟨hin.1.trans href'.tenant, by simpa [NodeRow.inSubtree, href'.path] using hin.2⟩
  · rintro x ⟨hD | habove, hne'⟩
    · exact hD
    · rcases hw.above_sitsBelow hmem hrp hb (habove.of_refines href') with hx | hx
      · exact absurd (hx.trans href'.id.symm) hne'
      · exact hw.ascent_above ha (hx.of_refines hrefp)

end Forget

/-- Removing a vanished path, pruning the prefixes it emptied and recomputing what is left
keeps the catalog sound. -/
theorem forgetPath_sound (bucketNode : NodeRow) (key : String) :
    (forgetPath bucketNode key).Ensures
      (fun w => w.Sound ∧ w.catalog.Ascent [bucketNode]) fun _ => World.Sound := by
  intro w counts w' ⟨hs, ha⟩ h
  unfold forgetPath at h
  dsimp only at h
  obtain ⟨below?, w₁, h₁, h₂⟩ := Step.runAlone_bind_ok h
  obtain ⟨hw₁, hbelow⟩ := prefixChain_spec _ bucketNode [] ha h₁
  rw [hw₁] at h₂
  cases below? with
  | none =>
    obtain ⟨-, rfl⟩ := Step.pure_ok h₂
    exact hs
  | some below =>
    dsimp only at h₂
    have hne : bucketNode :: below ≠ [] := List.cons_ne_nil _ _
    have ha₁ : w.catalog.Ascent (bucketNode :: below).reverse := by simpa using hbelow below rfl
    obtain ⟨removedItem, w₂, h₃, h₄⟩ := Step.runAlone_bind_ok h₂
    obtain ⟨hr₂, hsame₂⟩ := Step.deleteItem_recomputing hs ha₁ hne h₃
    obtain ⟨node?, w₃, h₅, h₆⟩ := Step.runAlone_bind_ok h₄
    obtain ⟨rfl, hw₃⟩ := Step.readCatalog_ok h₅
    subst hw₃
    cases hnode : w₃.catalog.getNode bucketNode.tenant
        (chainEnd bucketNode (bucketNode :: below)).resource
        (some (chainEnd bucketNode (bucketNode :: below)).id) .keyPrefix (baseName key) with
    | none =>
      -- nothing of that name is a prefix: only the item may have gone
      rw [hnode] at h₆
      obtain ⟨_, w₄, h₇, h₈⟩ := Step.runAlone_bind_ok h₆
      obtain ⟨rfl, rfl⟩ := Step.pure_ok h₇
      obtain ⟨x, w₅, h₉, h₁₀⟩ := Step.runAlone_bind_ok h₈
      obtain ⟨hr₅, -, hsame₅⟩ := pruneEmpty_spec _ 0 hr₂ h₉
      refine rollUpIf_sound hr₅ (fun hb => ?_) h₁₀
      simp only [Bool.or_false, Bool.or_eq_false_iff, decide_eq_false_iff_not, gt_iff_lt,
        Nat.not_lt, Nat.le_zero] at hb
      rw [hsame₅ hb.2]
      exact ⟨hsame₂ hb.1 ▸ hs.1, hsame₂ hb.1 ▸ hs.2⟩
    | some node =>
      -- the prefix of that name goes with its subtree
      rw [hnode] at h₆
      obtain ⟨hmem, hkey, hlive⟩ := Tables.getNode_some hnode
      simp only [NodeRow.naturalKey, Prod.mk.injEq] at hkey
      obtain ⟨_, w₄, h₇, h₈⟩ := Step.runAlone_bind_ok h₆
      rw [← hkey.1] at h₇
      have hr₄ := Step.retireChild_recomputing hr₂ hne hmem hlive hkey.2.2.1 h₇
      obtain ⟨_, w₅, h₉, h₁₀⟩ := Step.runAlone_bind_ok h₈
      obtain ⟨rfl, rfl⟩ := Step.pure_ok h₉
      obtain ⟨x, w₆, h₁₁, h₁₂⟩ := Step.runAlone_bind_ok h₁₀
      obtain ⟨hr₆, -⟩ := pruneEmpty_spec _ 0 hr₄ h₁₁
      exact rollUpIf_sound hr₆ (fun hb => by simp at hb) h₁₂
end DataCatalog.Scan
