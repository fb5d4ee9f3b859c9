import DataCatalog.Proofs.Catalog.Tally
import DataCatalog.Proofs.Catalog.Reachable
/-!
# How catalog operations move tallies

A tally sees of a node only its tenant and path, and of the catalog only which items hang off
which live nodes. So writing or stamping nodes moves no tally; writing or removing an item
moves only the tallies of the nodes whose subtree holds the item's node; clearing a subtree
moves only the tallies of the nodes above its root and leaves the root with nothing; and a
retired node records the nothing it tallies. Each statement names the nodes that may stop
agreeing with their tally, so that a reconciler knows which aggregates to recompute.
-/

namespace DataCatalog.Catalog

open DataCatalog.Ident

/-- `x` is the id of a node whose subtree holds `o`. -/
def Tables.Above (c : Tables) (o : NodeRow) (x : NodeId) : Prop :=
  ∃ a ∈ c.nodes, a.id = x ∧ o.tenant = a.tenant ∧ o.inSubtree a.path

theorem Aggregate.wrap_zero : (⟨0, 0⟩ : Aggregate).wrap = ⟨0, 0⟩ := by
  simp [Aggregate.wrap, Word.wrap]

/-- Two nodes whose subtrees share a member are nested. -/
theorem NodeRow.nested_of_within {m a b : NodeRow} (ha : m.inSubtree a.path)
    (hb : m.inSubtree b.path) : a.inSubtree b.path ∨ b.inSubtree a.path := by
  simp only [NodeRow.inSubtree_iff] at *
  exact (List.prefix_or_prefix_of_prefix ha hb).symm

section Basics

variable {c c' : Tables} {D D' : NodeId → Prop} {n : NodeRow}

theorem Tables.AgreesOff.mono (h : c.AgreesOff D) (hD : ∀ x, D x → D' x) : c.AgreesOff D' :=
  fun n hn hd => h n hn fun h' => hd (hD _ h')

theorem Tables.tally_congr {a b : NodeRow} (ht : a.tenant = b.tenant) (hp : a.path = b.path) :
    c.tally a = c.tally b := by
  have hsame : c.tallies a = c.tallies b := by
    funext i
    simp only [Tables.tallies, NodeRow.inSubtree, ht, hp]
  simp only [Tables.tally, hsame]

theorem Tables.tally_eq_of_tallies (hi : c'.items = c.items)
    (h : ∀ it ∈ c.items, c'.tallies n it = c.tallies n it) : c'.tally n = c.tally n := by
  simp only [Tables.tally, hi, List.filter_congr h]

/-- Only a root's own id is above it. -/
theorem Tables.Wf.above_root (hw : c.Wf) {r : NodeRow} (hr : r ∈ c.nodes) (hroot : r.parent = none)
    {x : NodeId} (h : c.Above r x) : x = r.id := by
  obtain ⟨a, ha, rfl, -, hs⟩ := h
  rcases hw.within_cases hr ha hs with rfl | ⟨p, -, hb, -⟩
  · rfl
  · simp [hb.parent] at hroot

/-- Above a node are its own id and what is above its parent. -/
theorem Tables.Wf.above_sitsBelow (hw : c.Wf) {o p : NodeRow} (ho : o ∈ c.nodes) (hp : p ∈ c.nodes)
    (hb : o.SitsBelow p) {x : NodeId} (h : c.Above o x) : x = o.id ∨ c.Above p x := by
  obtain ⟨a, ha, rfl, ht, hs⟩ := h
  rcases hw.within_cases ho ha hs with rfl | ⟨q, hq, hbq, hqa⟩
  · exact .inl rfl
  · obtain rfl : q = p := hw.node_eq_of_id hq hp (Option.some.inj (hbq.parent.symm.trans hb.parent))
    exact .inr ⟨a, ha, rfl, hb.tenant.trans ht, hqa⟩

/-- A node with no child and no item of its own tallies nothing. -/
theorem Tables.Wf.tally_eq_zero (hw : c.Wf) (hn : n ∈ c.nodes) (hc : c.Childless n.id) :
    c.tally n = ⟨0, 0⟩ := by
  have hnone : c.items.filter (c.tallies n) = [] := by
    rw [List.filter_eq_nil_iff]
    intro i hi ht
    simp only [Tables.tallies, List.any_eq_true, Bool.and_eq_true, beq_iff_eq] at ht
    obtain ⟨m, hm, ⟨⟨hid, -⟩, hs⟩, -⟩ := ht
    by_cases hnm : n = m
    · subst hnm
      exact hc.2 i hi hid.symm
    · obtain ⟨ch, hch, hb, -⟩ := hw.child_toward hm hn hs hnm
      exact hc.1 ch hch hb.parent
  simp [Tables.tally, hnone]

/-- Mapping the nodes by a change that keeps ids, tenants and paths, and the liveness of the
nodes an item hangs off, keeps whether a node tallies the item. -/
theorem Tables.tallies_map {g : NodeRow → NodeRow} (hn : c'.nodes = c.nodes.map g) {i : ItemRow}
    (hg : ∀ m ∈ c.nodes, (g m).id = m.id ∧ (g m).tenant = m.tenant ∧ (g m).path = m.path)
    (hl : ∀ m ∈ c.nodes, m.id = i.node → (g m).isLive = m.isLive) :
    c'.tallies n i = c.tallies n i := by
  rw [Bool.eq_iff_iff]
  simp only [Tables.tallies, hn, List.any_map, List.any_eq_true, Function.comp_apply,
    Bool.and_eq_true, beq_iff_eq]
  refine exists_congr fun m => and_congr_right fun hm => ?_
  obtain ⟨hid, ht, hp⟩ := hg m hm
  have hs : (g m).inSubtree n.path = m.inSubtree n.path := by simp only [NodeRow.inSubtree, hp]
  rw [hid, ht, hs]
  by_cases hown : m.id = i.node
  · rw [hl m hm hown]
  · simp [hown]

/-- Stamping nodes in a way that keeps ids, tenants, paths and liveness moves no tally. -/
theorem Tables.tally_updateWhere {p : NodeRow → Bool} {f : NodeRow → NodeRow}
    (hn : c'.nodes = updateWhere p f c.nodes) (hi : c'.items = c.items)
    (hf : ∀ m, (f m).id = m.id ∧ (f m).tenant = m.tenant ∧ (f m).path = m.path ∧
      (f m).isLive = m.isLive) : c'.tally n = c.tally n := by
  have hsame : c'.tallies n = c.tallies n := by
    funext i
    refine Tables.tallies_map hn (fun m _ => ?_) (fun m _ _ => ?_)
    · by_cases hp : p m <;> simp [hp, hf m]
    · by_cases hp : p m <;> simp [hp, hf m]
  simp only [Tables.tally, hsame, hi]

/-- A stamp that keeps aggregates too keeps every agreement. -/
theorem Tables.AgreesOff.of_stamp {p : NodeRow → Bool} {f : NodeRow → NodeRow}
    (h : c.AgreesOff D) (hn : c'.nodes = updateWhere p f c.nodes) (hi : c'.items = c.items)
    (hf : ∀ m, (f m).id = m.id ∧ (f m).tenant = m.tenant ∧ (f m).path = m.path ∧
      (f m).isLive = m.isLive) (hagg : ∀ m, (f m).aggregate = m.aggregate) : c'.AgreesOff D := by
  intro n' hn' hd
  rw [hn, updateWhere, List.mem_map] at hn'
  obtain ⟨m, hm, rfl⟩ := hn'
  have hkeep : (if p m then f m else m).aggregate = m.aggregate ∧
      (if p m then f m else m).id = m.id ∧ (if p m then f m else m).tenant = m.tenant ∧
      (if p m then f m else m).path = m.path := by
    by_cases hp : p m <;> simp [hp, hf m, hagg m]
  obtain ⟨hagg', hid, ht, hpath⟩ := hkeep
  rw [Tables.Agrees, hagg', Tables.tally_congr ht hpath, Tables.tally_updateWhere hn hi hf]
  exact h m hm (hid ▸ hd)

/-- Setting the aggregate of the node `id` to its tally makes it agree; nothing else moves. -/
theorem Tables.AgreesOff.of_setAggregate (hw : c.Wf) {t : TenantId} {id : NodeId}
    {f : NodeRow → NodeRow} (h : c.AgreesOff D)
    (hn : c'.nodes = updateWhere (·.isNode t id) f c.nodes) (hi : c'.items = c.items)
    (hf : ∀ m, (f m).id = m.id ∧ (f m).tenant = m.tenant ∧ (f m).path = m.path ∧
      (f m).isLive = m.isLive) {o : NodeRow} (ho : o ∈ c.nodes) (hot : o.isNode t id)
    (hagg : (f o).aggregate = (c.tally o).wrap) : c'.AgreesOff fun x => D x ∧ x ≠ id := by
  intro n' hn' hd
  rw [hn, updateWhere, List.mem_map] at hn'
  obtain ⟨m, hm, rfl⟩ := hn'
  simp only [NodeRow.isNode, Bool.and_eq_true, beq_iff_eq] at hot
  by_cases hp : m.isNode t id
  · simp only [NodeRow.isNode, Bool.and_eq_true, beq_iff_eq] at hp
    obtain rfl : m = o := hw.node_eq_of_id hm ho (hp.2.trans hot.2.symm)
    simp only [NodeRow.isNode, hp, beq_self_eq_true, Bool.and_self, if_true]
    rw [Tables.Agrees, hagg, Tables.tally_congr (hf m).2.1 (hf m).2.2.1,
      Tables.tally_updateWhere hn hi hf]
  · simp only [hp, Bool.false_eq_true, if_false] at hd ⊢
    rw [Tables.Agrees, Tables.tally_updateWhere hn hi hf]
    refine h m hm fun hD => hd ⟨hD, fun hid => hp ?_⟩
    obtain rfl : m = o := hw.node_eq_of_id hm ho (hid.trans hot.2.symm)
    simp [NodeRow.isNode, hot.1, hot.2]

end Basics

/-! ## Node writes -/

section NodeWrites

variable {c c' : Tables} {D : NodeId → Prop} {i : NodeInput} {row : NodeRow}

/-- A node write moves no tally: a rewritten row keeps its place, and a new one holds
nothing yet. -/
theorem upsertNode_tally (hw : c.Wf) (h : upsertNode i c = .ok (row, c')) (n : NodeRow) :
    c'.tally n = c.tally n := by
  obtain ⟨parent, hpf, ⟨old, hfind, rfl, hc'⟩ | ⟨hfind, -, rfl, hc'⟩⟩ := upsertNode_ok h
  · have hold := List.mem_of_find?_eq_some hfind
    have hk := List.find?_some hfind
    have href := NodeRow.rewritten_refines hw hold (NodeRow.hasKey_iff.1 hk) hpf
    have hnodes : c'.nodes = c.nodes.map fun x =>
        if x.id = old.id then old.rewritten i parent else x := by
      rw [hc']
      exact replaceWhere_eq_map (·.id) old.id _ c.nodes hw.nodeIds
    refine Tables.tally_eq_of_tallies (by rw [hc']) fun it hit => ?_
    refine Tables.tallies_map hnodes (fun m hm => ?_) (fun m hm hown => ?_)
    · by_cases he : m.id = old.id
      · obtain rfl := hw.node_eq_of_id hm hold he
        simp only [if_true]
        exact ⟨href.id, congrArg (·.1) href.key, href.path⟩
      · simp [he]
    · -- the node an item hangs off is live, and so is its rewritten row
      by_cases he : m.id = old.id
      · obtain ⟨o, ho, hh⟩ := hw.itemsHang it hit
        obtain rfl := hw.node_eq_of_id hm ho (hown.trans hh.node)
        simpa [he, NodeRow.isLive, NodeRow.rewritten] using hh.live
      · simp [he]
  · refine Tables.tally_eq_of_tallies (by rw [hc']) fun it hit => ?_
    obtain ⟨o, ho, hh⟩ := hw.itemsHang it hit
    have hfresh : (NodeRow.fresh i (Uuid.ofSerial c.serial) parent).id ≠ it.node :=
      fun he => hw.fresh_node_id ho (hh.node.symm.trans he.symm)
    simp [hc', Tables.tallies, List.any_append, hfresh]

/-- A node write keeps every agreement. -/
theorem upsertNode_agreesOff (hw : c.Wf) (h : upsertNode i c = .ok (row, c'))
    (hD : c.AgreesOff D) : c'.AgreesOff D := by
  have hw' := upsertNode_wf hw h
  have htally := upsertNode_tally hw h
  obtain ⟨parent, hpf, ⟨old, hfind, rfl, rfl⟩ | ⟨hfind, -, rfl, rfl⟩⟩ := upsertNode_ok h
  · have hold := List.mem_of_find?_eq_some hfind
    have hk := List.find?_some hfind
    have href := NodeRow.rewritten_refines hw hold (NodeRow.hasKey_iff.1 hk) hpf
    intro n' hn' hd
    rw [replaceWhere_eq_map (·.id) old.id _ c.nodes hw.nodeIds, List.mem_map] at hn'
    obtain ⟨m, hm, rfl⟩ := hn'
    by_cases he : m.id = old.id
    · -- the rewritten row keeps the aggregate and the place of the old one
      obtain rfl := hw.node_eq_of_id hm hold he
      simp only [if_true] at hd ⊢
      rw [Tables.Agrees, Tables.tally_congr (congrArg (·.1) href.key) href.path, htally]
      exact hD m hm (href.id ▸ hd)
    · simp only [he, if_false] at hd ⊢
      rw [Tables.Agrees, htally]
      exact hD m hm hd
  · intro n' hn' hd
    rcases List.mem_append.1 hn' with hm | hm
    · rw [Tables.Agrees, htally]
      exact hD n' hm hd
    · -- the new row records nothing and tallies nothing
      rw [List.mem_singleton] at hm
      subst hm
      rw [Tables.Agrees, hw'.tally_eq_zero hn' ⟨fun m hm hpar => ?_, fun it hit hown => ?_⟩,
        Aggregate.wrap_zero]
      · rfl
      · -- no old node sits below the new id, and the new row sits below an old one
        rcases List.mem_append.1 hm with hm | hm
        · rcases hw.placed m hm with hr | ⟨q, hq, hb⟩
          · simp [hr.parent] at hpar
          · exact hw.fresh_node_id hq (Option.some.inj (hb.parent.symm.trans hpar))
        · rw [List.mem_singleton] at hm
          subst hm
          rcases NodeRow.fresh_placed (Uuid.ofSerial c.serial) hpf with hr | ⟨q, hq, hb⟩
          · simp [hr.parent] at hpar
          · exact hw.fresh_node_id hq (Option.some.inj (hb.parent.symm.trans hpar))
      · obtain ⟨o, ho, hh⟩ := hw.itemsHang it hit
        exact hw.fresh_node_id ho (hh.node.symm.trans hown)

end NodeWrites

/-! ## Item writes and removals -/

section Items

variable {c c' : Tables} {D : NodeId → Prop} {n o : NodeRow}

/-- Changing only the items of `o`, with the nodes kept, moves only the tallies of the nodes
whose subtree holds `o`. -/
theorem Tables.Wf.tally_of_items_off (hw : c.Wf) (ho : o ∈ c.nodes) (hnodes : c'.nodes = c.nodes)
    (hoff : c'.items.filter (·.node != o.id) = c.items.filter (·.node != o.id))
    (hno : ¬(o.tenant = n.tenant ∧ o.inSubtree n.path)) : c'.tally n = c.tally n := by
  -- an item of `o` is tallied by no such node
  have hskip : ∀ it : ItemRow, c.tallies n it → it.node ≠ o.id := by
    intro it ht hit
    simp only [Tables.tallies, List.any_eq_true, Bool.and_eq_true, beq_iff_eq] at ht
    obtain ⟨m, hm, ⟨⟨hid, hmt⟩, hs⟩, -⟩ := ht
    obtain rfl := hw.node_eq_of_id hm ho (hid.trans hit)
    exact hno ⟨hmt, hs⟩
  have hsame : c'.tallies n = c.tallies n := by
    unfold Tables.tallies
    rw [hnodes]
  have hfilter : ∀ l : List ItemRow,
      l.filter (c.tallies n) = (l.filter (·.node != o.id)).filter (c.tallies n) := by
    intro l
    rw [List.filter_filter]
    refine List.filter_congr fun it _ => ?_
    by_cases ht : c.tallies n it
    · simp [ht, hskip it ht]
    · simp [ht]
  rw [Tables.tally, Tables.tally, hsame, hfilter c'.items, hoff, ← hfilter c.items]

/-- Changing only the items of `o` keeps the agreement of every node not above `o`. -/
theorem Tables.Wf.agreesOff_of_items_off (hw : c.Wf) (ho : o ∈ c.nodes) (hnodes : c'.nodes = c.nodes)
    (hoff : c'.items.filter (·.node != o.id) = c.items.filter (·.node != o.id))
    (hD : c.AgreesOff D) : c'.AgreesOff fun x => D x ∨ c.Above o x := by
  intro n hn hd
  rw [hnodes] at hn
  have hno : ¬(o.tenant = n.tenant ∧ o.inSubtree n.path) := fun h => hd (.inr ⟨n, hn, rfl, h⟩)
  rw [Tables.Agrees, hw.tally_of_items_off ho hnodes hoff hno]
  exact hD n hn fun h => hd (.inl h)

/-- An item write changes only the items of the node it names, which is live. -/
theorem upsertItem_items_off (hw : c.Wf) {i : ItemInput} {row : ItemRow}
    (h : upsertItem i c = .ok (row, c')) :
    ∃ node, c.nodeById? i.tenant i.node = some node ∧ c'.nodes = c.nodes ∧
      c'.items.filter (·.node != node.id) = c.items.filter (·.node != node.id) := by
  obtain ⟨node, hnode, ⟨old, hfind, rfl, rfl⟩ | ⟨hfind, rfl, rfl⟩⟩ := upsertItem_ok h
  · refine ⟨node, hnode, rfl, ?_⟩
    have hold := List.mem_of_find?_eq_some hfind
    have hk := List.find?_some hfind
    obtain ⟨-, hon, -, -⟩ := ItemRow.hasKey_iff.1 hk
    -- the replaced row and its replacement both hang off `node`
    have hgone : ∀ x ∈ c.items, x.id = old.id → x.node = node.id := by
      intro x hx he
      obtain rfl := hw.item_eq_of_id hx hold he
      exact hon
    simp only [replaceWhere_eq_map (·.id) old.id _ c.items hw.itemIds]
    rw [List.filter_map]
    have hfix : ∀ x ∈ c.items, ((·.node != node.id) ∘ fun x : ItemRow =>
        if x.id = old.id then old.rewritten i node else x) x = (x.node != node.id) := by
      intro x hx
      by_cases he : x.id = old.id
      · simp [he, hgone x hx he, ItemRow.rewritten, hon]
      · simp [he]
    have hmap : ∀ x ∈ c.items.filter (·.node != node.id),
        (if x.id = old.id then old.rewritten i node else x) = x := by
      intro x hx
      have hx' := List.mem_filter.1 hx
      have : x.id ≠ old.id := fun he => by simp [hgone x hx'.1 he] at hx'
      simp [this]
    rw [List.filter_congr hfix, List.map_congr_left hmap, List.map_id']
  · refine ⟨node, hnode, rfl, ?_⟩
    simp [List.filter_append, ItemRow.fresh]

/-- An item write keeps the agreement of every node not above the item's node. -/
theorem upsertItem_agreesOff (hw : c.Wf) {i : ItemInput} {row : ItemRow}
    (h : upsertItem i c = .ok (row, c')) (hD : c.AgreesOff D) :
    ∃ node, c.nodeById? i.tenant i.node = some node ∧
      c'.AgreesOff fun x => D x ∨ c.Above node x := by
  obtain ⟨node, hnode, hnodes, hoff⟩ := upsertItem_items_off hw h
  exact ⟨node, hnode, hw.agreesOff_of_items_off (Tables.nodeById?_some hnode).1 hnodes hoff hD⟩

/-- Removing an item by key keeps the agreement of every node not above the node it names. -/
theorem deleteItem_agreesOff (hw : c.Wf) {t : TenantId} {k : ItemKind} {name : String}
    {r : Bool} (ho : o ∈ c.nodes) (h : deleteItem t o.id k name c = .ok (r, c'))
    (hD : c.AgreesOff D) : c'.AgreesOff fun x => D x ∨ c.Above o x := by
  obtain ⟨-, rfl⟩ := deleteItem_ok h
  refine hw.agreesOff_of_items_off ho rfl ?_ hD
  rw [List.filter_filter]
  refine List.filter_congr fun x _ => ?_
  by_cases hx : x.node = o.id
  · simp [hx]
  · simp [hx, ItemRow.hasKey]

/-- Removing by key an item that is not there changes nothing. -/
theorem deleteItem_eq_of_none {t : TenantId} {node : NodeId} {k : ItemKind} {name : String}
    (h : deleteItem t node k name c = .ok (false, c')) : c' = c := by
  obtain ⟨hnone, rfl⟩ := deleteItem_ok h
  simp only [Bool.false_eq, Bool.not_eq_false', List.isEmpty_iff, List.filter_eq_nil_iff] at hnone
  have : c.items.filter (fun i => !i.hasKey t node k name) = c.items :=
    List.filter_eq_self.2 fun x hx => by simpa using hnone x hx
  rw [this]

/-- Whether a node tallies an item is whether its subtree holds the item's node. -/
theorem Tables.Wf.tallies_iff (hw : c.Wf) (ho : o ∈ c.nodes) (hl : o.isLive) {it : ItemRow}
    (hown : it.node = o.id) : c.tallies n it ↔ o.tenant = n.tenant ∧ o.inSubtree n.path := by
  simp only [Tables.tallies, List.any_eq_true, Bool.and_eq_true, beq_iff_eq]
  constructor
  · rintro ⟨m, hm, ⟨⟨hid, ht⟩, hs⟩, -⟩
    obtain rfl := hw.node_eq_of_id hm ho (hid.trans hown)
    exact ⟨ht, hs⟩
  · rintro ⟨ht, hs⟩
    exact ⟨o, ho, ⟨⟨hown.symm, ht⟩, hs⟩, hl⟩

/-- Appending an item adds it to the tally of every node that tallies it. -/
theorem Tables.tally_append_item {it : ItemRow} (hn : c'.nodes = c.nodes)
    (hi : c'.items = c.items ++ [it]) (n : NodeRow) :
    c'.tally n = if c.tallies n it then
      ⟨(c.tally n).itemCount + 1, (c.tally n).totalSize + it.sizeBytes⟩ else c.tally n := by
  have hsame : c'.tallies n = c.tallies n := by
    unfold Tables.tallies
    rw [hn]
  by_cases ht : c.tallies n it
  · simp [Tables.tally, hsame, hi, ht, List.filter_append]
  · simp [Tables.tally, hsame, hi, ht, List.filter_append]

/-- An item write of a new key appends the item below its live node. -/
theorem upsertItem_fresh {i : ItemInput} {row : ItemRow} {node : NodeRow}
    (h : upsertItem i c = .ok (row, c')) (hnode : c.nodeById? i.tenant i.node = some node)
    (hnew : ∀ x ∈ c.items, x.hasKey i.tenant node.id i.kind i.name = false) :
    c'.nodes = c.nodes ∧ c'.items = c.items ++ [row] ∧ row.node = node.id ∧ row.name = i.name ∧
      row.sizeBytes = i.sizeBytes := by
  obtain ⟨node', hnode', ⟨old, hfind, -, -⟩ | ⟨-, rfl, rfl⟩⟩ := upsertItem_ok h
  · obtain rfl : node' = node := Option.some.inj (hnode'.symm.trans hnode)
    have := hnew old (List.mem_of_find?_eq_some hfind)
    simp [List.find?_some hfind] at this
  · obtain rfl : node' = node := Option.some.inj (hnode'.symm.trans hnode)
    exact ⟨rfl, rfl, rfl, rfl, rfl⟩

end Items

/-! ## Clearing and retiring -/

section Clearing

variable {c c' : Tables} {D : NodeId → Prop} {n t : NodeRow}

/-- Clearing below `t` keeps the tally of every remaining node whose subtree does not hold
`t`. -/
theorem Tables.Wf.tally_clearedBelow (hw : c.Wf) (ht : t ∈ c.nodes)
    (hn : n ∈ (c.clearedBelow t).nodes) (hnt : ¬(t.tenant = n.tenant ∧ t.inSubtree n.path)) :
    (c.clearedBelow t).tally n = c.tally n := by
  have hnc : n ∈ c.nodes := (List.mem_filter.1 hn).1
  have hnkeep := (List.mem_filter.1 hn).2
  rw [NodeRow.keptBelow_iff] at hnkeep
  -- no member of both subtrees: the two nodes would be nested, and either way `t` lies below `n`
  have hout : ∀ m : NodeRow, m.tenant = n.tenant → m.inSubtree n.path → ¬(m.tenant = t.tenant ∧ m.inSubtree t.path) := by
    rintro m hmn hs ⟨hmt, hst⟩
    rcases NodeRow.nested_of_within hst hs with htn | hnt'
    · exact hnt ⟨hmt.symm.trans hmn, htn⟩
    · obtain rfl := hw.node_eq_of_id hnc ht (hnkeep (hmn.symm.trans hmt) hnt')
      exact hnt ⟨rfl, NodeRow.inSubtree_self _⟩
  have hsame : ∀ it ∈ c.items, ((c.clearedBelow t).tallies n it &&
      !(it.tenant == t.tenant && (c.subtreeIds t.tenant t.path).contains it.node)) =
      c.tallies n it := by
    intro it _
    rw [Bool.eq_iff_iff]
    simp only [Tables.tallies, Tables.clearedBelow, List.any_filter, Bool.and_eq_true,
      List.any_eq_true, beq_iff_eq]
    constructor
    · rintro ⟨⟨m, hm, -, hP⟩, -⟩
      exact ⟨m, hm, hP⟩
    · rintro ⟨m, hm, ⟨⟨hid, hmn⟩, hs⟩, hl⟩
      have hm' := hout m hmn hs
      refine ⟨⟨m, hm, ?_, ⟨⟨hid, hmn⟩, hs⟩, hl⟩, ?_⟩
      · rw [NodeRow.keptBelow_iff]
        exact fun h1 h2 => absurd ⟨h1, h2⟩ hm'
      · rw [ItemRow.keptOf_iff]
        intro _
        rw [Tables.mem_subtreeIds]
        rintro ⟨m₂, hm₂, hm₂t, hm₂s, hm₂id⟩
        obtain rfl := hw.node_eq_of_id hm₂ hm (hm₂id.trans hid.symm)
        exact hm' ⟨hm₂t, hm₂s⟩
  have hfilter : (c.clearedBelow t).items.filter ((c.clearedBelow t).tallies n) =
      c.items.filter (c.tallies n) := by
    simp only [Tables.clearedBelow, List.filter_filter]
    exact List.filter_congr hsame
  rw [Tables.tally, Tables.tally, hfilter]

/-- Clearing below `t` keeps the agreement of every node not above `t`. -/
theorem Tables.Wf.agreesOff_clearedBelow (hw : c.Wf) (ht : t ∈ c.nodes) (hD : c.AgreesOff D) :
    (c.clearedBelow t).AgreesOff fun x => D x ∨ c.Above t x := by
  intro n hn hd
  have hnc : n ∈ c.nodes := (List.mem_filter.1 hn).1
  have hnt : ¬(t.tenant = n.tenant ∧ t.inSubtree n.path) := fun h => hd (.inr ⟨n, hnc, rfl, h⟩)
  rw [Tables.Agrees, hw.tally_clearedBelow ht hn hnt]
  exact hD n hnc fun h => hd (.inl h)

/-- After clearing below `t`, `t` tallies nothing. -/
theorem Tables.Wf.tally_clearedBelow_self (hw : c.Wf) (ht : t ∈ c.nodes) :
    (c.clearedBelow t).tally t = ⟨0, 0⟩ := by
  have hkept : t ∈ (c.clearedBelow t).nodes := by
    simpa [Tables.clearedBelow, NodeRow.keptBelow_iff] using ht
  exact (hw.clearedBelow ht).tally_eq_zero hkept (hw.clearedBelow_childless ht)

/-- Clearing a subtree keeps the agreement of every node not above its root, and the root
tallies nothing. -/
theorem clearSubtree_agreesOff (hw : c.Wf) {tn : TenantId} {id : NodeId} {r : Nat × Nat}
    (h : clearSubtree tn id c = .ok (r, c')) (hD : c.AgreesOff D) :
    ∃ node, c.nodeById? tn id = some node ∧ c'.AgreesOff (fun x => D x ∨ c.Above node x) ∧
      c'.tally node = ⟨0, 0⟩ := by
  obtain ⟨node, hnode, rfl⟩ := clearSubtree_ok h
  have hnm := (Tables.nodeById?_some hnode).1
  exact ⟨node, hnode, hw.agreesOff_clearedBelow hnm hD, hw.tally_clearedBelow_self hnm⟩

/-- Retiring a node keeps the agreement of every node not above it, and the retired row
records the nothing it tallies. -/
theorem retireNode_agreesOff (hw : c.Wf) {tn : TenantId} {id : NodeId}
    (h : retireNode tn id c = .ok ((), c')) (hD : c.AgreesOff D) :
    ∃ node, c.nodeById? tn id = some node ∧
      c'.AgreesOff fun x => (D x ∨ c.Above node x) ∧ x ≠ node.id := by
  obtain ⟨node, hnode, hc'⟩ := retireNode_ok h
  obtain ⟨hnm, hnt, hnid, -⟩ := Tables.nodeById?_some hnode
  refine ⟨node, hnode, ?_⟩
  have hw₁ := hw.clearedBelow hnm
  have hkept : node ∈ (c.clearedBelow node).nodes := by
    simpa [Tables.clearedBelow, NodeRow.keptBelow_iff] using hnm
  have hempty := hw.clearedBelow_childless hnm
  have hD₁ := hw.agreesOff_clearedBelow hnm hD
  have hnodes : c'.nodes = updateWhere (·.isNode tn id)
      (·.retired (Time.Instant.ofMillis (c.clearedBelow node).clock)) (c.clearedBelow node).nodes := by
    rw [hc']
  -- the retired row is the only one that changes, and nothing hangs off it
  have htally : ∀ m, c'.tally m = (c.clearedBelow node).tally m := by
    intro m
    refine Tables.tally_eq_of_tallies (by rw [hc']) fun it hit => ?_
    refine Tables.tallies_map hnodes (fun x _ => ?_) (fun x _ hown => ?_)
    · by_cases hq : x.isNode tn id <;> simp [hq, NodeRow.retired]
    · by_cases hq : x.isNode tn id
      · simp only [NodeRow.isNode, Bool.and_eq_true, beq_iff_eq] at hq
        exact absurd (hown.symm.trans (hq.2.trans hnid.symm)) (hempty.2 it hit)
      · simp [hq]
  intro n' hn' hd
  rw [hnodes, updateWhere, List.mem_map] at hn'
  obtain ⟨m, hm, rfl⟩ := hn'
  by_cases hq : m.isNode tn id
  · have hq' := hq
    simp only [NodeRow.isNode, Bool.and_eq_true, beq_iff_eq] at hq'
    obtain rfl : m = node := hw₁.node_eq_of_id hm hkept (hq'.2.trans hnid.symm)
    simp only [hq, if_true]
    have hret : (c.clearedBelow m).tally (m.retired (Time.Instant.ofMillis (c.clearedBelow m).clock)) =
        (c.clearedBelow m).tally m := Tables.tally_congr rfl rfl
    rw [Tables.Agrees, htally, hret, hw₁.tally_eq_zero hkept hempty, Aggregate.wrap_zero]
    rfl
  · simp only [hq, Bool.false_eq_true, if_false] at hd ⊢
    rw [Tables.Agrees, htally]
    refine hD₁ m hm fun hD' => hd ⟨hD', fun he => hq ?_⟩
    obtain rfl : m = node := hw₁.node_eq_of_id hm hkept he
    simp [NodeRow.isNode, hnt, hnid]

end Clearing

/-! ## Nodes kept in place -/

/-- The catalog still holds `n` in its place: a live row with its id, key and path. -/
def Tables.Places (c : Tables) (n : NodeRow) : Prop := ∃ r ∈ c.nodes, r.Refines n ∧ r.isLive

theorem NodeRow.Refines.trans {a b d : NodeRow} (h : a.Refines b) (h' : b.Refines d) :
    a.Refines d :=
  ⟨h.id.trans h'.id, h.key.trans h'.key, h.depth.trans h'.depth, h.path.trans h'.path,
    h.fullName.trans h'.fullName⟩

theorem NodeRow.Refines.tenant {a b : NodeRow} (h : a.Refines b) : a.tenant = b.tenant :=
  (NodeRow.naturalKey_eq.1 h.key).1

theorem NodeRow.Refines.parent {a b : NodeRow} (h : a.Refines b) : a.parent = b.parent :=
  (NodeRow.naturalKey_eq.1 h.key).2.2.1

section Places

variable {c c' : Tables} {n : NodeRow}

theorem Tables.Places.of_mem (hn : n ∈ c.nodes) (hl : n.isLive) : c.Places n :=
  ⟨n, hn, .refl n, hl⟩

theorem Tables.Places.of_nodes (h : c.Places n) (hn : c'.nodes = c.nodes) : c'.Places n := by
  unfold Tables.Places
  rw [hn]
  exact h

/-- The live row of a placed node's id is the one in its place. -/
theorem Tables.Wf.nodeById?_of_places (hw : c.Wf) (h : c.Places n) :
    ∃ r, c.nodeById? n.tenant n.id = some r ∧ r.Refines n := by
  obtain ⟨r, hr, href, hl⟩ := h
  cases hf : c.nodeById? n.tenant n.id with
  | none =>
    refine absurd (List.find?_eq_none.1 hf r hr) ?_
    simp [NodeRow.isNode, href.tenant, href.id, hl]
  | some r' =>
    obtain ⟨hr', -, hid, -⟩ := Tables.nodeById?_some hf
    obtain rfl := hw.node_eq_of_id hr' hr (hid.trans href.id.symm)
    exact ⟨r', rfl, href⟩

/-- Stamping rows in a way that keeps their place and liveness keeps every placed node. -/
theorem Tables.Places.of_update {p : NodeRow → Bool} {f : NodeRow → NodeRow} (h : c.Places n)
    (hn : c'.nodes = updateWhere p f c.nodes) (hf : ∀ m, (f m).Refines m)
    (hl : ∀ m, (f m).isLive = m.isLive) : c'.Places n := by
  obtain ⟨r, hr, href, hlive⟩ := h
  refine ⟨if p r then f r else r, ?_, ?_, ?_⟩
  · rw [hn, updateWhere]
    exact List.mem_map_of_mem hr
  · by_cases hp : p r
    · simpa [hp] using (hf r).trans href
    · simpa [hp] using href
  · by_cases hp : p r <;> simp [hp, hl, hlive]

/-- A node write keeps every placed node, and places its own row. -/
theorem upsertNode_places (hw : c.Wf) {i : NodeInput} {row : NodeRow}
    (h : upsertNode i c = .ok (row, c')) (hn : c.Places n) : c'.Places n := by
  obtain ⟨parent, hpf, ⟨old, hfind, rfl, rfl⟩ | ⟨-, -, rfl, rfl⟩⟩ := upsertNode_ok h
  · have hold := List.mem_of_find?_eq_some hfind
    have hk := List.find?_some hfind
    have href := NodeRow.rewritten_refines hw hold (NodeRow.hasKey_iff.1 hk) hpf
    obtain ⟨r, hr, hrn, hl⟩ := hn
    refine ⟨if r.id = old.id then old.rewritten i parent else r, ?_, ?_, ?_⟩
    · rw [replaceWhere_eq_map (·.id) old.id _ c.nodes hw.nodeIds]
      exact List.mem_map_of_mem hr
    · by_cases he : r.id = old.id
      · obtain rfl := hw.node_eq_of_id hr hold he
        simpa using href.trans hrn
      · simpa [he] using hrn
    · by_cases he : r.id = old.id
      · simp [he, NodeRow.isLive, NodeRow.rewritten]
      · simpa [he] using hl
  · obtain ⟨r, hr, hrn, hl⟩ := hn
    exact ⟨r, List.mem_append_left _ hr, hrn, hl⟩

theorem upsertNode_places_row (hw : c.Wf) {i : NodeInput} {row : NodeRow}
    (h : upsertNode i c = .ok (row, c')) :
    c'.Places row ∧ row.naturalKey = (i.tenant, i.resource, i.parent, i.kind, i.name) := by
  obtain ⟨parent, hpf, ⟨old, hfind, rfl, rfl⟩ | ⟨-, -, rfl, rfl⟩⟩ := upsertNode_ok h
  · have hold := List.mem_of_find?_eq_some hfind
    have hk₀ := List.find?_some hfind
    have hk := NodeRow.hasKey_iff.1 hk₀
    have href := NodeRow.rewritten_refines hw hold hk hpf
    refine ⟨Tables.Places.of_mem ?_ (by simp [NodeRow.isLive, NodeRow.rewritten]), href.key.trans hk⟩
    rw [replaceWhere_eq_map (·.id) old.id _ c.nodes hw.nodeIds]
    exact List.mem_map.2 ⟨old, hold, by simp⟩
  · exact ⟨Tables.Places.of_mem (by simp) (by simp [NodeRow.isLive, NodeRow.fresh]), rfl⟩

/-- Clearing below `t` keeps every placed node outside the cut. -/
theorem Tables.Places.clearedBelow {t : NodeRow} (h : c.Places n)
    (hout : n.tenant = t.tenant → n.inSubtree t.path → n.id = t.id) :
    (c.clearedBelow t).Places n := by
  obtain ⟨r, hr, href, hl⟩ := h
  refine ⟨r, List.mem_filter.2 ⟨hr, NodeRow.keptBelow_iff.2 fun ht hs => ?_⟩, href, hl⟩
  have hs' : n.inSubtree t.path := by simpa [NodeRow.inSubtree, href.path] using hs
  rw [href.id]
  exact hout (href.tenant ▸ ht) hs'

end Places

/-! ## Recomputing an aggregate -/

/-- Setting a node's aggregate to what `sumChildren` yields, when none of its live children is
dirty, makes it agree. -/
theorem Tables.Wf.recompute {c c' : Tables} {D : NodeId → Prop} {n : NodeRow} {a : Aggregate}
    (hw : c.Wf) (hD : c.AgreesOff D) (hn : n ∈ c.nodes)
    (hkids : ∀ ch ∈ c.liveChildren n, ¬D ch.id) (hsum : c.sumChildren n.tenant n.id = .ok a)
    (hset : setNodeAggregate n.tenant n.id a c = .ok ((), c')) :
    c'.Wf ∧ c'.AgreesOff fun x => D x ∧ x ≠ n.id := by
  refine ⟨setNodeAggregate_wf hw hset, ?_⟩
  obtain rfl := setNodeAggregate_ok hset
  have hagree : a = (c.tally n).wrap := hw.sumChildren_eq hn
    (fun ch hch => hD ch (List.mem_filter.1 hch).1 (hkids ch hch)) hsum
  exact hD.of_setAggregate hw rfl rfl (fun _ => ⟨rfl, rfl, rfl, rfl⟩) hn
    (by simp [NodeRow.isNode]) hagree

end DataCatalog.Catalog
