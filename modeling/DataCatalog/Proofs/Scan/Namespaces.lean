import DataCatalog.Proofs.Scan.Ensures
import DataCatalog.Proofs.Catalog.Drift
import DataCatalog.Scan.Pass
/-!
# Namespace passes keep aggregates consistent

A relational namespace is a root. Refreshing one table of it deletes and writes items of the
root only, then sets the root's aggregate from its children; a schema pass clears the root,
records each table afresh while adding up what it recorded, and finishes the root with that
sum; retiring a vanished root clears and zeroes it. In each case only the root's own agreement
is at stake in between, and the last write restores it.

The schema pass adds up what it records, so it agrees with the catalog only when no two
tables of the schema share a name: a second table of one name replaces the first row but is
counted again.
-/

namespace DataCatalog.Source

/-- No schema of the source holds two tables of one name. -/
def RelationalSource.TablesDistinct (s : RelationalSource) : Prop :=
  ∀ sc ∈ s.schemas, (sc.tables.map (·.name)).Nodup

theorem scanTables_run (s : RelationalSource) (schema : String) :
    ((ExceptT.run (scanTables schema)).run s).1 = match s.failure? ("tables:" ++ schema) with
      | some e => .error e
      | none => match s.schema? schema with
        | some sc => .ok (sc.tables.map TableSpec.summary)
        | none => .error (.enumeration schema "schema does not exist") := by
  cases hf : s.failure? ("tables:" ++ schema) <;> cases hs : s.schema? schema <;>
  · simp only [scanTables, RelationalSource.failure?, RelationalSource.schema?] at hf hs ⊢
    simp [hf, hs, ExceptT.run, bind, ExceptT.bind, ExceptT.mk, StateT.bind, modify, modifyGet,
      MonadStateOf.modifyGet, StateT.modifyGet, get, getThe, MonadStateOf.get, StateT.get,
      monadLift, MonadLift.monadLift, ExceptT.lift, ExceptT.bindCont, liftM, StateT.run, pure,
      StateT.pure, throw, throwThe, MonadExceptOf.throw, ExceptT.pure, Functor.map, StateT.map]

/-- The tables a source lists for a schema have distinct names. -/
theorem RelationalSource.TablesDistinct.scanTables {s : RelationalSource} (hs : s.TablesDistinct)
    {schema : String} {tables : List TableSummary}
    (h : ((ExceptT.run (Source.scanTables schema)).run s).1 = .ok tables) :
    (tables.map (·.name)).Nodup := by
  rw [scanTables_run] at h
  cases hf : s.failure? ("tables:" ++ schema) with
  | some e => simp [hf] at h
  | none =>
    cases hsc : s.schema? schema with
    | none => simp [hf, hsc] at h
    | some sc =>
      simp only [hf, hsc, Except.ok.injEq] at h
      subst h
      have hnames : (sc.tables.map TableSpec.summary).map (·.name) = sc.tables.map (·.name) := by
        simp [Function.comp_def, TableSpec.summary]
      rw [hnames]
      exact hs sc (List.mem_of_find?_eq_some hsc)

end DataCatalog.Source

namespace DataCatalog.Catalog

open DataCatalog.Ident

theorem Tables.getNode_some {c : Tables} {t : TenantId} {r : ResourceId} {p : Option NodeId}
    {k : NodeKind} {name : String} {n : NodeRow} (h : c.getNode t r p k name = some n) :
    n ∈ c.nodes ∧ n.naturalKey = (t, r, p, k, name) ∧ n.isLive := by
  have hp := List.find?_some h
  simp only [Bool.and_eq_true] at hp
  exact ⟨List.mem_of_find?_eq_some h, NodeRow.hasKey_iff.1 hp.1, hp.2⟩

theorem Aggregate.wrap_addItem (a : Aggregate) (s : Int) :
    a.wrap.addItem s = (⟨a.itemCount + 1, a.totalSize + s⟩ : Aggregate).wrap := by
  simp [Aggregate.addItem, Aggregate.wrap]

/-- A root whose own aggregate may be stale while every other node agrees. -/
structure Tables.RootDirty (c : Tables) (root : NodeRow) : Prop where
  wf : c.Wf
  places : c.Places root
  isRoot : root.parent = none
  agrees : c.AgreesOff (· = root.id)

section RootDirty

variable {c c' : Tables} {root : NodeRow}

theorem Tables.RootDirty.of_consistent (hw : c.Wf) (hc : c.Consistent) (hp : c.Places root)
    (hr : root.parent = none) : c.RootDirty root :=
  ⟨hw, hp, hr, fun n hn _ => hc n hn⟩

/-- Above a row in the root's place is the root alone. -/
theorem Tables.RootDirty.above (h : c.RootDirty root) {o : NodeRow} (ho : o.Refines root)
    {x : NodeId} (hx : c.Above o x) : x = root.id := by
  obtain ⟨r, hr, href, -⟩ := h.places
  have hx' : c.Above r x := by
    obtain ⟨a, ha, hid, hta, hs⟩ := hx
    refine ⟨a, ha, hid, by rw [href.tenant, ← ho.tenant, hta], ?_⟩
    simpa [NodeRow.inSubtree, href.path, ← ho.path] using hs
  rw [h.wf.above_root hr (href.parent.trans h.isRoot) hx', href.id]

theorem Tables.RootDirty.deleteItem (h : c.RootDirty root) {t : TenantId} {k : ItemKind}
    {name : String} {b : Bool} (hd : Catalog.deleteItem t root.id k name c = .ok (b, c')) :
    c'.RootDirty root := by
  obtain ⟨r, hr, href, -⟩ := h.places
  rw [← href.id] at hd
  have hagree := deleteItem_agreesOff h.wf hr hd h.agrees
  obtain ⟨-, rfl⟩ := deleteItem_ok hd
  exact ⟨h.wf.of_filter_items rfl rfl (Nat.le_refl _), h.places.of_nodes rfl, h.isRoot,
    hagree.mono fun x hx => hx.elim id (h.above href)⟩

theorem Tables.RootDirty.upsertItem (h : c.RootDirty root) {i : ItemInput} {row : ItemRow}
    (hi : i.tenant = root.tenant) (hn : i.node = root.id)
    (hu : Catalog.upsertItem i c = .ok (row, c')) : c'.RootDirty root := by
  obtain ⟨node, hnode, hagree⟩ := upsertItem_agreesOff h.wf hu h.agrees
  obtain ⟨r, hr, href⟩ := h.wf.nodeById?_of_places h.places
  rw [hi, hn, hr, Option.some.injEq] at hnode
  subst hnode
  obtain ⟨-, -, hnodes, -⟩ := upsertItem_items_off h.wf hu
  exact ⟨upsertItem_wf h.wf hu, h.places.of_nodes hnodes, h.isRoot,
    hagree.mono fun x hx => hx.elim id (h.above href)⟩

/-- Writing an item of a new key below the root adds it to the root's tally. -/
theorem Tables.RootDirty.upsertItem_fresh (h : c.RootDirty root) {i : ItemInput} {row : ItemRow}
    (hi : i.tenant = root.tenant) (hn : i.node = root.id)
    (hnew : ∀ x ∈ c.items, x.node = root.id → x.kind = i.kind → x.name ≠ i.name)
    (hu : Catalog.upsertItem i c = .ok (row, c')) :
    c'.items = c.items ++ [row] ∧ row.name = i.name ∧
      c'.tally root = ⟨(c.tally root).itemCount + 1, (c.tally root).totalSize + row.sizeBytes⟩ := by
  obtain ⟨r, hr, href⟩ := h.wf.nodeById?_of_places h.places
  rw [← hi, ← hn] at hr
  have hfresh : ∀ x ∈ c.items, x.hasKey i.tenant r.id i.kind i.name = false := by
    intro x hx
    rw [Bool.eq_false_iff]
    intro hk
    obtain ⟨-, hxn, hxk, hxname⟩ := ItemRow.hasKey_iff.1 hk
    exact hnew x hx (hxn.trans href.id) hxk hxname
  obtain ⟨hnodes, hitems, hrow, hname, -⟩ := Catalog.upsertItem_fresh hu hr hfresh
  obtain ⟨hrm, -, -, hrl⟩ := Tables.nodeById?_some hr
  have htallied : c.tallies root row := by
    rw [h.wf.tallies_iff hrm hrl hrow]
    refine ⟨href.tenant, ?_⟩
    simpa [NodeRow.inSubtree, href.path] using root.inSubtree_self
  exact ⟨hitems, hname, by rw [Tables.tally_append_item hnodes hitems, if_pos htallied]⟩

theorem Tables.RootDirty.beginNodeScan (h : c.RootDirty root)
    (hb : Catalog.beginNodeScan root.tenant root.id c = .ok ((), c')) : c'.RootDirty root := by
  have hw' := beginNodeScan_wf h.wf hb
  obtain ⟨-, rfl⟩ := beginNodeScan_ok hb
  refine ⟨hw', h.places.of_update rfl (fun _ => ⟨rfl, rfl, rfl, rfl, rfl⟩) (fun _ => rfl),
    h.isRoot, h.agrees.of_stamp rfl rfl (fun _ => ⟨rfl, rfl, rfl, rfl⟩) (fun _ => rfl)⟩

/-- Clearing the root leaves it with nothing below it, and nothing of its own. -/
theorem Tables.RootDirty.clear (h : c.RootDirty root) {r : Nat × Nat}
    (hc : clearSubtree root.tenant root.id c = .ok (r, c')) :
    c'.RootDirty root ∧ c'.tally root = ⟨0, 0⟩ ∧ ∀ x ∈ c'.items, x.node ≠ root.id := by
  obtain ⟨node, hnode, hagree, hzero⟩ := clearSubtree_agreesOff h.wf hc h.agrees
  obtain ⟨r', hr', href⟩ := h.wf.nodeById?_of_places h.places
  rw [hr', Option.some.injEq] at hnode
  subst hnode
  obtain ⟨node, hnode', rfl⟩ := clearSubtree_ok hc
  rw [hr', Option.some.injEq] at hnode'
  subst hnode'
  have hrm := (Tables.nodeById?_some hr').1
  refine ⟨⟨h.wf.clearedBelow hrm, h.places.clearedBelow fun _ _ => href.id.symm, h.isRoot,
    hagree.mono fun x hx => hx.elim id (h.above href)⟩, ?_, ?_⟩
  · rw [← hzero]
    exact Tables.tally_congr href.tenant.symm href.path.symm
  · intro x hx hxn
    exact (h.wf.clearedBelow_childless hrm).2 x hx (hxn.trans href.id.symm)

/-- Setting the root's aggregate to what `sumChildren` yields makes the catalog consistent. -/
theorem Tables.RootDirty.recompute (h : c.RootDirty root) {c₁ : Tables} {a : Aggregate}
    (hs : Catalog.sumChildren root.tenant root.id c = .ok (a, c₁))
    (hset : setNodeAggregate root.tenant root.id a c₁ = .ok ((), c')) :
    c'.Wf ∧ c'.Consistent := by
  obtain ⟨hsum, hc₁⟩ := sumChildren_ok hs
  rw [hc₁] at hset
  obtain ⟨r, hr, href, -⟩ := h.places
  rw [← href.tenant, ← href.id] at hsum hset
  have hkids : ∀ ch ∈ c.liveChildren r, ¬ch.id = root.id := by
    intro ch hch hid
    simp only [Tables.liveChildren, List.mem_filter, Bool.and_eq_true, beq_iff_eq] at hch
    obtain rfl := h.wf.node_eq_of_id hch.1 hr (hid.trans href.id.symm)
    have hpar := hch.2.1.2
    rw [href.parent, h.isRoot] at hpar
    cases hpar
  obtain ⟨hw', hagree⟩ := h.wf.recompute h.agrees hr hkids hsum hset
  refine ⟨hw', Tables.consistent_iff_agreesOff.2 (hagree.mono fun x hx => ?_)⟩
  exact hx.2 (hx.1.trans href.id.symm)

/-- Finishing the root with its tally makes the catalog consistent. -/
theorem Tables.RootDirty.finish (h : c.RootDirty root) {a : Aggregate}
    (hagg : a = (c.tally root).wrap)
    (hf : finishNodeScan root.tenant root.id a c = .ok ((), c')) : c'.Wf ∧ c'.Consistent := by
  have hw' := finishNodeScan_wf h.wf hf
  have hc' := finishNodeScan_ok hf
  have hn : c'.nodes = updateWhere (·.isNode root.tenant root.id)
      (·.finished (Time.Instant.ofMillis c.clock) a) c.nodes := by rw [hc']
  obtain ⟨r, hr, href, -⟩ := h.places
  have hot : r.isNode root.tenant root.id := by simp [NodeRow.isNode, href.tenant, href.id]
  have hagree := h.agrees.of_setAggregate h.wf hn (by rw [hc'])
    (fun _ => ⟨rfl, rfl, rfl, rfl⟩) hr hot
    (by rw [Tables.tally_congr href.tenant href.path, ← hagg]; rfl)
  exact ⟨hw', Tables.consistent_iff_agreesOff.2 (hagree.mono fun x hx => hx.2 hx.1)⟩

end RootDirty

/-- Retiring a root of a consistent catalog leaves it consistent. -/
theorem retireNode_root_consistent {c c' : Tables} {t : TenantId} {id : NodeId} (hw : c.Wf)
    (hc : c.Consistent) (hroot : ∀ n, c.nodeById? t id = some n → n.parent = none)
    (h : retireNode t id c = .ok ((), c')) : c'.Wf ∧ c'.Consistent := by
  obtain ⟨node, hnode, hagree⟩ := retireNode_agreesOff hw h (Tables.consistent_iff_agreesOff.1 hc)
  obtain ⟨hnm, -, -, -⟩ := Tables.nodeById?_some hnode
  refine ⟨retireNode_wf hw h, Tables.consistent_iff_agreesOff.2 (hagree.mono fun x hx => ?_)⟩
  obtain ⟨hD | habove, hne⟩ := hx
  · exact hD
  · exact hne (hw.above_root hnm (hroot node hnode) habove)

end DataCatalog.Catalog

namespace DataCatalog.Scan

open DataCatalog.Catalog DataCatalog.Source DataCatalog.Connect

/-- The catalog of the world is well formed and every aggregate agrees with its items. -/
def World.Sound (w : World) : Prop := w.catalog.Wf ∧ w.catalog.Consistent

section Relational

variable {w w' : World} {root : NodeRow}

/-- A node write keeps the catalog sound and every placed node placed, and places the row it
returns under the key it was given. -/
theorem Step.writeNode_sound {i : NodeInput} {row : NodeRow} (hs : w.Sound)
    (h : (writeNode i).runAlone w = (.ok row, w')) :
    w'.Sound ∧ w'.catalog.Places row ∧
      row.naturalKey = (i.tenant, i.resource, i.parent, i.kind, i.name) ∧
      (∀ n, w.catalog.Places n → w'.catalog.Places n) ∧ w'.relational = w.relational := by
  have hu := Step.inCatalogSpan_catalog h
  have hagree := upsertNode_agreesOff hs.1 hu (Tables.consistent_iff_agreesOff.1 hs.2)
  obtain ⟨hplaces, hkey⟩ := upsertNode_places_row hs.1 hu
  exact ⟨⟨upsertNode_wf hs.1 hu, Tables.consistent_iff_agreesOff.2 hagree⟩, hplaces, hkey,
    fun _ hn => upsertNode_places hs.1 hu hn, Step.inCatalogSpan_relational h⟩

theorem Step.deleteItem_rootDirty {t : Ident.TenantId} {k : ItemKind} {name : String} {b : Bool}
    (hd : w.catalog.RootDirty root)
    (h : (inCatalog (deleteItem t root.id k name)).runAlone w = (.ok b, w')) :
    w'.catalog.RootDirty root :=
  hd.deleteItem (Step.inCatalogSpan_catalog h)

/-- Recomputing a root's aggregate from its children, as a table refresh ends, makes the
catalog sound. -/
theorem Step.recomputeRoot_sound {counts c : ScanCounts} (hd : w.catalog.RootDirty root)
    (h : (do
      let agg ← inCatalog (sumChildren root.tenant root.id)
      inCatalog (setNodeAggregate root.tenant root.id agg)
      pure counts : Step ScanCounts).runAlone w = (.ok c, w')) : w'.Sound := by
  obtain ⟨agg, w₁, h₁, h₂⟩ := Step.runAlone_bind_ok h
  obtain ⟨_, w₂, h₃, h₄⟩ := Step.runAlone_bind_ok h₂
  obtain ⟨-, rfl⟩ := Step.pure_ok h₄
  exact hd.recompute (Step.inCatalogSpan_catalog h₁) (Step.inCatalogSpan_catalog h₃)

/-- Refreshing one table of a namespace keeps the catalog sound: the namespace's aggregate is
summed again from what lies below it. -/
theorem reconcileTable_sound (resource : ResourceRow) (kind : ResourceKind)
    (schema table : String) :
    (reconcileTable resource kind schema table).Ensures World.Sound fun _ => World.Sound := by
  intro w counts w' hw h
  unfold reconcileTable at h
  obtain ⟨node?, w₁, h₁, h₂⟩ := Step.runAlone_bind_ok h
  obtain ⟨rfl, hw₁⟩ := Step.readCatalog_ok h₁
  rw [hw₁] at h₂
  cases hnode : w.catalog.getNode resource.tenant resource.id none kind.namespaceKind schema with
  | none =>
    rw [hnode] at h₂
    exact absurd h₂ Step.throw_ok
  | some node =>
    obtain ⟨hmem, hkey, hlive⟩ := Tables.getNode_some hnode
    simp only [NodeRow.naturalKey, Prod.mk.injEq] at hkey
    obtain ⟨ht, -, hpar, -, -⟩ := hkey
    have hd : w.catalog.RootDirty node :=
      .of_consistent hw.1 hw.2 (.of_mem hmem hlive) hpar
    rw [hnode] at h₂
    dsimp only at h₂
    rw [← ht] at h₂
    obtain ⟨tables, w₂, h₃, h₄⟩ := Step.runAlone_bind_ok h₂
    rw [← Step.inRelational_catalog h₃] at hd
    cases hfind : tables.find? (·.name == table) with
    | none =>
      rw [hfind] at h₄
      obtain ⟨_, w₃, h₅, h₆⟩ := Step.runAlone_bind_ok h₄
      obtain ⟨_, w₄, h₇, h₈⟩ := Step.runAlone_bind_ok h₆
      obtain ⟨_, w₅, h₉, h₁₀⟩ := Step.runAlone_bind_ok h₈
      obtain ⟨rfl, rfl⟩ := Step.pure_ok h₉
      exact Step.recomputeRoot_sound
        (Step.deleteItem_rootDirty (Step.deleteItem_rootDirty hd h₅) h₇) h₁₀
    | some summary =>
      rw [hfind] at h₄
      obtain ⟨fields, w₃, h₅, h₆⟩ := Step.runAlone_bind_ok h₄
      rw [← Step.inRelational_catalog h₅] at hd
      obtain ⟨_, w₄, h₇, h₈⟩ := Step.runAlone_bind_ok h₆
      obtain ⟨row, w₅, h₉, h₁₀⟩ := Step.runAlone_bind_ok h₈
      obtain ⟨_, w₆, h₁₁, h₁₂⟩ := Step.runAlone_bind_ok h₁₀
      obtain ⟨rfl, rfl⟩ := Step.pure_ok h₁₁
      have hd₄ := Step.deleteItem_rootDirty hd h₇
      exact Step.recomputeRoot_sound (hd₄.upsertItem rfl rfl (Step.inCatalogSpan_catalog h₉)) h₁₂

/-- Recording tables of distinct names below a cleared root adds each one to the running
aggregate exactly as it adds to the root's tally. -/
theorem recordTables_tally {tables : List TableSummary} {agg agg' : Aggregate}
    {counts counts' : ScanCounts} (hd : w.catalog.RootDirty root)
    (hagg : agg = (w.catalog.tally root).wrap) (hnodup : (tables.map (·.name)).Nodup)
    (hfresh : ∀ x ∈ w.catalog.items, x.node = root.id → x.name ∉ tables.map (·.name))
    (h : (recordTables root tables agg counts).runAlone w = (.ok (agg', counts'), w')) :
    w'.catalog.RootDirty root ∧ agg' = (w'.catalog.tally root).wrap := by
  induction tables generalizing agg counts w with
  | nil =>
    obtain ⟨h₁, rfl⟩ := Step.pure_ok h
    cases h₁
    exact ⟨hd, hagg⟩
  | cons t rest ih =>
    unfold recordTables at h
    rw [List.map_cons, List.nodup_cons] at hnodup
    have hrest : ∀ x ∈ w.catalog.items, x.node = root.id → x.name ∉ rest.map (·.name) :=
      fun x hx hxn hmem => hfresh x hx hxn (List.mem_cons_of_mem _ hmem)
    obtain ⟨r, w₁, h₁, h₂⟩ := Step.runAlone_bind_ok h
    have hc₁ := Step.tryRelational_catalog h₁
    rw [← hc₁] at hd hagg hrest hfresh
    cases r with
    | error e =>
      -- a table whose columns cannot be read is skipped, and nothing is written
      dsimp only at h₂
      split at h₂
      · exact absurd h₂ Step.throw_ok
      · exact ih hd hagg hnodup.2 hrest h₂
    | ok fields =>
      -- the table is fresh below the root, so writing it adds one row to the tally
      dsimp only at h₂
      obtain ⟨row, w₂, h₃, h₄⟩ := Step.runAlone_bind_ok h₂
      have hu := Step.inCatalogSpan_catalog h₃
      have hnew : ∀ x ∈ w₁.catalog.items, x.node = root.id → x.kind = (tableItem root t fields).kind →
          x.name ≠ (tableItem root t fields).name :=
        fun x hx hxn _ hname => hfresh x hx hxn (hname ▸ List.mem_cons_self)
      obtain ⟨hitems, hname, htally⟩ := hd.upsertItem_fresh rfl rfl hnew hu
      refine ih (hd.upsertItem rfl rfl hu) ?_ hnodup.2 ?_ h₄
      · rw [htally, hagg, Aggregate.wrap_addItem]
      · intro x hx hxn
        rw [hitems, List.mem_append, List.mem_singleton] at hx
        rcases hx with hx | rfl
        · exact hrest x hx hxn
        · rw [hname]
          exact hnodup.1

/-- Clearing a root and recording the tables its schema lists yields the root's tally. -/
theorem replaceTables_tally {agg : Aggregate} {counts : ScanCounts} (hd : w.catalog.RootDirty root) (hs : w.relational.TablesDistinct)
    (h : (replaceTables root).runAlone w = (.ok (agg, counts), w')) :
    w'.catalog.RootDirty root ∧ agg = (w'.catalog.tally root).wrap := by
  unfold replaceTables at h
  obtain ⟨_, w₁, h₁, h₂⟩ := Step.runAlone_bind_ok h
  obtain ⟨hd₁, hzero, hnone⟩ := hd.clear (Step.inCatalogSpan_catalog h₁)
  obtain ⟨tables, w₂, h₃, h₄⟩ := Step.runAlone_bind_ok h₂
  obtain ⟨hrun, hw₂⟩ := Step.inRelational_ok h₃
  rw [Step.inCatalogSpan_relational h₁] at hrun
  have hc₂ : w₂.catalog = w₁.catalog := by rw [hw₂]
  rw [← hc₂] at hd₁ hzero hnone
  refine recordTables_tally hd₁ ?_ (hs.scanTables hrun) (fun x hx hxn => absurd hxn (hnone x hx)) h₄
  rw [hzero, Aggregate.wrap_zero]

/-- A schema pass keeps the catalog sound when the source names no table twice. -/
theorem reconcileSchema_sound (resource : ResourceRow) (kind : ResourceKind)
    (schema : SchemaSummary) :
    (reconcileSchema resource kind schema).Ensures (fun w => w.Sound ∧ w.relational.TablesDistinct)
      fun _ => World.Sound := by
  intro w counts w' ⟨hw, hs⟩ h
  unfold reconcileSchema at h
  obtain ⟨node, w₁, h₁, h₂⟩ := Step.runAlone_bind_ok h
  obtain ⟨hs₁, hplaces, hkey, -, hrel⟩ := Step.writeNode_sound hw h₁
  simp only [NodeRow.naturalKey, Prod.mk.injEq] at hkey
  obtain ⟨ht, -, hpar, -, -⟩ := hkey
  have hd : w₁.catalog.RootDirty node := .of_consistent hs₁.1 hs₁.2 hplaces hpar
  rw [← hrel] at hs
  rw [← ht] at h₂
  obtain ⟨_, w₂, h₃, h₄⟩ := Step.runAlone_bind_ok h₂
  have hd₂ := hd.beginNodeScan (Step.inCatalogSpan_catalog h₃)
  rw [← Step.inCatalogSpan_relational h₃] at hs
  obtain ⟨r, w₃, h₅, h₆⟩ := Step.runAlone_bind_ok h₄
  rcases r with e | ⟨agg, c⟩
  · -- a failed pass is recorded and passed on
    obtain ⟨_, _, _, h₇⟩ := Step.runAlone_bind_ok h₆
    exact absurd h₇ Step.throw_ok
  · obtain ⟨hd₃, hagg⟩ := replaceTables_tally hd₂ hs (Step.attempt_ok h₅)
    obtain ⟨_, w₄, h₇, h₈⟩ := Step.runAlone_bind_ok h₆
    obtain ⟨-, rfl⟩ := Step.pure_ok h₈
    exact hd₃.finish hagg (Step.inCatalogSpan_catalog h₇)

/-- Retiring a vanished root keeps the catalog sound. -/
theorem retireNamespace_sound (resource : ResourceRow) (kind : NodeKind) (name : String) :
    (retireNamespace resource kind name).Ensures World.Sound fun _ => World.Sound := by
  intro w u w' hw h
  unfold retireNamespace at h
  obtain ⟨node?, w₁, h₁, h₂⟩ := Step.runAlone_bind_ok h
  obtain ⟨rfl, hw₁⟩ := Step.readCatalog_ok h₁
  rw [hw₁] at h₂
  cases hnode : w.catalog.getNode resource.tenant resource.id none kind name with
  | none =>
    rw [hnode] at h₂
    obtain ⟨-, rfl⟩ := Step.pure_ok h₂
    exact hw
  | some node =>
    rw [hnode] at h₂
    dsimp only at h₂
    obtain ⟨w₂, w₃, h₃, h₄⟩ := Step.runAlone_bind_ok h₂
    rw [Step.runAlone_get, Prod.mk.injEq, Except.ok.injEq] at h₃
    obtain ⟨rfl, rfl⟩ := h₃
    split at h₄
    · -- a busy root is left for the pass that holds it
      obtain ⟨-, rfl⟩ := Step.pure_ok h₄
      exact hw
    · obtain ⟨w₄, w₅, hbody, hc₄, hc'⟩ := Step.guarded_ok h₄
      have hr := Step.inCatalogSpan_catalog hbody
      rw [hc₄, ← hc'] at hr
      obtain ⟨hmem, hkey, -⟩ := Tables.getNode_some hnode
      simp only [NodeRow.naturalKey, Prod.mk.injEq] at hkey
      refine retireNode_root_consistent hw.1 hw.2 (fun n hn => ?_) hr
      obtain ⟨hnm, -, hid, -⟩ := Tables.nodeById?_some hn
      rw [hw.1.node_eq_of_id hnm hmem hid]
      exact hkey.2.2.1

end Relational

end DataCatalog.Scan
