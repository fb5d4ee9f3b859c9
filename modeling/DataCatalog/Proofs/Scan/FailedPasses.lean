import Mathlib
import DataCatalog.Proofs.Scan.Traces
import DataCatalog.Proofs.Scan.Namespaces
/-!
# What a failed namespace pass leaves, and when a schema pass fails

A namespace pass (a schema pass, the pass over a whole bucket, the rebuild of a prefix) leaves
the trace of its answer on its root (`PassTrace`): when it returns an error after the root's scan
began, the root is unscanned with the error's text and the aggregate it had; when it succeeds,
the root is scanned with no error. A prefix pass then recomputes the aggregates of the prefix's
ancestors; that changes nothing but aggregates, and when it fails the pass returns its error
while the prefix stays scanned (`prefixPass_overflow_leaves_prefix_scanned`).

A schema pass lists the tables of its schema, then the fields of each table in turn. It fails
when the tables cannot be listed, or when the fields of a table cannot be listed for a failure
at connection level (a lost connection or a timeout); any other failure to list a table's fields
skips that table, and the pass goes on with the next one. When the catalog takes every write
(the schema's resource is registered), these are the only ways the pass fails, and a pass that
succeeds has skipped exactly the tables whose fields could not be listed and recorded an item
for each of the others.

What the source answers depends only on its schemas and its injected failures, never on how
often it was called (`RelationalSource.Agrees`), so every answer of a pass is read off the source
as the pass found it.
-/

namespace DataCatalog.Source

open DataCatalog.Connect

variable {α : Type} {s s' : RelationalSource}

theorem scanTables_calls (s : RelationalSource) (schema : String) :
    ((ExceptT.run (scanTables schema)).run s).2 =
      { s with calls := { s.calls with scanTables := s.calls.scanTables + 1 } } := by
  cases hf : s.failure? ("tables:" ++ schema) <;> cases hs : s.schema? schema <;>
  · simp only [scanTables, RelationalSource.failure?, RelationalSource.schema?] at hf hs ⊢
    simp [hf, hs, ExceptT.run, bind, ExceptT.bind, ExceptT.mk, StateT.bind, modify, modifyGet,
      MonadStateOf.modifyGet, StateT.modifyGet, get, getThe, MonadStateOf.get, StateT.get,
      monadLift, MonadLift.monadLift, ExceptT.lift, ExceptT.bindCont, liftM, StateT.run, pure,
      StateT.pure, throw, throwThe, MonadExceptOf.throw, ExceptT.pure, Functor.map, StateT.map]

theorem scanFields_run (s : RelationalSource) (schema table : String) :
    (ExceptT.run (scanFields schema table)).run s =
      (match s.failure? ("fields:" ++ schema ++ "." ++ table) with
        | some e => .error e
        | none => match (s.schema? schema).bind fun sc => sc.tables.find? (·.name == table) with
          | some t => .ok t.fields
          | none => .error (.enumeration (schema ++ "." ++ table) "table does not exist"),
        { s with calls := { s.calls with scanFields := s.calls.scanFields + 1 } }) := by
  cases hf : s.failure? ("fields:" ++ schema ++ "." ++ table) <;>
    cases hs : (s.schema? schema).bind fun sc => sc.tables.find? (·.name == table) <;>
  · simp only [scanFields, RelationalSource.failure?, RelationalSource.schema?] at hf hs ⊢
    simp [hf, hs, ExceptT.run, bind, ExceptT.bind, ExceptT.mk, StateT.bind, modify, modifyGet,
      MonadStateOf.modifyGet, StateT.modifyGet, get, getThe, MonadStateOf.get, StateT.get,
      monadLift, MonadLift.monadLift, ExceptT.lift, ExceptT.bindCont, liftM, StateT.run, pure,
      StateT.pure, throw, throwThe, MonadExceptOf.throw, ExceptT.pure, Functor.map, StateT.map]

/-- What the source answers to a call, leaving aside the counters the call bumps. -/
def RelationalSource.answer (s : RelationalSource) (call : RelationalCall α) :
    Except ConnectorError α :=
  ((ExceptT.run call).run s).1

/-- `s'` holds the schemas and the injected failures of `s`, whatever its counters say. -/
def RelationalSource.Agrees (s' s : RelationalSource) : Prop :=
  s'.schemas = s.schemas ∧ s'.failures = s.failures

theorem RelationalSource.Agrees.refl (s : RelationalSource) : s.Agrees s := ⟨rfl, rfl⟩

/-- A source that agrees with `s` lists tables as `s` does, and still agrees with it after. -/
theorem RelationalSource.Agrees.scanTables (h : s'.Agrees s) (schema : String) :
    ((ExceptT.run (Source.scanTables schema)).run s').1 = s.answer (Source.scanTables schema) ∧
      ((ExceptT.run (Source.scanTables schema)).run s').2.Agrees s := by
  unfold RelationalSource.answer
  rw [scanTables_run, scanTables_run, scanTables_calls]
  refine ⟨?_, h⟩
  simp only [RelationalSource.failure?, RelationalSource.schema?, h.1, h.2]

/-- A source that agrees with `s` lists fields as `s` does, and still agrees with it after. -/
theorem RelationalSource.Agrees.scanFields (h : s'.Agrees s) (schema table : String) :
    ((ExceptT.run (Source.scanFields schema table)).run s').1 =
        s.answer (Source.scanFields schema table) ∧
      ((ExceptT.run (Source.scanFields schema table)).run s').2.Agrees s := by
  unfold RelationalSource.answer
  rw [scanFields_run, scanFields_run]
  refine ⟨?_, h⟩
  simp only [RelationalSource.failure?, RelationalSource.schema?, h.1, h.2]

/-- The source fails to list the fields of table `t` of `schema`. -/
def RelationalSource.failsFields (s : RelationalSource) (schema : String) (t : TableSummary) :
    Bool :=
  !(s.answer (Source.scanFields schema t.name)).isOk

/-- The source fails to list the fields of table `t` of `schema` at connection level. -/
def RelationalSource.losesFields (s : RelationalSource) (schema : String) (t : TableSummary) :
    Bool :=
  match s.answer (Source.scanFields schema t.name) with
  | .error e => e.isConnectionLevel
  | .ok _ => false

/-- A pass over `schema` cannot go through against `s`: the tables cannot be listed, or the
fields of one of them cannot be listed for a failure at connection level. -/
def RelationalSource.FailsSchema (s : RelationalSource) (schema : String) : Prop :=
  match s.answer (Source.scanTables schema) with
  | .error _ => True
  | .ok tables => tables.any (s.losesFields schema) = true

end DataCatalog.Source

namespace DataCatalog.Catalog

open DataCatalog.Ident

variable {c c' : Tables}

/-- `c` holds an item named `name` below the node `node`. -/
def Tables.HasItem (c : Tables) (node : NodeId) (name : String) : Prop :=
  ∃ it ∈ c.items, it.node = node ∧ it.name = name

/-- An item write below a live node succeeds. -/
theorem upsertItem_succeeds {i : ItemInput} (h : (c.nodeById? i.tenant i.node).isSome) :
    ∃ row c', upsertItem i c = .ok (row, c') := by
  obtain ⟨node, hnode⟩ := Option.isSome_iff_exists.1 h
  unfold upsertItem
  cases ho : c.items.find? (·.hasKey i.tenant node.id i.kind i.name) <;>
    simp [ho, hnode, requireNode_run, Tables.mint, get, getThe, MonadStateOf.get, StateT.get,
      set, StateT.set, StateT.bind, bind, Except.bind, pure, StateT.pure, Except.pure]

/-- An item write holds its item, and keeps every item it found, under its node and name. -/
theorem upsertItem_hasItem (hw : c.Wf) {i : ItemInput} {row : ItemRow}
    (h : upsertItem i c = .ok (row, c')) :
    c'.HasItem i.node i.name ∧ ∀ node name, c.HasItem node name → c'.HasItem node name := by
  obtain ⟨node, hnode, ⟨old, hfind, rfl, rfl⟩ | ⟨-, rfl, rfl⟩⟩ := upsertItem_ok h
  · have hold := List.mem_of_find?_eq_some hfind
    have hfound := List.find?_some hfind
    obtain ⟨-, hon, -, hname⟩ := ItemRow.hasKey_iff.1 hfound
    have hid : node.id = i.node := (Tables.nodeById?_some hnode).2.2.1
    -- the rewritten row keeps the node and the name of the row it replaces
    have hrow : old.rewritten i node ∈
        replaceWhere (·.id == old.id) (fun _ => old.rewritten i node) c.items :=
      mem_replaceWhere_const ⟨old, hold, by simp⟩
    refine ⟨⟨_, hrow, hon.trans hid, hname⟩, fun n name ⟨it, hit, hn, hm⟩ => ?_⟩
    by_cases hi : it.id = old.id
    · obtain rfl := hw.item_eq_of_id hit hold hi
      exact ⟨_, hrow, hn, hm⟩
    · refine ⟨it, ?_, hn, hm⟩
      rw [replaceWhere_eq_map ItemRow.id old.id _ _ hw.itemIds]
      exact List.mem_map.2 ⟨it, hit, by simp [hi]⟩
  · refine ⟨⟨_, List.mem_append_right _ (List.mem_singleton_self _),
      (Tables.nodeById?_some hnode).2.2.1, rfl⟩, fun n name ⟨it, hit, hn⟩ =>
        ⟨it, List.mem_append_left _ hit, hn⟩⟩

/-- Beginning a scan keeps every live node live. -/
theorem beginNodeScan_keeps_live {t u : TenantId} {id x : NodeId}
    (h : beginNodeScan t id c = .ok ((), c')) (hx : (c.nodeById? u x).isSome) :
    (c'.nodeById? u x).isSome := by
  obtain ⟨-, rfl⟩ := beginNodeScan_ok h
  obtain ⟨n, hn, hnode, hlive⟩ := Tables.nodeById?_isSome_iff.1 hx
  -- the begun row keeps the tenant, the id and the liveness of the row it replaces
  refine Tables.nodeById?_isSome_iff.2 ⟨_, List.mem_map.2 ⟨n, hn, rfl⟩, ?_⟩
  split <;> exact ⟨hnode, hlive⟩

/-- Clearing below a live node keeps it live. -/
theorem clearSubtree_of_live {t : TenantId} {id : NodeId} {node : NodeRow}
    (h : c.nodeById? t id = some node) :
    (∃ r, clearSubtree t id c = .ok (r, c.clearedBelow node)) ∧
      ((c.clearedBelow node).nodeById? t id).isSome := by
  obtain ⟨hmem, ht, hid, hlive⟩ := Tables.nodeById?_some h
  refine ⟨?_, Tables.nodeById?_isSome_iff.2 ⟨node, ?_, by simp [NodeRow.isNode, ht, hid], hlive⟩⟩
  · obtain ⟨r, hr⟩ := clearBelow_run node c
    refine ⟨r, ?_⟩
    simp only [clearSubtree, bind, StateT.bind, requireNode_run, h, Except.bind]
    exact hr
  · simp [Tables.clearedBelow, hmem]

/-- An item write keeps every live node live. -/
theorem upsertItem_keeps_live {i : ItemInput} {row : ItemRow} {u : TenantId} {x : NodeId}
    (h : upsertItem i c = .ok (row, c')) (hx : (c.nodeById? u x).isSome) :
    (c'.nodeById? u x).isSome := by
  obtain ⟨_, -, -, -, -, -, hnodes⟩ := upsertItem_written h
  unfold Tables.nodeById? at hx ⊢
  rwa [hnodes]

/-- A node write at the top of a registered resource succeeds. -/
theorem upsertNode_succeeds {i : NodeInput} (hp : i.parent = none)
    (hres : c.resources.any (·.id == i.resource) = true) :
    ∃ row c', upsertNode i c = .ok (row, c') := by
  have hparent : parentFor i c = .ok (none, c) := by
    simp [parentFor, hp, pure, StateT.pure, Except.pure]
  unfold upsertNode
  simp only [bind, StateT.bind, hparent, Tables.mint, get, getThe, MonadStateOf.get, StateT.get,
    Except.bind, pure, Except.pure]
  cases c.nodes.find? (·.hasKey i.tenant i.resource i.parent i.kind i.name) <;>
    simp [hres, set, StateT.set, StateT.bind, bind, Except.bind, pure, StateT.pure,
      Except.pure]

end DataCatalog.Catalog

namespace DataCatalog.Scan

open DataCatalog.Catalog DataCatalog.Connect DataCatalog.Source DataCatalog.Storage
open DataCatalog.Ident

variable {s : RelationalSource} {node : NodeRow} {t : TableSummary} {rest : List TableSummary}
  {counts : ScanCounts} {c c₁ c' : Tables}

/-! ## Recording the tables of a schema -/

/-- What recording the tables of `node` needs of the world: a source that agrees with `s`, a
well-formed catalog, and `node` live in it. -/
structure Recording (s : RelationalSource) (node : NodeRow) (w : World) : Prop where
  agrees : w.relational.Agrees s
  wf : w.catalog.Wf
  live : (w.catalog.nodeById? node.tenant node.id).isSome

/-- What recording `tables` of `node` after the counts `counts` answers against the source `s`,
from the catalog `c` to `c'`: it fails exactly when the fields of some table fail at connection
level, and a success skips the tables whose fields fail, counts the others as items, leaves an
item for each of them and keeps the items it found. -/
def RecordsTables (s : RelationalSource) (node : NodeRow) (tables : List TableSummary)
    (counts : ScanCounts) (c c' : Tables) (r : Except ScanError (Aggregate × ScanCounts)) :
    Prop :=
  ((∃ e, r = .error e) ↔ tables.any (s.losesFields node.name) = true) ∧
    ∀ a k, r = .ok (a, k) →
      k.skipped = counts.skipped + tables.countP (s.failsFields node.name) ∧
      k.items = counts.items + tables.countP (fun t => !s.failsFields node.name t) ∧
      (∀ t ∈ tables, s.failsFields node.name t = false → c'.HasItem node.id t.name) ∧
      ∀ id name, c.HasItem id name → c'.HasItem id name

theorem RecordsTables.nil (agg : Aggregate) :
    RecordsTables s node [] counts c c (.ok (agg, counts)) := by
  refine ⟨by simp, fun a k h => ?_⟩
  obtain ⟨-, rfl⟩ := Prod.mk.inj (Except.ok.inj h)
  simp

/-- A table whose fields fail at connection level ends the recording. -/
theorem RecordsTables.lose (hlose : s.losesFields node.name t = true) (e : ScanError) :
    RecordsTables s node (t :: rest) counts c c' (.error e) :=
  ⟨by simp [hlose], fun _ _ h => by cases h⟩

/-- A table whose fields fail otherwise is skipped. -/
theorem RecordsTables.skip (hfail : s.failsFields node.name t = true)
    (hlose : s.losesFields node.name t = false) {r : Except ScanError (Aggregate × ScanCounts)}
    (h : RecordsTables s node rest { counts with skipped := counts.skipped + 1 } c c' r) :
    RecordsTables s node (t :: rest) counts c c' r := by
  refine ⟨by simp [hlose, h.1], fun a k hr => ?_⟩
  obtain ⟨hs, hi, hitems, hkeep⟩ := h.2 a k hr
  refine ⟨by simp [hs, hfail]; omega, by simp [hi, hfail], fun x hx hxf => ?_, hkeep⟩
  rcases List.mem_cons.1 hx with rfl | hx
  · exact absurd hfail (by simp [hxf])
  · exact hitems x hx hxf

/-- A table whose fields are listed is recorded as an item. -/
theorem RecordsTables.record (hok : s.failsFields node.name t = false)
    (hlose : s.losesFields node.name t = false) (hitem : c₁.HasItem node.id t.name)
    (hkept : ∀ id name, c.HasItem id name → c₁.HasItem id name) {k₀ : ScanCounts}
    {r : Except ScanError (Aggregate × ScanCounts)} (h : RecordsTables s node rest k₀ c₁ c' r)
    (hk₀ : k₀.skipped = counts.skipped ∧ k₀.items = counts.items + 1) :
    RecordsTables s node (t :: rest) counts c c' r := by
  refine ⟨by simp [hlose, h.1], fun a k hr => ?_⟩
  obtain ⟨hs, hi, hitems, hkeep⟩ := h.2 a k hr
  refine ⟨by simp [hs, hok, hk₀.1], by simp [hi, hok, hk₀.2]; omega, fun x hx hxf => ?_,
    fun id name hc => hkeep id name (hkept id name hc)⟩
  rcases List.mem_cons.1 hx with rfl | hx
  · exact hkeep _ _ hitem
  · exact hitems x hx hxf

/-- Recording the tables of a live node, one by one, answers as `RecordsTables` says. -/
theorem recordTables_records (s : RelationalSource) (node : NodeRow) :
    ∀ (tables : List TableSummary) (agg : Aggregate) (counts : ScanCounts) {w : World},
      Recording s node w →
      RecordsTables s node tables counts w.catalog
        ((recordTables node tables agg counts).runAlone w).2.catalog
        ((recordTables node tables agg counts).runAlone w).1
  | [], agg, counts, w, _ => RecordsTables.nil agg
  | t :: rest, agg, counts, w, hr => by
    obtain ⟨hanswer, hagrees⟩ := hr.agrees.scanFields node.name t.name
    rw [recordTables, Step.runAlone_bind, Step.runAlone_tryRelational]
    dsimp only
    rw [hanswer]
    cases ha : s.answer (scanFields node.name t.name) with
    | error e =>
      have hfail : s.failsFields node.name t = true := by
        simp [RelationalSource.failsFields, ha, Except.isOk, Except.toBool]
      dsimp only
      by_cases hc : e.isConnectionLevel = true
      · -- a failure at connection level ends the recording
        rw [if_pos hc, Step.runAlone_throw]
        exact RecordsTables.lose (by simp [RelationalSource.losesFields, ha, hc]) _
      · -- any other failure skips the table
        rw [if_neg hc]
        exact RecordsTables.skip hfail (by simp [RelationalSource.losesFields, ha, hc])
          (recordTables_records s node rest agg _ ⟨hagrees, hr.wf, hr.live⟩)
    | ok fields =>
      have hok : s.failsFields node.name t = false := by
        simp [RelationalSource.failsFields, ha, Except.isOk, Except.toBool]
      have hlose : s.losesFields node.name t = false := by
        simp [RelationalSource.losesFields, ha]
      dsimp only
      -- the node is live, so its item is written
      obtain ⟨row, c₁, hu⟩ := upsertItem_succeeds (i := tableItem node t fields) hr.live
      obtain ⟨hitem, hkept⟩ := upsertItem_hasItem hr.wf hu
      unfold writeItem
      rw [Step.runAlone_bind, Step.runAlone_inCatalogSpan, hu]
      dsimp only
      exact RecordsTables.record hok hlose hitem hkept
        (recordTables_records s node rest _ _
          ⟨hagrees, upsertItem_wf hr.wf hu, upsertItem_keeps_live hu hr.live⟩) ⟨rfl, rfl⟩

/-- Clearing a live node and recording the tables its schema lists: either the listing fails the
rebuild, or the tables are recorded, from the cleared catalog on. -/
theorem replaceTables_records {w : World} (hr : Recording s node w) :
    match s.answer (scanTables node.name) with
    | .error _ => ∃ e, ((replaceTables node).runAlone w).1 = .error e
    | .ok tables => ∃ c₀, RecordsTables s node tables {} c₀
        ((replaceTables node).runAlone w).2.catalog ((replaceTables node).runAlone w).1 := by
  obtain ⟨n, hn⟩ := Option.isSome_iff_exists.1 hr.live
  obtain ⟨⟨r, hclear⟩, hlive⟩ := clearSubtree_of_live hn
  obtain ⟨hanswer, hagrees⟩ := hr.agrees.scanTables node.name
  unfold replaceTables clearNode inRelational
  rw [Step.runAlone_bind, Step.runAlone_inCatalogSpan, hclear]
  dsimp only
  rw [Step.runAlone_bind, Step.runAlone_bind, Step.runAlone_tryRelational]
  dsimp only
  rw [hanswer]
  cases ha : s.answer (scanTables node.name) with
  | error e => exact ⟨_, rfl⟩
  | ok tables =>
    dsimp only
    rw [Step.runAlone_ofExcept]
    exact ⟨_, recordTables_records s node tables {} {}
      ⟨hagrees, clearSubtree_wf hr.wf hclear, hlive⟩⟩

/-! ## The schema pass -/

/-- A pass over a subtree whose scan begins fails exactly when its rebuild does; a success
counts what the rebuild counted, as one namespace, and keeps the rebuild's items. -/
theorem subtreePass_answers {tenant : TenantId} {id : NodeId}
    (body : Step (Aggregate × ScanCounts)) {w : World}
    (hbegin : beginNodeScan tenant id w.catalog = .ok ((), c₁)) :
    ((∃ e, ((subtreePass tenant id body).runAlone w).1 = .error e) ↔
        ∃ e, (body.runAlone { w with catalog := c₁ }).1 = .error e) ∧
      ∀ counts, ((subtreePass tenant id body).runAlone w).1 = .ok counts →
        ∃ agg k, (body.runAlone { w with catalog := c₁ }).1 = .ok (agg, k) ∧
          counts = { k with namespaces := 1 } ∧
          ((subtreePass tenant id body).runAlone w).2.catalog.items =
            (body.runAlone { w with catalog := c₁ }).2.catalog.items := by
  rw [subtreePass_runAlone body hbegin]
  rcases body.runAlone { w with catalog := c₁ } with ⟨e | ⟨agg, k⟩, w₂⟩
  · by_cases hf : e.fatal = true <;> simp [hf]
  · simp

/-- When the schema's resource is registered, a schema pass fails exactly when its source fails
the schema. A success skips the tables whose fields cannot be listed, counts the others as
items, and leaves an item for each of them below the schema's node. -/
theorem reconcileSchema_answers (resource : ResourceRow) (kind : ResourceKind)
    (schema : SchemaSummary) {w : World} (hw : w.catalog.Wf)
    (hres : w.catalog.resources.any (·.id == resource.id) = true) :
    ((∃ e, ((reconcileSchema resource kind schema).runAlone w).1 = .error e) ↔
        w.relational.FailsSchema schema.name) ∧
      ∀ tables, w.relational.answer (scanTables schema.name) = .ok tables →
        ∀ counts, ((reconcileSchema resource kind schema).runAlone w).1 = .ok counts →
          counts.skipped = tables.countP (w.relational.failsFields schema.name) ∧
          counts.items = tables.countP (fun t => !w.relational.failsFields schema.name t) ∧
          ∃ n, ((reconcileSchema resource kind schema).runAlone w).2.catalog.getNode
              resource.tenant resource.id none kind.namespaceKind schema.name = some n ∧
            ∀ t ∈ tables, w.relational.failsFields schema.name t = false →
              ((reconcileSchema resource kind schema).runAlone w).2.catalog.HasItem n.id
                t.name := by
  -- the schema's node is written, live
  obtain ⟨row, c₁, hu⟩ := upsertNode_succeeds (c := w.catalog)
    (i := ⟨resource.tenant, resource.id, none, kind.namespaceKind, schema.name,
      some (.namespaceInfo schema.tableCount schema.sizeBytes schema.charset schema.collation)⟩)
    rfl hres
  obtain ⟨-, -, hkey, -, hmem, -, -⟩ := upsertNode_written hu
  obtain ⟨hlive, -⟩ := upsertNode_aggregate hu
  simp only [NodeRow.naturalKey, Prod.mk.injEq] at hkey
  obtain ⟨ht, hr, hp, hk, hn⟩ := hkey
  have hw₁ := upsertNode_wf hw hu
  -- so its scan begins, and the rebuild records against the source as the pass found it
  have hfound := Tables.nodeById?_isSome_of_mem hmem hlive
  obtain ⟨c₂, hbegin⟩ := beginNodeScan_of_live hfound
  have hrec : Recording w.relational row { w with catalog := c₂ } :=
    ⟨.refl _, beginNodeScan_wf hw₁ hbegin, beginNodeScan_keeps_live hbegin hfound⟩
  obtain ⟨hiff, hok⟩ := subtreePass_answers (replaceTables row) (w := { w with catalog := c₁ })
    hbegin
  have hget := (subtreePass_traced ((replaceTables_rebuilds row).mono (fun _ _ => trivial)
    fun _ _ h => h) (w := { w with catalog := c₁ }) hw₁ hmem hlive).2
  rw [hp, hr, hk] at hget
  have hrt := replaceTables_records hrec
  rw [reconcileSchema_eq]
  unfold writeNode
  rw [Step.runAlone_bind, Step.runAlone_inCatalogSpan, hu]
  dsimp only
  rw [← ht, ← hn]
  refine ⟨hiff.trans ?_, fun tables htables counts hcounts => ?_⟩
  · -- the rebuild fails exactly when the source fails the schema
    unfold RelationalSource.FailsSchema
    revert hrt
    cases w.relational.answer (scanTables row.name) with
    | error e => exact fun hrt => iff_of_true hrt trivial
    | ok tables =>
      rintro ⟨_, hrt⟩
      exact hrt.1
  · -- a success counts and records what the rebuild did
    obtain ⟨agg, k, hbody, rfl, hitems⟩ := hok counts hcounts
    rw [htables] at hrt
    obtain ⟨_, hrt⟩ := hrt
    obtain ⟨hs, hi, hhas, -⟩ := hrt.2 agg k hbody
    obtain ⟨n, hnode, hid⟩ := hget
    refine ⟨by simpa using hs, by simpa using hi, n, hnode, fun t htab hf => ?_⟩
    obtain ⟨it, hit, hitn, hitname⟩ := hhas t htab hf
    exact ⟨it, hitems ▸ hit, hid ▸ hitn, hitname⟩

/-! ## The trace of a namespace pass -/

/-- Run alone from a well-formed catalog, a namespace pass leaves the trace of its answer. A
schema pass, and the pass over a whole bucket, leave it on the node of their key: after the
node's scan began, an error leaves it live and unscanned with the error's text and the aggregate
the key's row had, and a success leaves it live and scanned with no error and a scan time;
either way no node is left being scanned that was not so before, and the node is not. The
rebuild of any live node's subtree, which a prefix pass runs, leaves the same trace on that node;
recomputing the aggregates along a chain, as a prefix pass then does, changes nothing but
aggregates. When the schema's resource is registered, a schema pass fails exactly when its
source fails the schema, and a success skips exactly the tables whose fields cannot be listed
and leaves an item for each of the others. -/
theorem namespacePass_leaves_trace {w : World} (hw : w.catalog.Wf) :
    (∀ resource kind schema,
      KeyedTrace w.catalog ((reconcileSchema resource kind schema).runAlone w).2.catalog
        resource.tenant resource.id none kind.namespaceKind schema.name
        ((reconcileSchema resource kind schema).runAlone w).1) ∧
    (∀ resource path bucket, splitObjectPath path = some (bucket, "") →
      hasReservedSegment bucket = false →
      KeyedTrace w.catalog ((reconcileObjectPath resource path).runAlone w).2.catalog
        resource.tenant resource.id none .bucket bucket
        ((reconcileObjectPath resource path).runAlone w).1) ∧
    (∀ target ∈ w.catalog.nodes, target.isLive → ∀ base walked,
      PassTrace w.catalog ((reconcileSubtree target base walked).runAlone w).2.catalog target.id
        target.aggregate ((reconcileSubtree target base walked).runAlone w).1) ∧
    (∀ chain, w.catalog.ResizedOnly ((rollUp chain).runAlone w).2.catalog) ∧
    ∀ resource kind schema, w.catalog.resources.any (·.id == resource.id) = true →
      ((∃ e, ((reconcileSchema resource kind schema).runAlone w).1 = .error e) ↔
          w.relational.FailsSchema schema.name) ∧
        ∀ tables, w.relational.answer (scanTables schema.name) = .ok tables →
          ∀ counts, ((reconcileSchema resource kind schema).runAlone w).1 = .ok counts →
            counts.skipped = tables.countP (w.relational.failsFields schema.name) ∧
            counts.items = tables.countP (fun t => !w.relational.failsFields schema.name t) ∧
            ∃ n, ((reconcileSchema resource kind schema).runAlone w).2.catalog.getNode
                resource.tenant resource.id none kind.namespaceKind schema.name = some n ∧
              ∀ t ∈ tables, w.relational.failsFields schema.name t = false →
                ((reconcileSchema resource kind schema).runAlone w).2.catalog.HasItem n.id
                  t.name :=
  ⟨fun resource kind schema => reconcileSchema_traced resource kind schema hw,
    fun resource _ _ hsplit hres => reconcileBucket_traced resource hsplit hres hw,
    fun _ hmem hlive base walked => reconcileSubtree_traced hw hmem hlive base walked,
    fun chain => rollUp_resizedOnly chain hw,
    fun resource kind schema hres => reconcileSchema_answers resource kind schema hw hres⟩

/-- From a catalog that registers one resource, against a source whose schema `sales` holds one
table: the schema pass and the pass over bucket `b` leave their traces, and the schema pass
fails exactly when the source fails `sales`. -/
theorem sales_pass_traced :
    let r : ResourceRow := ⟨⟨"r"⟩, ⟨1⟩, ⟨1⟩, "postgres", "", "r", [], .active, 0, none, ⟨0, 0⟩,
      ⟨0, 0⟩⟩
    let sales : SchemaSummary := ⟨"sales", some 1, none, none, none⟩
    let w : World := { catalog := { resources := [r] } }
    w.catalog.Wf ∧ w.catalog.resources.any (·.id == r.id) = true ∧
      splitObjectPath "b" = some ("b", "") ∧ hasReservedSegment "b" = false ∧
      KeyedTrace w.catalog ((reconcileObjectPath r "b").runAlone w).2.catalog r.tenant r.id none
        .bucket "b" ((reconcileObjectPath r "b").runAlone w).1 ∧
      ((∃ e, ((reconcileSchema r .postgres sales).runAlone w).1 = .error e) ↔
        w.relational.FailsSchema "sales") := by
  intro r sales w
  have hw : w.catalog.Wf := by constructor <;> simp [w]
  have hres : w.catalog.resources.any (·.id == r.id) = true := by decide
  have hs : splitObjectPath "b" = some ("b", "") := by decide
  have hb : hasReservedSegment "b" = false := by decide
  obtain ⟨-, hbucket, -, -, hschema⟩ := namespacePass_leaves_trace hw
  exact ⟨hw, hres, hs, hb, hbucket r "b" "b" hs hb, (hschema r .postgres sales hres).1⟩

/-- A prefix pass can return an error after its rebuild finished. Under prefix `a` of bucket
`b`, prefixes `p1` and `p2` each hold an object of 2^62 bytes. Once `p2` is scanned, the pass
over `b/a/p1` rebuilds and finishes `p1`, then fails to recompute the aggregate of `a`, whose
children's sizes overflow: it returns the overflow, which does not end the run, and leaves `p1`
live and scanned with no error. -/
theorem prefixPass_overflow_leaves_prefix_scanned :
    let r : ResourceRow := ⟨⟨"r"⟩, ⟨1⟩, ⟨1⟩, "s3", "s3", "r", [], .active, 1, none, ⟨0, 0⟩,
      ⟨0, 0⟩⟩
    let w : World :=
      { catalog := { resources := [r] }
        objects := { buckets := [("b", [⟨"a/p1/o", 4611686018427387904, none, none⟩,
          ⟨"a/p2/o", 4611686018427387904, none, none⟩])] }
        connector := ObjectConnector.new [] }
    let p := (reconcileObjectPath r "b/a/p1").runAlone
      ((reconcileObjectPath r "b/a/p2").runAlone w).2
    p.1 = .error (.persistence integerOverflow) ∧
      (ScanError.persistence integerOverflow).fatal = false ∧
      (p.2.catalog.nodes.filter (·.name == "p1")).map
        (fun n => (n.isLive, n.scanStatus, n.errorMessage)) = [(true, .scanned, none)] := by
  decide +kernel

end DataCatalog.Scan
