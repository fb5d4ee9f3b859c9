import Mathlib
import DataCatalog.Proofs.Scan.FailedPasses
/-!
# What the relational passes leave below a namespace

A schema pass clears its namespace and records the tables its source lists, one item per table
whose columns could be read. Items are written by kind and name, so a second table of one name
and kind rewrites the first one's item. The items below the namespace are then, up to order, the
entry of the last readable table of each kind and name (`latestEntries`), whatever the catalog
held before; the counts say how many tables were read, with how many columns, and how many were
skipped.

A table pass refreshes one table of a namespace already in the catalog. It asks the source
before it writes, so a namespace that is not in the catalog, or a source that fails, leaves the
catalog as it was. Otherwise the table's rows of either kind give way to one item built from the
first table of that name the source lists, or to none when the source no longer lists it; every
other item stays the row it was, and of the nodes only the namespace's aggregate changes, to the
sum of its live children's aggregates and its items. That sum is the last thing the pass reads,
and it fails on a total that leaves the words: the pass then fails with its item writes made.
-/

namespace DataCatalog.Catalog

open DataCatalog.Ident

/-- An item as a pass records it: its kind and name, its row count and size, its attributes. -/
structure ItemEntry where
  kind : ItemKind
  name : String
  rowCount : Option Int
  sizeBytes : Int
  attributes : ItemAttributes

/-- The entry of an item row. -/
def ItemRow.entry (i : ItemRow) : ItemEntry :=
  ⟨i.kind, i.name, i.rowCount, i.sizeBytes, i.attributes⟩

/-- The entry an item write asks for. -/
def ItemInput.entry (i : ItemInput) : ItemEntry :=
  ⟨i.kind, i.name, i.rowCount, i.sizeBytes, i.attributes⟩

/-- Two entries of one node name the same item: same kind, same name. -/
def ItemEntry.sameKey (a b : ItemEntry) : Bool := a.kind == b.kind && a.name == b.name

/-- Whether an item row is the item of kind `kind` named `name` of its node. -/
def ItemRow.keyed (i : ItemRow) (kind : ItemKind) (name : String) : Bool :=
  i.kind == kind && i.name == name

/-- The last entry of each kind and name, in the order of those last entries. -/
def latestEntries : List ItemEntry → List ItemEntry
  | [] => []
  | e :: rest => if rest.any e.sameKey then latestEntries rest else e :: latestEntries rest

/-- The items attached to a node. -/
def Tables.itemsOf (c : Tables) (id : NodeId) : List ItemRow := c.items.filter (·.node == id)

/-- The entries of the items attached to a node. -/
def Tables.entriesOf (c : Tables) (id : NodeId) : List ItemEntry :=
  (c.itemsOf id).map ItemRow.entry

/-- Appending an entry drops the earlier entry of its kind and name, and puts it last. -/
theorem latestEntries_append_singleton (l : List ItemEntry) (e : ItemEntry) :
    latestEntries (l ++ [e]) = (latestEntries l).filter (!·.sameKey e) ++ [e] := by
  induction l with
  | nil => simp [latestEntries]
  | cons x l ih =>
    by_cases hx : l.any x.sameKey = true
    · simp [latestEntries, hx, ih]
    · cases he : x.sameKey e <;> simp [latestEntries, hx, he, ih]

/-- Dropping the rows of the kind and name of a write drops the entries of its key. -/
theorem map_entry_filter_keyed (l : List ItemRow) (i : ItemInput) :
    (l.filter (!·.keyed i.kind i.name)).map ItemRow.entry =
      (l.map ItemRow.entry).filter (!·.sameKey i.entry) := by
  rw [List.filter_map]
  rfl

/-- Replacing the first row that satisfies `p`, when the rows before `x` do not. -/
theorem replaceWhere_append_cons {α : Type} {p : α → Bool} {f : α → α} {x : α} (as bs : List α)
    (has : ∀ a ∈ as, p a = false) (hx : p x = true) :
    replaceWhere p f (as ++ x :: bs) = as ++ f x :: bs := by
  induction as with
  | nil => simp [replaceWhere, hx]
  | cons a as ih =>
    simp [replaceWhere, has a List.mem_cons_self,
      ih fun b hb => has b (List.mem_cons_of_mem _ hb)]

section Items

variable {c c' : Tables}

/-- An item of a node of a well-formed catalog is of the node's tenant and resource. -/
theorem Tables.Wf.item_of_node (hw : c.Wf) {node : NodeRow} (hn : node ∈ c.nodes)
    {it : ItemRow} (hit : it ∈ c.items) (hnode : it.node = node.id) :
    it.tenant = node.tenant ∧ it.resource = node.resource := by
  obtain ⟨n, hn', hh⟩ := hw.itemsHang it hit
  obtain rfl := hw.node_eq_of_id hn' hn (hh.node.symm.trans hnode)
  exact ⟨hh.tenant.symm, hh.resource.symm⟩

/-- An item of the node found for a write is keyed by the write's kind and name exactly when it
has the write's key. -/
theorem Tables.Wf.hasKey_iff_keyed (hw : c.Wf) {i : ItemInput} {node : NodeRow}
    (hnode : c.nodeById? i.tenant i.node = some node) {it : ItemRow} (hit : it ∈ c.items)
    (hin : it.node = i.node) :
    it.hasKey i.tenant node.id i.kind i.name = it.keyed i.kind i.name := by
  obtain ⟨hmem, ht, hid, -⟩ := Tables.nodeById?_some hnode
  obtain ⟨htn, -⟩ := hw.item_of_node hmem hit (hin.trans hid.symm)
  simp [ItemRow.hasKey, ItemRow.keyed, htn, ht, hin, hid]

/-- An item write leaves below its node the rows of other kinds or names and its own row, in
some order, and the items of every other node as they were. -/
theorem upsertItem_itemsOf (hw : c.Wf) {i : ItemInput} {row : ItemRow}
    (h : upsertItem i c = .ok (row, c')) :
    row.entry = i.entry ∧
      (c'.itemsOf i.node).Perm ((c.itemsOf i.node).filter (!·.keyed i.kind i.name) ++ [row]) ∧
      ∀ id, id ≠ i.node → c'.itemsOf id = c.itemsOf id := by
  obtain ⟨node, hnode, ⟨old, hfind, rfl, rfl⟩ | ⟨hfind, rfl, rfl⟩⟩ := upsertItem_ok h
  · -- the row of that key is rewritten where it stands, between rows of other keys
    obtain ⟨hnm, -, hid, -⟩ := Tables.nodeById?_some hnode
    obtain ⟨hk, as, bs, hsplit, has⟩ := List.find?_eq_some_iff_append.1 hfind
    obtain ⟨-, hon, hok, hona⟩ := ItemRow.hasKey_iff.1 hk
    have hold : old ∈ c.items := hsplit ▸ List.mem_append_right _ List.mem_cons_self
    have hids := hw.itemIds
    have hkeys := hw.itemKeys
    rw [hsplit, List.map_append, List.map_cons, List.nodup_middle, List.nodup_cons] at hids hkeys
    -- no other row of the node has the write's kind and name: before `old` by the search,
    -- after it because natural keys are unique
    have hothers : ∀ b ∈ as ++ bs, b.node = node.id → b.keyed i.kind i.name = false := by
      intro b hb hbn
      rcases List.mem_append.1 hb with hb | hb
      · have hin : b ∈ c.items := hsplit ▸ List.mem_append_left _ hb
        simpa [hw.hasKey_iff_keyed hnode hin (hbn.trans hid)] using has b hb
      · have hin : b ∈ c.items := hsplit ▸ List.mem_append_right _ (List.mem_cons_of_mem _ hb)
        obtain ⟨hbt, hbr⟩ := hw.item_of_node hnm hin hbn
        obtain ⟨hot, hor⟩ := hw.item_of_node hnm hold hon
        by_contra hkb
        simp only [ItemRow.keyed, Bool.not_eq_false, Bool.and_eq_true, beq_iff_eq] at hkb
        refine hkeys.1 (List.mem_append_right _ (List.mem_map.2 ⟨b, hb, ?_⟩))
        simp [ItemRow.naturalKey, hbt, hbr, hot, hor, hbn, hon, hkb.1, hkb.2, hok, hona]
    have hreplace : replaceWhere (·.id == old.id) (fun _ => old.rewritten i node)
        (as ++ old :: bs) = as ++ old.rewritten i node :: bs := by
      refine replaceWhere_append_cons as bs (fun a ha => ?_) (by simp)
      have hne : a.id ≠ old.id := fun he =>
        hids.1 (List.mem_append_left _ (List.mem_map.2 ⟨a, ha, he⟩))
      simpa using hne
    simp only [Tables.itemsOf, hsplit, hreplace]
    rw [← hid]
    refine ⟨by simp [ItemRow.entry, ItemInput.entry, ItemRow.rewritten, hok, hona], ?_, ?_⟩
    · have hkeep : ∀ l : List ItemRow, (∀ b ∈ l, b ∈ as ++ bs) →
          (l.filter (·.node == node.id)).filter (!·.keyed i.kind i.name) =
            l.filter (·.node == node.id) := fun l hl =>
        List.filter_eq_self.2 fun b hb => by
          simp only [List.mem_filter, beq_iff_eq] at hb
          simp [hothers b (hl b hb.1) hb.2]
      have hold_keyed : old.keyed i.kind i.name = true := by simp [ItemRow.keyed, hok, hona]
      simp only [List.filter_append, List.filter_cons, hon, ItemRow.rewritten,
        beq_self_eq_true, if_true, hold_keyed, Bool.not_true, Bool.false_eq_true, if_false]
      rw [hkeep as fun b hb => List.mem_append_left _ hb,
        hkeep bs fun b hb => List.mem_append_right _ hb]
      exact List.perm_middle.trans (List.perm_append_singleton _ _).symm
    · intro id hne
      have hno : (node.id == id) = false := by simpa using Ne.symm hne
      simp [List.filter_append, hon, hno, ItemRow.rewritten]
  · -- a row of a new key is appended
    obtain ⟨-, -, hid, -⟩ := Tables.nodeById?_some hnode
    have hnone : (c.itemsOf i.node).filter (!·.keyed i.kind i.name) = c.itemsOf i.node :=
      List.filter_eq_self.2 fun it hit => by
        simp only [Tables.itemsOf, List.mem_filter, beq_iff_eq] at hit
        have hnot := List.find?_eq_none.1 hfind it hit.1
        rw [hw.hasKey_iff_keyed hnode hit.1 hit.2] at hnot
        simpa using hnot
    refine ⟨rfl, ?_, fun id hne => ?_⟩
    · rw [hnone]
      simp [Tables.itemsOf, ItemRow.fresh, hid]
    · simp [Tables.itemsOf, ItemRow.fresh, hid, Ne.symm hne]

/-- An item write replaces its node's entry of the written kind and name by the written one. -/
theorem upsertItem_entriesOf (hw : c.Wf) {i : ItemInput} {row : ItemRow}
    (h : upsertItem i c = .ok (row, c')) :
    (c'.entriesOf i.node).Perm ((c.entriesOf i.node).filter (!·.sameKey i.entry) ++ [i.entry]) := by
  obtain ⟨hrow, hperm, -⟩ := upsertItem_itemsOf hw h
  have hmap := hperm.map ItemRow.entry
  rwa [List.map_append, map_entry_filter_keyed, List.map_singleton, hrow] at hmap

/-- Once the subtree below a node is cleared, the node holds no entry. -/
theorem Tables.Wf.entriesOf_clearedBelow (hw : c.Wf) {node : NodeRow} (hnm : node ∈ c.nodes) :
    (c.clearedBelow node).entriesOf node.id = [] := by
  have hnone := (hw.clearedBelow_childless hnm).2
  simpa [Tables.entriesOf, Tables.itemsOf, List.filter_eq_nil_iff] using hnone

/-- Whether an item row is the table or the view named `name`. -/
def ItemRow.namesTable (i : ItemRow) (name : String) : Bool :=
  (i.kind == .table || i.kind == .view) && i.name == name

/-- Dropping the table and the view of a name, in either order, drops every row that names it. -/
theorem filter_not_keyed_table_view (l : List ItemRow) (name : String) :
    (l.filter (!·.keyed .table name)).filter (!·.keyed .view name) = l.filter (!·.namesTable name) ∧
      (l.filter (!·.keyed .view name)).filter (!·.keyed .table name) =
        l.filter (!·.namesTable name) := by
  constructor <;> rw [List.filter_filter] <;> refine List.filter_congr fun i _ => ?_ <;>
    cases hk : i.kind <;> cases hn : (i.name == name) <;>
    simp only [ItemRow.keyed, ItemRow.namesTable, hk, hn] <;> decide

/-- Removing an item of a node by kind and name drops it from the node's items, and leaves the
items of every other node. -/
theorem Tables.Wf.itemsOf_deleted (hw : c.Wf) {N : NodeRow} (hN : N ∈ c.nodes) (k : ItemKind)
    (name : String) (id : NodeId) :
    ({ c with items := c.items.filter fun i => !i.hasKey N.tenant N.id k name } : Tables).itemsOf
        id = if id = N.id then (c.itemsOf id).filter (!·.keyed k name) else c.itemsOf id := by
  unfold Tables.itemsOf
  rw [List.filter_filter]
  split_ifs with h
  · subst h
    rw [List.filter_filter]
    refine List.filter_congr fun i hi => ?_
    by_cases hn : i.node = N.id
    · obtain ⟨ht, -⟩ := hw.item_of_node hN hi hn
      simp [ItemRow.hasKey, ItemRow.keyed, hn, ht, Bool.and_comm]
    · have hno : (i.node == N.id) = false := by simpa using hn
      simp [hno]
  · refine List.filter_congr fun i hi => ?_
    by_cases hn : i.node = id
    · have hno : (id == N.id) = false := by simpa using h
      simp [ItemRow.hasKey, hn, hno]
    · have hno : (i.node == id) = false := by simpa using hn
      simp [hno]

/-- A node row with its aggregate set to `a`. -/
def NodeRow.withAggregate (n : NodeRow) (a : Aggregate) : NodeRow :=
  { n with itemCount := a.itemCount, totalSize := a.totalSize }

theorem setNodeAggregate_withAggregate (t : TenantId) (id : NodeId) (a : Aggregate) (c : Tables) :
    setNodeAggregate t id a c =
      .ok ((), { c with nodes := updateWhere (·.isNode t id) (·.withAggregate a) c.nodes }) := rfl

/-- Setting the aggregate of a root leaves what its children and items sum to: the root is not
among its own children. -/
theorem Tables.sumChildren_resized {N : NodeRow}
    (hroot : ∀ x ∈ c.nodes, x.id = N.id → x.parent = none) (a : Aggregate) :
    ({ c with nodes := updateWhere (·.isNode N.tenant N.id) (·.withAggregate a) c.nodes } :
      Tables).sumChildren N.tenant N.id = c.sumChildren N.tenant N.id := by
  have hkids := filter_updateWhere (l := c.nodes) (p := (·.isNode N.tenant N.id))
    (q := fun n => n.tenant == N.tenant && n.parent == some N.id && n.isLive)
    (f := (·.withAggregate a)) fun x hx hp => by
      simp only [NodeRow.isNode, Bool.and_eq_true, beq_iff_eq] at hp
      simp [hroot x hx hp.2, NodeRow.withAggregate]
  simp only [Tables.sumChildren, hkids]

end Items

/-- A node write that gives attributes leaves its row with them. -/
theorem upsertNode_attributes {c c' : Tables} {i : NodeInput} {row : NodeRow} {a : NodeAttributes}
    (h : upsertNode i c = .ok (row, c')) (ha : i.attributes = some a) : row.attributes = a := by
  obtain ⟨parent, -, ⟨old, -, rfl, -⟩ | ⟨-, -, rfl, -⟩⟩ := upsertNode_ok h <;>
    simp [NodeRow.rewritten, NodeRow.fresh, ha]

end DataCatalog.Catalog

namespace DataCatalog.Source

open DataCatalog.Catalog DataCatalog.Connect

variable {s : RelationalSource} {schema : String} {t : TableSummary} {rest : List TableSummary}

/-- The tables of `tables` whose columns the source lists, each with its columns. -/
def RelationalSource.readTables (s : RelationalSource) (schema : String)
    (tables : List TableSummary) : List (TableSummary × List Column) :=
  tables.filterMap fun t => (s.answer (scanFields schema t.name)).toOption.map fun fs => (t, fs)

/-- The entry a table is recorded as: a view when its type says so, with its row estimate, its
size (none counts as zero, and no size is negative), and its type, comment and columns. -/
def TableSummary.entry (t : TableSummary) (fields : List Column) : ItemEntry :=
  ⟨if t.isView then .view else .table, t.name, t.rowEstimate, max 0 (t.sizeBytes.getD 0),
    .table t.kind t.comment fields⟩

/-- The entries of the tables of `tables` whose columns the source lists. -/
def RelationalSource.readEntries (s : RelationalSource) (schema : String)
    (tables : List TableSummary) : List ItemEntry :=
  (s.readTables schema tables).map fun p => p.1.entry p.2

theorem RelationalSource.readTables_cons_ok {fields : List Column}
    (h : s.answer (scanFields schema t.name) = .ok fields) :
    s.readTables schema (t :: rest) = (t, fields) :: s.readTables schema rest := by
  simp [RelationalSource.readTables, h, Except.toOption]

theorem RelationalSource.readTables_cons_error {e : ConnectorError}
    (h : s.answer (scanFields schema t.name) = .error e) :
    s.readTables schema (t :: rest) = s.readTables schema rest := by
  simp [RelationalSource.readTables, h, Except.toOption]

end DataCatalog.Source

namespace DataCatalog.Scan

open DataCatalog.Catalog DataCatalog.Connect DataCatalog.Source

variable {s : RelationalSource} {node : NodeRow}

theorem tableItem_entry (node : NodeRow) (t : TableSummary) (fields : List Column) :
    (tableItem node t fields).entry = t.entry fields := by
  simp only [tableItem, ItemInput.entry, TableSummary.entry]

/-- Recording tables below a live node that holds the latest of the entries `done`: a recording
that goes through leaves the latest of `done` and of the entries of the readable tables, counts
the readable tables and their columns, writes no node, and leaves the recording possible. -/
theorem recordTables_entries (tables : List TableSummary) :
    ∀ {agg agg' : Aggregate} {counts counts' : ScanCounts} {done : List ItemEntry}
      {w w' : World}, (recordTables node tables agg counts).runAlone w = (.ok (agg', counts'), w') →
      Recording s node w → (w.catalog.entriesOf node.id).Perm (latestEntries done) →
      (w'.catalog.entriesOf node.id).Perm
          (latestEntries (done ++ s.readEntries node.name tables)) ∧
        counts'.items = counts.items + (s.readTables node.name tables).length ∧
        counts'.fields = counts.fields + ((s.readTables node.name tables).map (·.2.length)).sum ∧
        w'.catalog.nodes = w.catalog.nodes ∧ Recording s node w' := by
  induction tables with
  | nil =>
    intro agg agg' counts counts' done w w' h hr hperm
    obtain ⟨h₁, rfl⟩ := Step.pure_ok h
    cases h₁
    simpa [RelationalSource.readEntries, RelationalSource.readTables] using ⟨hperm, hr⟩
  | cons t rest ih =>
    intro agg agg' counts counts' done w w' h hr hperm
    unfold recordTables at h
    obtain ⟨r, w₁, h₁, h₂⟩ := Step.runAlone_bind_ok h
    obtain ⟨rfl, rfl⟩ := Step.tryRelational_ok h₁
    obtain ⟨hanswer, hagrees⟩ := hr.agrees.scanFields node.name t.name
    rw [hanswer] at h₂
    cases ha : s.answer (scanFields node.name t.name) with
    | error e =>
      -- a table whose columns cannot be read is skipped, unless the connection was lost
      rw [ha] at h₂
      dsimp only at h₂
      split at h₂
      · exact absurd h₂ Step.throw_ok
      · obtain ⟨hp, hi, hf, hn, hr'⟩ := ih h₂ ⟨hagrees, hr.wf, hr.live⟩ hperm
        simp only [RelationalSource.readEntries, RelationalSource.readTables_cons_error ha] at hp ⊢
        exact ⟨hp, hi, hf, hn, hr'⟩
    | ok fields =>
      -- a readable table is written, replacing the entry of its kind and name
      rw [ha] at h₂
      dsimp only at h₂
      obtain ⟨row, w₂, h₃, h₄⟩ := Step.runAlone_bind_ok h₂
      have hu := Step.inCatalogSpan_catalog h₃
      have hrel := Step.inCatalogSpan_relational h₃
      have hperm₂ : (w₂.catalog.entriesOf node.id).Perm
          (latestEntries (done ++ [t.entry fields])) := by
        have hentries := upsertItem_entriesOf hr.wf hu
        rw [tableItem_entry] at hentries
        rw [latestEntries_append_singleton]
        exact hentries.trans ((hperm.filter _).append_right _)
      obtain ⟨hp, hi, hf, hn, hr'⟩ := ih h₄ ⟨hrel ▸ hagrees, upsertItem_wf hr.wf hu,
        upsertItem_keeps_live hu hr.live⟩ hperm₂
      obtain ⟨-, -, -, -, -, -, hnodes⟩ := upsertItem_written hu
      simp only [RelationalSource.readEntries, RelationalSource.readTables_cons_ok ha,
        List.map_cons, List.length_cons, List.sum_cons] at hp ⊢
      refine ⟨by simpa using hp, by rw [hi]; dsimp only; omega, by rw [hf]; dsimp only; omega,
        hn.trans hnodes, hr'⟩

/-- Clearing a live node and recording the tables its schema lists: a rebuild that goes through
found the tables listed, leaves below the node the latest entry of each readable table and
nothing else, counts the readable tables and their columns, and adds no node. -/
theorem replaceTables_entries {w w' : World} {agg : Aggregate} {k : ScanCounts}
    (h : (replaceTables node).runAlone w = (.ok (agg, k), w')) (hr : Recording s node w) :
    ∃ tables, s.answer (scanTables node.name) = .ok tables ∧
      (w'.catalog.entriesOf node.id).Perm (latestEntries (s.readEntries node.name tables)) ∧
      k.items = (s.readTables node.name tables).length ∧
      k.fields = ((s.readTables node.name tables).map (·.2.length)).sum ∧
      (∀ m ∈ w'.catalog.nodes, m ∈ w.catalog.nodes) ∧ Recording s node w' := by
  unfold replaceTables at h
  obtain ⟨_, w₁, h₁, h₂⟩ := Step.runAlone_bind_ok h
  obtain ⟨n, hn, hc₁⟩ := clearSubtree_ok (Step.inCatalogSpan_catalog h₁)
  obtain ⟨hnm, -, hid, -⟩ := Tables.nodeById?_some hn
  obtain ⟨-, hlive⟩ := clearSubtree_of_live hn
  obtain ⟨tables, w₂, h₃, h₄⟩ := Step.runAlone_bind_ok h₂
  obtain ⟨hrun, rfl⟩ := Step.inRelational_ok h₃
  rw [Step.inCatalogSpan_relational h₁] at hrun h₄
  obtain ⟨hanswer, hagrees⟩ := hr.agrees.scanTables node.name
  -- the node is left with no entry, and the tables are recorded from there
  have hempty : w₁.catalog.entriesOf node.id = [] := by
    rw [hc₁, ← hid]
    exact hr.wf.entriesOf_clearedBelow hnm
  have hrec : Recording s node { w₁ with relational := _ } :=
    ⟨hagrees, hc₁ ▸ hr.wf.clearedBelow hnm, hc₁ ▸ hlive⟩
  have hnone : (w₁.catalog.entriesOf node.id).Perm (latestEntries []) := by
    rw [hempty]
    rfl
  obtain ⟨hp, hi, hf, hnodes, hr'⟩ := recordTables_entries tables h₄ hrec hnone
  refine ⟨tables, hanswer ▸ hrun, by simpa using hp, by simpa using hi, by simpa using hf,
    fun m hm => ?_, hr'⟩
  have hm₁ : m ∈ w₁.catalog.nodes := hnodes ▸ hm
  rw [hc₁] at hm₁
  exact (List.mem_filter.1 hm₁).1

/-- What a schema pass that went through leaves on the node `n` of its schema, against a source
that answers as `s`: the source listed `tables` and lost no connection over them; `n` is live,
scanned with no error and carries the schema's own figures; its items are, in some order, the
latest entry of each kind and name among the tables whose columns could be read; and the counts
are one namespace, the readable tables, their columns and the tables skipped. -/
structure SchemaRecorded (s : RelationalSource) (schema : SchemaSummary)
    (tables : List TableSummary) (c : Tables) (n : NodeRow) (counts : ScanCounts) : Prop where
  listed : s.answer (scanTables schema.name) = .ok tables
  kept : ∀ t ∈ tables, s.losesFields schema.name t = false
  live : n.isLive
  scanned : n.scanStatus = .scanned ∧ n.errorMessage = none
  attributes : n.attributes =
    .namespaceInfo schema.tableCount schema.sizeBytes schema.charset schema.collation
  items : (c.entriesOf n.id).Perm (latestEntries (s.readEntries schema.name tables))
  counted : counts = ⟨1, (s.readTables schema.name tables).length,
    ((s.readTables schema.name tables).map (·.2.length)).sum,
    tables.countP (s.failsFields schema.name)⟩

/-- A schema pass that goes through, from a well-formed catalog and against a source that
answers as `s`, leaves the node of its schema live and scanned with the schema's figures, below
it exactly the latest entry of each readable table, and counts what it read and skipped. -/
theorem schemaPass_records_readable_tables (resource : ResourceRow) (kind : ResourceKind)
    (schema : SchemaSummary) (s : RelationalSource) :
    (reconcileSchema resource kind schema).Ensures
      (fun w => w.catalog.Wf ∧ w.relational.Agrees s)
      fun counts w' => ∃ n tables, w'.catalog.getNode resource.tenant resource.id none
          kind.namespaceKind schema.name = some n ∧
        SchemaRecorded s schema tables w'.catalog n counts := by
  intro w counts w' ⟨hw, hs⟩ h
  rw [reconcileSchema_eq] at h
  obtain ⟨row, w₁, h₁, h₂⟩ := Step.runAlone_bind_ok h
  -- the schema's node is written, live, with the schema's figures
  have hu := Step.inCatalogSpan_catalog h₁
  obtain ⟨-, -, hkey, -, hmem, -, -⟩ := upsertNode_written hu
  obtain ⟨hlive, -⟩ := upsertNode_aggregate hu
  have hattr := upsertNode_attributes hu rfl
  simp only [NodeRow.naturalKey, Prod.mk.injEq] at hkey
  obtain ⟨ht, hres, hpar, hkind, hname⟩ := hkey
  have hw₁ := upsertNode_wf hw hu
  -- its scan begins, and the rebuild runs against the source as the pass found it
  have hfound := Tables.nodeById?_isSome_of_mem hmem hlive
  obtain ⟨c₂, hbegin⟩ := beginNodeScan_of_live hfound
  have hw₂ := beginNodeScan_wf hw₁ hbegin
  have hrec : Recording s row { w₁ with catalog := c₂ } :=
    ⟨(Step.inCatalogSpan_relational h₁).symm ▸ hs, hw₂, beginNodeScan_keeps_live hbegin hfound⟩
  rw [← ht, subtreePass_runAlone _ hbegin] at h₂
  have hbegun : row.begun (Time.Instant.ofMillis w₁.catalog.clock) ∈ c₂.nodes := by
    rw [(beginNodeScan_ok hbegin).2]
    exact List.mem_map.2 ⟨row, hmem, by simp [NodeRow.isNode]⟩
  rcases hb : (replaceTables row).runAlone { w₁ with catalog := c₂ } with ⟨e | ⟨agg, k⟩, w₂⟩
  · -- a failed rebuild fails the pass
    rw [hb] at h₂
    dsimp only at h₂
    split at h₂ <;> simp at h₂
  rw [hb, Prod.mk.injEq, Except.ok.injEq] at h₂
  obtain ⟨rfl, rfl⟩ := h₂
  obtain ⟨tables, hlisted, hitems, hi, hf, hsub, hr₂⟩ := replaceTables_entries hb hrec
  -- the rebuild skipped the tables whose columns could not be read, and lost none
  have hrt := replaceTables_records hrec
  rw [hb, hlisted] at hrt
  obtain ⟨c₀, hlost, hcounts⟩ := hrt
  obtain ⟨hsk, -, -, -⟩ := hcounts agg k rfl
  have hkept : ∀ t ∈ tables, s.losesFields row.name t = false := fun t ht => by
    by_contra hl
    obtain ⟨_, he⟩ := hlost.2 (List.any_eq_true.2 ⟨t, ht, by simpa using hl⟩)
    cases he
  -- the begun row is still there after the rebuild, and the finish makes it scanned
  obtain ⟨m, hm, hmnode, hmlive⟩ := Tables.nodeById?_isSome_iff.1 hr₂.live
  simp only [NodeRow.isNode, Bool.and_eq_true, beq_iff_eq] at hmnode
  obtain rfl : m = row.begun (Time.Instant.ofMillis w₁.catalog.clock) :=
    hw₂.node_eq_of_id (hsub m hm) hbegun hmnode.2
  have hfin := finishNodeScan_run row.tenant row.id agg w₂.catalog
  refine ⟨(row.begun (Time.Instant.ofMillis w₁.catalog.clock)).finished
    (Time.Instant.ofMillis w₂.catalog.clock) agg, tables, ?_, ⟨hname ▸ hlisted, hname ▸ hkept, hmlive, ⟨rfl, rfl⟩,
    by simpa [NodeRow.finished, NodeRow.begun] using hattr, hname ▸ hitems, ?_⟩⟩
  · rw [← ht, ← hres, ← hpar, ← hkind, ← hname]
    refine (finishNodeScan_wf hr₂.wf hfin).getNode_of_key
      (List.mem_map.2 ⟨_, hm, by simp [NodeRow.isNode, NodeRow.begun]⟩) rfl hmlive
  · -- the counts are the rebuild's, as one namespace
    cases k
    rw [← hname]
    simp only at hi hf hsk
    simp [hi, hf, hsk]

/-- A schema pass over `sales`, whose table `orders` has one column and whose view `totals`
cannot be read, goes through from a catalog that registers its resource. -/
theorem sales_schema_recorded :
    let r : ResourceRow := ⟨⟨"r"⟩, ⟨1⟩, ⟨1⟩, "postgres", "", "r", [], .active, 0, none, ⟨0, 0⟩,
      ⟨0, 0⟩⟩
    let sales : SchemaSummary := ⟨"sales", some 2, none, none, none⟩
    let orders : TableSpec :=
      { name := "orders", fields := [{ name := "id", ordinal := 1, dataType := "int8", nullable := false }] }
    let totals : TableSpec := { name := "totals", kind := "VIEW" }
    let s : RelationalSource :=
      { schemas := [{ name := "sales", tables := [orders, totals] }],
        failures := [("fields:sales.totals", .enumeration "sales.totals" "gone")] }
    let w : World := { catalog := { resources := [r] }, relational := s }
    ∃ counts w', (reconcileSchema r .postgres sales).runAlone w = (.ok counts, w') ∧
      ∃ n tables, w'.catalog.getNode r.tenant r.id none ResourceKind.postgres.namespaceKind
          sales.name = some n ∧ SchemaRecorded s sales tables w'.catalog n counts := by
  intro r sales orders totals s w
  have hw : w.catalog.Wf := by constructor <;> simp [w]
  have hok : ((reconcileSchema r .postgres sales).runAlone w).1 = .ok ⟨1, 1, 1, 1⟩ := by
    decide +kernel
  have hrun : (reconcileSchema r .postgres sales).runAlone w =
      (.ok ⟨1, 1, 1, 1⟩, ((reconcileSchema r .postgres sales).runAlone w).2) := Prod.ext hok rfl
  refine ⟨_, _, hrun, ?_⟩
  exact schemaPass_records_readable_tables r .postgres sales s (w := w) ⟨hw, .refl s⟩ hrun

/-! ## The table pass -/

theorem Step.runAlone_inRelational {α : Type} (call : RelationalCall α) (w : World) :
    (inRelational call).runAlone w =
      (((ExceptT.run call).run w.relational).1.mapError ScanError.ofConnector,
        { w with relational := ((ExceptT.run call).run w.relational).2 }) := by
  unfold inRelational
  rw [Step.runAlone_bind, Step.runAlone_tryRelational]
  dsimp only
  rw [Step.runAlone_ofExcept]

theorem sumChildren_run (t : Ident.TenantId) (id : Ident.NodeId) (c : Tables) :
    sumChildren t id c = match c.sumChildren t id with
      | .ok a => .ok (a, c)
      | .error e => .error e := by
  unfold sumChildren
  cases h : c.sumChildren t id <;>
    simp [h, bind, StateT.bind, get, getThe, MonadStateOf.get, StateT.get, Except.bind, pure,
      StateT.pure, Except.pure, Store.fail]

/-- Summing a node's children and setting its aggregate to the sum, then answering `counts`. -/
theorem Step.runAlone_recompute (t : Ident.TenantId) (id : Ident.NodeId) (counts : ScanCounts)
    (w : World) :
    (do
      let agg ← inCatalog (sumChildren t id)
      inCatalog (setNodeAggregate t id agg)
      pure counts : Step ScanCounts).runAlone w =
      match w.catalog.sumChildren t id with
      | .ok agg => (.ok counts, { w with catalog := { w.catalog with
          nodes := updateWhere (·.isNode t id) (·.withAggregate agg) w.catalog.nodes } })
      | .error e => (.error (.persistence e), w) := by
  rw [Step.runAlone_bind, Step.runAlone_inCatalog, sumChildren_run]
  cases w.catalog.sumChildren t id with
  | error e => rfl
  | ok agg =>
    dsimp only
    rw [Step.runAlone_bind, Step.runAlone_inCatalog, setNodeAggregate_withAggregate]
    rfl

/-- How a table pass leaves the rows of its namespace, from `before` to `after`, given the
tables the source lists: when none is named `table`, the table and the view of that name are
gone; otherwise they give way to one row, with the entry of the first table of that name and
the columns the source lists for it. -/
inductive TableRows (s : RelationalSource) (schema table : String) (tables : List TableSummary)
    (before after : List ItemRow) : ScanCounts → Prop
  | vanished : tables.find? (·.name == table) = none →
      after = before.filter (!·.namesTable table) → TableRows s schema table tables before after {}
  | recorded {summary : TableSummary} {fields : List Column} {row : ItemRow} :
      tables.find? (·.name == table) = some summary →
      s.answer (scanFields schema table) = .ok fields → row.entry = summary.entry fields →
      after.Perm (before.filter (!·.namesTable table) ++ [row]) →
      TableRows s schema table tables before after { items := 1, fields := fields.length }

/-- What a table pass wrote below the namespace `N`, from `c` to `c'`: the source listed its
tables, the namespace's rows changed as `TableRows` says, and no other node's items changed. -/
structure TableRewritten (s : RelationalSource) (schema table : String) (c c' : Tables)
    (N : NodeRow) (counts : ScanCounts) : Prop where
  listed : ∃ tables, s.answer (scanTables schema) = .ok tables ∧
    TableRows s schema table tables (c.itemsOf N.id) (c'.itemsOf N.id) counts
  others : ∀ id, id ≠ N.id → c'.itemsOf id = c.itemsOf id

/-- How a table pass over the namespace `N?` the catalog holds can end, from `c` to `c'`. -/
inductive TableRefresh (s : RelationalSource) (schema table : String) (c c' : Tables)
    (N? : Option NodeRow) : Except ScanError ScanCounts → Prop
  /-- Nothing was written: the namespace is not in the catalog, or the source failed. -/
  | untouched {e : ScanError} : c' = c → TableRefresh s schema table c c' N? (.error e)
  /-- The table's rows were rewritten, and the namespace's aggregate, and nothing else of any
  node, set to what its live children and items sum to. -/
  | resized {N : NodeRow} {counts : ScanCounts} {agg : Aggregate} : N? = some N →
      TableRewritten s schema table c c' N counts → c'.sumChildren N.tenant N.id = .ok agg →
      c'.nodes = updateWhere (·.isNode N.tenant N.id) (·.withAggregate agg) c.nodes →
      TableRefresh s schema table c c' N? (.ok counts)
  /-- The table's rows were rewritten, then summing the namespace failed; no node changed. -/
  | unsummed {N : NodeRow} {counts : ScanCounts} {se : StoreError} : N? = some N →
      TableRewritten s schema table c c' N counts → c'.sumChildren N.tenant N.id = .error se →
      c'.nodes = c.nodes → TableRefresh s schema table c c' N? (.error (.persistence se))

section Refresh

variable {s : RelationalSource} {schema table : String} {c c₂ : Tables} {N : NodeRow}
  {counts : ScanCounts}

/-- Rows rewritten below a root, with the nodes kept, and then a sum that goes through: the pass
answers its counts with the root's aggregate set to the sum. -/
theorem TableRefresh.of_summed (hw : c.Wf) (hN : N ∈ c.nodes) (hroot : N.parent = none)
    (hrw : TableRewritten s schema table c c₂ N counts) (hnodes : c₂.nodes = c.nodes)
    {agg : Aggregate} (hs : c₂.sumChildren N.tenant N.id = .ok agg) :
    TableRefresh s schema table c
      { c₂ with nodes := updateWhere (·.isNode N.tenant N.id) (·.withAggregate agg) c₂.nodes }
      (some N) (.ok counts) := by
  -- the root is the only row of its id, and it is no child of itself
  have hroots : ∀ x ∈ c₂.nodes, x.id = N.id → x.parent = none := fun x hx hid => by
    rw [hnodes] at hx
    rw [hw.node_eq_of_id hx hN hid, hroot]
  exact .resized rfl ⟨hrw.1, hrw.2⟩ ((Tables.sumChildren_resized hroots agg).trans hs)
    (by rw [hnodes])

/-- Removing the table and then the view named `table` below a live namespace, when the source
lists no table of that name, drops just those rows. -/
theorem TableRewritten.vanished {c₁ : Tables} (hw : c.Wf) (hN : N ∈ c.nodes)
    {tables : List TableSummary} (htables : s.answer (scanTables schema) = .ok tables)
    (hfind : tables.find? (·.name == table) = none)
    (h₁ : c₁ = { c with items := c.items.filter fun i => !i.hasKey N.tenant N.id .table table })
    (h₂ : c₂ = { c₁ with items := c₁.items.filter fun i => !i.hasKey N.tenant N.id .view table }) :
    TableRewritten s schema table c c₂ N {} := by
  subst h₁ h₂
  have hw₁ : ({ c with items := c.items.filter fun i => !i.hasKey N.tenant N.id .table table } :
      Tables).Wf := hw.of_filter_items rfl rfl (Nat.le_refl _)
  refine ⟨⟨tables, htables, .vanished hfind ?_⟩, fun id hid => ?_⟩
  · rw [hw₁.itemsOf_deleted hN, if_pos rfl, hw.itemsOf_deleted hN, if_pos rfl]
    exact (filter_not_keyed_table_view _ _).1
  · rw [hw₁.itemsOf_deleted hN, if_neg hid, hw.itemsOf_deleted hN, if_neg hid]

/-- Removing the row of the other kind named `table` below a live namespace and writing the
table's item, when the source lists it with its columns, leaves one row in place of both. -/
theorem TableRewritten.recorded {c₁ : Tables} (hw : c.Wf) (hN : N ∈ c.nodes)
    {tables : List TableSummary} (htables : s.answer (scanTables schema) = .ok tables)
    {summary : TableSummary} (hfind : tables.find? (·.name == table) = some summary)
    {fields : List Column} (hfields : s.answer (scanFields schema table) = .ok fields)
    (h₁ : c₁ = { c with
      items := c.items.filter fun i => !i.hasKey N.tenant N.id
        (if ((tableItem N summary fields).kind == .view) = true then .table else .view) table })
    {row : ItemRow} (hu : upsertItem (tableItem N summary fields) c₁ = .ok (row, c₂)) :
    TableRewritten s schema table c c₂ N { items := 1, fields := fields.length } := by
  subst h₁
  have hw₁ : ({ c with
      items := c.items.filter fun i => !i.hasKey N.tenant N.id
        (if ((tableItem N summary fields).kind == .view) = true then .table else .view) table } :
      Tables).Wf := hw.of_filter_items rfl rfl (Nat.le_refl _)
  obtain ⟨hentry, hperm, hothers⟩ := upsertItem_itemsOf hw₁ hu
  have hnode : (tableItem N summary fields).node = N.id := rfl
  rw [hnode] at hperm hothers
  have hname : summary.name = table := by simpa using List.find?_some hfind
  -- the row of the other kind went first, the row of the table's own kind with the write
  have hboth : ((c.itemsOf N.id).filter (!·.keyed
      (if ((tableItem N summary fields).kind == .view) = true then .table else .view) table)).filter
        (!·.keyed (tableItem N summary fields).kind (tableItem N summary fields).name) =
      (c.itemsOf N.id).filter (!·.namesTable table) := by
    simp only [tableItem, hname]
    cases summary.isView
    · exact (filter_not_keyed_table_view _ _).2
    · exact (filter_not_keyed_table_view _ _).1
  refine ⟨⟨tables, htables, .recorded hfind hfields (hentry.trans (tableItem_entry _ _ _)) ?_⟩,
    fun id hid => ?_⟩
  · rw [hw.itemsOf_deleted hN, if_pos rfl, hboth] at hperm
    exact hperm
  · rw [hothers id hid, hw.itemsOf_deleted hN, if_neg hid]

end Refresh

/-- A table pass, run alone from a well-formed catalog, answers as `TableRefresh` says: a success
rewrote the rows of the table below the namespace the catalog holds and set the namespace's
aggregate to what it sums to; a failure changed no node, and changed rows only when that sum
failed after they were rewritten. -/
theorem tablePass_refreshes_one_table (resource : ResourceRow) (kind : ResourceKind)
    (schema table : String) {w : World} (hw : w.catalog.Wf) :
    TableRefresh w.relational schema table w.catalog
      ((reconcileTable resource kind schema table).runAlone w).2.catalog
      (w.catalog.getNode resource.tenant resource.id none kind.namespaceKind schema)
      ((reconcileTable resource kind schema table).runAlone w).1 := by
  unfold reconcileTable
  rw [Step.runAlone_bind, Step.runAlone_readCatalog]
  dsimp only
  cases hN : w.catalog.getNode resource.tenant resource.id none kind.namespaceKind schema with
  | none =>
    -- a namespace not in the catalog is refused before anything is read or written
    exact .untouched rfl
  | some N =>
    obtain ⟨hmem, hkey, hlive⟩ := Tables.getNode_some hN
    simp only [NodeRow.naturalKey, Prod.mk.injEq] at hkey
    obtain ⟨ht, -, hroot, -, -⟩ := hkey
    dsimp only
    rw [← ht, Step.runAlone_bind, Step.runAlone_inRelational]
    obtain ⟨-, hagrees⟩ := (RelationalSource.Agrees.refl w.relational).scanTables schema
    cases htables : ((ExceptT.run (scanTables schema)).run w.relational).1 with
    | error e =>
      -- the tables cannot be listed: nothing was written
      exact .untouched rfl
    | ok tables =>
      dsimp only [Except.mapError]
      cases hfind : tables.find? (·.name == table) with
      | none =>
        dsimp only
        rw [Step.runAlone_bind, Step.runAlone_inCatalog, deleteItem_run]
        dsimp only
        rw [Step.runAlone_bind, Step.runAlone_inCatalog, deleteItem_run]
        dsimp only
        rw [Step.runAlone_bind, Step.runAlone_pure]
        dsimp only
        rw [Step.runAlone_recompute]
        have hrw := TableRewritten.vanished (s := w.relational) hw hmem htables hfind rfl rfl
        split
        · next agg hs => exact .of_summed hw hmem hroot hrw rfl hs
        · next se hs => exact .unsummed rfl hrw hs rfl
      | some summary =>
        dsimp only
        rw [Step.runAlone_bind, Step.runAlone_inRelational]
        obtain ⟨hfanswer, -⟩ := hagrees.scanFields schema table
        cases hfields : ((ExceptT.run (scanFields schema table)).run
            ((ExceptT.run (scanTables schema)).run w.relational).2).1 with
        | error e =>
          -- the columns cannot be read: nothing was written
          exact .untouched rfl
        | ok fields =>
          dsimp only [Except.mapError]
          rw [Step.runAlone_bind, Step.runAlone_inCatalog, deleteItem_run]
          dsimp only
          -- the namespace is live, so the table's item is written
          obtain ⟨row, c₂, hu⟩ := upsertItem_succeeds (i := tableItem N summary fields) (c := { w.catalog with
            items := w.catalog.items.filter fun i => !i.hasKey N.tenant N.id
              (if ((tableItem N summary fields).kind == .view) = true then .table else .view) table })
            (Tables.nodeById?_isSome_of_mem hmem hlive)
          unfold writeItem
          rw [Step.runAlone_bind, Step.runAlone_inCatalogSpan, hu]
          dsimp only
          rw [Step.runAlone_bind, Step.runAlone_pure]
          dsimp only
          rw [Step.runAlone_recompute]
          have hrw := TableRewritten.recorded (s := w.relational) hw hmem htables hfind
            (hfanswer ▸ hfields) rfl hu
          obtain ⟨-, -, -, -, -, -, hnodes⟩ := upsertItem_written hu
          split
          · next agg hs => exact .of_summed hw hmem hroot hrw hnodes hs
          · next se hs => exact .unsummed rfl hrw hs hnodes

/-- After a schema pass over `sales`, a table pass over `orders` goes through from the catalog
that pass left, which is well formed. -/
theorem sales_table_refreshed :
    let r : ResourceRow := ⟨⟨"r"⟩, ⟨1⟩, ⟨1⟩, "postgres", "", "r", [], .active, 0, none, ⟨0, 0⟩,
      ⟨0, 0⟩⟩
    let orders : TableSpec :=
      { name := "orders", fields := [{ name := "id", ordinal := 1, dataType := "int8", nullable := false }] }
    let s : RelationalSource := { schemas := [{ name := "sales", tables := [orders] }] }
    let w := ((reconcileSchema r .postgres ⟨"sales", some 1, none, none, none⟩).runAlone
      { catalog := { resources := [r] }, relational := s }).2
    w.catalog.Wf ∧ ((reconcileTable r .postgres "sales" "orders").runAlone w).1 = .ok ⟨0, 1, 1, 0⟩ ∧
      TableRefresh w.relational "sales" "orders" w.catalog
        ((reconcileTable r .postgres "sales" "orders").runAlone w).2.catalog
        (w.catalog.getNode r.tenant r.id none ResourceKind.postgres.namespaceKind "sales")
        ((reconcileTable r .postgres "sales" "orders").runAlone w).1 := by
  intro r orders s w
  have hw₀ : ({ resources := [r] } : Tables).Wf := by constructor <;> simp
  -- a schema pass writes only what keeps the catalog well formed
  have hw : w.catalog.Wf :=
    ((reconcileSchema_moves (u := r.tenant) (W := fun _ _ => True) (P := fun _ => True)
      (fun _ _ _ _ _ => trivial) (Tables.kept_const True) (fun _ _ => rfl) rfl _).run
      (w := { catalog := { resources := [r] }, relational := s }) hw₀ trivial).1.wf hw₀
  have hok : ((reconcileTable r .postgres "sales" "orders").runAlone w).1 = .ok ⟨0, 1, 1, 0⟩ := by
    decide +kernel
  -- the run's value is no longer needed; keeping it would let unification evaluate the run
  clear_value w
  exact ⟨hw, hok, tablePass_refreshes_one_table r .postgres "sales" "orders" hw⟩

/-- A table pass can fail after rewriting rows. Schema `sales` holds table `a` of one byte and
table `b` of 2^62 bytes; once it is scanned, `a` grows to 2^62 bytes and is refreshed. Its row
is rewritten, then summing the schema's items overflows: the pass fails with the overflow and
leaves the rewritten row. -/
theorem tablePass_overflow_keeps_rewritten_row :
    let r : ResourceRow := ⟨⟨"r"⟩, ⟨1⟩, ⟨1⟩, "postgres", "", "r", [], .active, 0, none, ⟨0, 0⟩,
      ⟨0, 0⟩⟩
    let a : TableSpec := { name := "a", size := some 1 }
    let b : TableSpec := { name := "b", size := some 4611686018427387904 }
    let w₁ := ((reconcileSchema r .postgres ⟨"sales", some 2, none, none, none⟩).runAlone
      { catalog := { resources := [r] },
        relational := { schemas := [{ name := "sales", tables := [a, b] }] } }).2
    let w₂ := { w₁ with relational :=
      { schemas := [{ name := "sales", tables := [{ a with size := some 4611686018427387904 }, b] }] } }
    let p := (reconcileTable r .postgres "sales" "a").runAlone w₂
    p.1 = .error (.persistence integerOverflow) ∧
      p.2.catalog.items.map (·.sizeBytes) ≠ w₂.catalog.items.map (·.sizeBytes) := by
  decide +kernel

end DataCatalog.Scan
