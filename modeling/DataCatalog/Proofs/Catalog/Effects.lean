import Mathlib
import DataCatalog.Catalog.Items
import DataCatalog.Catalog.Runs
/-!
# What each catalog operation does

Every catalog operation is a state transformer over the four tables. This module states, once
per operation, the tables it leaves behind: which rows it appends, which it replaces in place,
which it filters away, and when it fails. Later proofs cite these statements and never unfold
an operation again.
-/

namespace DataCatalog.Catalog

open DataCatalog.Ident

theorem requireNode_run (t : TenantId) (id : NodeId) (c : Tables) :
    requireNode t id c = match c.nodeById? t id with
      | some n => .ok (n, c)
      | none => .error (.notFound ("node " ++ id.text)) := by
  cases h : c.nodeById? t id <;>
    simp [requireNode, h, bind, StateT.bind, get, getThe, MonadStateOf.get, StateT.get, pure,
      StateT.pure, Except.pure, Except.bind, Store.fail]

/-- The parent a node write resolves to: none for a root, else the tenant's live node of that
id, in the same resource. -/
def ParentFound (i : NodeInput) (c : Tables) (parent : Option NodeRow) : Prop :=
  match i.parent with
  | none => parent = none
  | some pid => ∃ p, c.nodeById? i.tenant pid = some p ∧ p.resource = i.resource ∧ parent = some p

theorem parentFor_ok {i : NodeInput} {c c' : Tables} {parent : Option NodeRow}
    (h : parentFor i c = .ok (parent, c')) : ParentFound i c parent ∧ c' = c := by
  unfold parentFor at h
  cases hp : i.parent with
  | none =>
    simp only [hp, pure, StateT.pure, Except.pure, Except.ok.injEq, Prod.mk.injEq] at h
    simp [ParentFound, hp, h]
  | some pid =>
    cases hq : c.nodeById? i.tenant pid with
    | none =>
      simp [hp, hq, bind, StateT.bind, get, getThe, MonadStateOf.get, StateT.get, Except.bind,
        pure, Except.pure, Store.fail] at h
    | some q =>
      by_cases hr : q.resource = i.resource
      · simp [hp, hq, hr, bind, StateT.bind, get, getThe, MonadStateOf.get, StateT.get,
          Except.bind, pure, StateT.pure, Except.pure] at h
        obtain ⟨rfl, rfl⟩ := h
        refine ⟨?_, rfl⟩
        simp only [ParentFound, hp]
        exact ⟨q, hq, hr, rfl⟩
      · simp [hp, hq, hr, bind, StateT.bind, get, getThe, MonadStateOf.get, StateT.get,
          Except.bind, pure, Except.pure, Store.fail] at h

/-- The row a node write leaves for an existing row `old`, placed below `parent`. -/
def NodeRow.rewritten (old : NodeRow) (i : NodeInput) (parent : Option NodeRow) : NodeRow :=
  let (depth, pathPrefix, fullName) := placement parent i.kind i.name
  { old with
    depth := depth
    path := pathPrefix ++ old.id.text ++ "/"
    fullName := fullName
    attributes := i.attributes.getD old.attributes
    status := .active
    deletedAt := none
    syncVersion := old.syncVersion + 1 }

/-- The row a node write inserts with the minted id `id`, placed below `parent`. -/
def NodeRow.fresh (i : NodeInput) (id : String) (parent : Option NodeRow) : NodeRow :=
  let (depth, pathPrefix, fullName) := placement parent i.kind i.name
  ⟨⟨id⟩, i.tenant, i.resource, i.parent, i.kind, i.name, depth, pathPrefix ++ id ++ "/", fullName,
    .active, .unscanned, none, none, 0, 0, i.attributes.getD .empty, none, 1, none⟩

theorem upsertNode_ok {i : NodeInput} {c c' : Tables} {row : NodeRow}
    (h : upsertNode i c = .ok (row, c')) :
    ∃ parent, ParentFound i c parent ∧
      ((∃ old, c.nodes.find? (·.hasKey i.tenant i.resource i.parent i.kind i.name) = some old ∧
          row = old.rewritten i parent ∧
          c' = { c with serial := c.serial + 1,
                        nodes := replaceWhere (·.id == old.id) (fun _ => row) c.nodes }) ∨
        (c.nodes.find? (·.hasKey i.tenant i.resource i.parent i.kind i.name) = none ∧
          c.resources.any (·.id == i.resource) ∧
          row = NodeRow.fresh i (Uuid.ofSerial c.serial) parent ∧
          c' = { c with serial := c.serial + 1, nodes := c.nodes ++ [row] })) := by
  unfold upsertNode at h
  simp only [bind, StateT.bind] at h
  cases hp : parentFor i c with
  | error e => simp [hp, Except.bind] at h
  | ok pr =>
    obtain ⟨parent, c₁⟩ := pr
    obtain ⟨found, hc⟩ := parentFor_ok hp
    subst c₁
    refine ⟨parent, found, ?_⟩
    simp only [hp, Tables.mint, get, getThe, MonadStateOf.get, StateT.get, Except.bind, pure,
      Except.pure] at h
    cases ho : c.nodes.find? (·.hasKey i.tenant i.resource i.parent i.kind i.name) with
    | some old =>
      left
      simp [ho, set, StateT.set, StateT.bind, bind, Except.bind, pure, StateT.pure,
        Except.pure] at h
      obtain ⟨rfl, rfl⟩ := h
      exact ⟨old, rfl, rfl, rfl⟩
    | none =>
      right
      by_cases hr : c.resources.any (·.id == i.resource)
      · simp [ho, hr, set, StateT.set, StateT.bind, bind, Except.bind, pure, StateT.pure,
          Except.pure] at h
        obtain ⟨rfl, rfl⟩ := h
        exact ⟨rfl, hr, rfl, rfl⟩
      · simp [ho, hr, Store.fail] at h

/-- The row an item write leaves for an existing row `old` below `node`. -/
def ItemRow.rewritten (old : ItemRow) (i : ItemInput) (node : NodeRow) : ItemRow :=
  { old with
    fullName := node.fullName ++ node.kind.separator ++ i.name
    status := .active
    rowCount := i.rowCount
    sizeBytes := i.sizeBytes
    lastModifiedMs := i.lastModified.map Time.Instant.toMillis
    attributes := i.attributes
    syncVersion := old.syncVersion + 1 }

/-- The row an item write inserts below `node` with the minted id `id`. -/
def ItemRow.fresh (i : ItemInput) (id : String) (node : NodeRow) : ItemRow :=
  ⟨⟨id⟩, i.tenant, node.resource, node.id, i.kind, i.name,
    node.fullName ++ node.kind.separator ++ i.name, .active, i.rowCount, i.sizeBytes,
    i.lastModified.map Time.Instant.toMillis, i.attributes, 1⟩

theorem upsertItem_ok {i : ItemInput} {c c' : Tables} {row : ItemRow}
    (h : upsertItem i c = .ok (row, c')) :
    ∃ node, c.nodeById? i.tenant i.node = some node ∧
      ((∃ old, c.items.find? (·.hasKey i.tenant node.id i.kind i.name) = some old ∧
          row = old.rewritten i node ∧
          c' = { c with serial := c.serial + 1,
                        items := replaceWhere (·.id == old.id) (fun _ => row) c.items }) ∨
        (c.items.find? (·.hasKey i.tenant node.id i.kind i.name) = none ∧
          row = ItemRow.fresh i (Uuid.ofSerial c.serial) node ∧
          c' = { c with serial := c.serial + 1, items := c.items ++ [row] })) := by
  unfold upsertItem at h
  simp only [bind, StateT.bind, requireNode_run] at h
  cases hn : c.nodeById? i.tenant i.node with
  | none => simp [hn, Except.bind] at h
  | some node =>
    refine ⟨node, rfl, ?_⟩
    cases ho : c.items.find? (·.hasKey i.tenant node.id i.kind i.name) with
    | some old =>
      left
      simp [hn, ho, Tables.mint, get, getThe, MonadStateOf.get, StateT.get, set, StateT.set,
        StateT.bind, bind, Except.bind, pure, StateT.pure, Except.pure] at h
      obtain ⟨rfl, rfl⟩ := h
      exact ⟨old, rfl, rfl, rfl⟩
    | none =>
      right
      simp [hn, ho, Tables.mint, get, getThe, MonadStateOf.get, StateT.get, set, StateT.set,
        StateT.bind, bind, Except.bind, pure, StateT.pure, Except.pure] at h
      obtain ⟨rfl, rfl⟩ := h
      exact ⟨rfl, rfl, rfl⟩

theorem deleteItem_run (t : TenantId) (node : NodeId) (k : ItemKind) (name : String) (c : Tables) :
    deleteItem t node k name c = .ok (!(c.items.filter (·.hasKey t node k name)).isEmpty,
      { c with items := c.items.filter fun i => !i.hasKey t node k name }) := by
  simp only [deleteItem, List.partition_eq_filter_filter]
  rfl

theorem dropItemsOf_run (t : TenantId) (ids : List NodeId) (c : Tables) :
    dropItemsOf t ids c = .ok ((c.items.filter fun i => i.tenant == t && ids.contains i.node).length,
      { c with items := c.items.filter fun i => !(i.tenant == t && ids.contains i.node) }) := by
  simp only [dropItemsOf, List.partition_eq_filter_filter]
  rfl

/-- A delete of an item by its key keeps every other item, and says whether there was one. -/
theorem deleteItem_ok {t : TenantId} {node : NodeId} {k : ItemKind} {name : String}
    {c c' : Tables} {b : Bool} (h : deleteItem t node k name c = .ok (b, c')) :
    b = !(c.items.filter (·.hasKey t node k name)).isEmpty ∧
      c' = { c with items := c.items.filter fun i => !i.hasKey t node k name } := by
  rw [deleteItem_run, Except.ok.injEq, Prod.mk.injEq] at h
  exact ⟨h.1.symm, h.2.symm⟩

/-- Deleting the items of a node keeps the items of every other node. -/
theorem deleteNodeItems_ok {t : TenantId} {id : NodeId} {c c' : Tables} {r : Nat}
    (h : deleteNodeItems t id c = .ok (r, c')) :
    c' = { c with items := c.items.filter fun i => !(i.tenant == t && [id].contains i.node) } := by
  rw [Catalog.deleteNodeItems, dropItemsOf_run, Except.ok.injEq, Prod.mk.injEq] at h
  exact h.2.symm

theorem dropNodesBelow_run (node : NodeRow) (c : Tables) :
    dropNodesBelow node c = .ok
      ((c.nodes.filter fun n => n.tenant == node.tenant && n.inSubtree node.path && n.id != node.id).length,
      { c with nodes := c.nodes.filter fun n =>
          !(n.tenant == node.tenant && n.inSubtree node.path && n.id != node.id) }) := by
  simp only [dropNodesBelow, List.partition_eq_filter_filter]
  rfl

/-- The tables once a node's subtree is cleared: its items and those of every node whose path
extends its path are gone, and so is every such node but itself. -/
def Tables.clearedBelow (c : Tables) (node : NodeRow) : Tables :=
  { c with
    items := c.items.filter fun i =>
      !(i.tenant == node.tenant && (c.subtreeIds node.tenant node.path).contains i.node)
    nodes := c.nodes.filter fun n =>
      !(n.tenant == node.tenant && n.inSubtree node.path && n.id != node.id) }

theorem clearBelow_run (node : NodeRow) (c : Tables) :
    ∃ r, clearBelow node c = .ok (r, c.clearedBelow node) := by
  simp only [clearBelow, bind, StateT.bind, get, getThe, MonadStateOf.get, StateT.get,
    dropItemsOf_run, dropNodesBelow_run]
  exact ⟨_, rfl⟩

theorem clearSubtree_ok {t : TenantId} {id : NodeId} {c c' : Tables} {r : Nat × Nat}
    (h : clearSubtree t id c = .ok (r, c')) :
    ∃ node, c.nodeById? t id = some node ∧ c' = c.clearedBelow node := by
  unfold clearSubtree at h
  simp only [bind, StateT.bind, requireNode_run] at h
  cases hn : c.nodeById? t id with
  | none => simp [hn, Except.bind] at h
  | some node =>
    obtain ⟨r', hr⟩ := clearBelow_run node c
    simp only [hn, Except.bind, hr, Except.ok.injEq, Prod.mk.injEq] at h
    exact ⟨node, rfl, h.2.symm⟩

theorem updateNode_run (t : TenantId) (id : NodeId) (f : NodeRow → NodeRow) (c : Tables) :
    updateNode t id f c = .ok ((), { c with nodes := updateWhere (·.isNode t id) f c.nodes }) := rfl

/-- What retiring does to a node row at time `now`. -/
def NodeRow.retired (n : NodeRow) (now : Time.Instant) : NodeRow :=
  { n with status := .deleted, deletedAt := some now, itemCount := 0, totalSize := 0,
           scanStatus := .unscanned }

theorem retireNode_ok {t : TenantId} {id : NodeId} {c c' : Tables}
    (h : retireNode t id c = .ok ((), c')) :
    ∃ node, c.nodeById? t id = some node ∧
      let c₁ := c.clearedBelow node
      c' = { c₁ with clock := c₁.clock + 1,
                     nodes := updateWhere (·.isNode t id) (·.retired (Time.Instant.ofMillis c₁.clock))
                       c₁.nodes } := by
  unfold retireNode at h
  simp only [bind, StateT.bind, requireNode_run] at h
  cases hn : c.nodeById? t id with
  | none => simp [hn, Except.bind] at h
  | some node =>
    obtain ⟨r', hr⟩ := clearBelow_run node c
    simp only [hn, Except.bind, hr, Tables.now, updateNode_run, Except.ok.injEq,
      Prod.mk.injEq] at h
    exact ⟨node, rfl, h.2.symm⟩

/-- What beginning a scan at time `now` does to a node row. -/
def NodeRow.begun (n : NodeRow) (now : Time.Instant) : NodeRow :=
  { n with scanStatus := .scanning, scanStartedAt := some now, errorMessage := none }

theorem beginNodeScan_run (t : TenantId) (id : NodeId) (c : Tables) :
    beginNodeScan t id c =
      if (c.nodeById? t id).isSome then
        .ok ((), { c with
          clock := c.clock + 1
          nodes := updateWhere (·.isNode t id) (·.begun (Time.Instant.ofMillis c.clock)) c.nodes })
      else .error (.notFound ("node " ++ id.text)) := by
  unfold beginNodeScan
  simp only [Tables.nodeById?]
  by_cases hn : (c.nodes.find? fun n => n.isNode t id && n.isLive).isSome
  · simp [hn, bind, StateT.bind, Tables.now, get, getThe, MonadStateOf.get, StateT.get,
      Except.bind, pure, Except.pure, updateNode_run, NodeRow.begun]
  · simp [hn, bind, StateT.bind, Tables.now, get, getThe, MonadStateOf.get, StateT.get,
      Except.bind, pure, Except.pure, Store.fail]

/-- A scan begins only at a live node of the tenant, which it stamps while the clock ticks. -/
theorem beginNodeScan_ok {t : TenantId} {id : NodeId} {c c' : Tables} {u : Unit}
    (h : beginNodeScan t id c = .ok (u, c')) :
    (c.nodeById? t id).isSome ∧
      c' = { c with
        clock := c.clock + 1
        nodes := updateWhere (·.isNode t id) (·.begun (Time.Instant.ofMillis c.clock)) c.nodes } := by
  rw [beginNodeScan_run] at h
  split at h
  · rename_i hlive
    simp only [Except.ok.injEq, Prod.mk.injEq] at h
    exact ⟨hlive, h.2.symm⟩
  · cases h

/-- What finishing a scan with aggregate `a` at time `now` does to a node row. -/
def NodeRow.finished (n : NodeRow) (now : Time.Instant) (a : Aggregate) : NodeRow :=
  { n with
    scanStatus := .scanned
    lastScanAt := some now
    errorMessage := none
    itemCount := a.itemCount
    totalSize := a.totalSize }

theorem finishNodeScan_run (t : TenantId) (id : NodeId) (a : Aggregate) (c : Tables) :
    finishNodeScan t id a c =
      .ok ((), { c with
        clock := c.clock + 1
        nodes := updateWhere (·.isNode t id) (·.finished (Time.Instant.ofMillis c.clock) a)
          c.nodes }) := rfl

theorem failNodeScan_run (t : TenantId) (id : NodeId) (e : String) (c : Tables) :
    failNodeScan t id e c =
      .ok ((), { c with
        nodes := updateWhere (·.isNode t id)
          (fun n => { n with scanStatus := .unscanned, errorMessage := some e }) c.nodes }) := rfl

theorem setNodeAggregate_run (t : TenantId) (id : NodeId) (a : Aggregate) (c : Tables) :
    setNodeAggregate t id a c =
      .ok ((), { c with
        nodes := updateWhere (·.isNode t id)
          (fun n => { n with itemCount := a.itemCount, totalSize := a.totalSize }) c.nodes }) := rfl

/-- Finishing a scan stamps the node's rows with the aggregate while the clock ticks. -/
theorem finishNodeScan_ok {t : TenantId} {id : NodeId} {a : Aggregate} {c c' : Tables} {u : Unit}
    (h : finishNodeScan t id a c = .ok (u, c')) :
    c' = { c with
      clock := c.clock + 1
      nodes := updateWhere (·.isNode t id) (·.finished (Time.Instant.ofMillis c.clock) a)
        c.nodes } := by
  rw [finishNodeScan_run, Except.ok.injEq, Prod.mk.injEq] at h
  exact h.2.symm

/-- A failed scan marks the node's rows unscanned with the error. -/
theorem failNodeScan_ok {t : TenantId} {id : NodeId} {e : String} {c c' : Tables} {u : Unit}
    (h : failNodeScan t id e c = .ok (u, c')) :
    c' = { c with
      nodes := updateWhere (·.isNode t id)
        (fun n => { n with scanStatus := .unscanned, errorMessage := some e }) c.nodes } := by
  rw [failNodeScan_run, Except.ok.injEq, Prod.mk.injEq] at h
  exact h.2.symm

/-- Setting an aggregate rewrites the node's rows' counts and nothing else. -/
theorem setNodeAggregate_ok {t : TenantId} {id : NodeId} {a : Aggregate} {c c' : Tables}
    {u : Unit} (h : setNodeAggregate t id a c = .ok (u, c')) :
    c' = { c with
      nodes := updateWhere (·.isNode t id)
        (fun n => { n with itemCount := a.itemCount, totalSize := a.totalSize }) c.nodes } := by
  rw [setNodeAggregate_run, Except.ok.injEq, Prod.mk.injEq] at h
  exact h.2.symm

theorem sumChildren_ok {t : TenantId} {id : NodeId} {c c' : Tables} {a : Aggregate}
    (h : sumChildren t id c = .ok (a, c')) : c.sumChildren t id = .ok a ∧ c' = c := by
  unfold sumChildren at h
  cases hs : c.sumChildren t id with
  | error e =>
    simp [hs, bind, StateT.bind, get, getThe, MonadStateOf.get, StateT.get, Except.bind, pure,
      Except.pure, Store.fail] at h
  | ok a' =>
    simp only [hs, bind, StateT.bind, get, getThe, MonadStateOf.get, StateT.get, Except.bind,
      pure, StateT.pure, Except.pure, Except.ok.injEq, Prod.mk.injEq] at h
    exact ⟨by rw [h.1], h.2.symm⟩

theorem deleteSubtreeItems_ok {t : TenantId} {id : NodeId} {c c' : Tables} {r : Nat}
    (h : deleteSubtreeItems t id c = .ok (r, c')) :
    ∃ node, c.nodeById? t id = some node ∧
      c' = { c with items := c.items.filter fun i =>
        !(i.tenant == t && (c.subtreeIds t node.path).contains i.node) } := by
  unfold deleteSubtreeItems at h
  simp only [bind, StateT.bind, requireNode_run] at h
  cases hn : c.nodeById? t id with
  | none => simp [hn, Except.bind] at h
  | some node =>
    simp only [hn, Except.bind, get, getThe, MonadStateOf.get, StateT.get, pure, Except.pure,
      dropItemsOf_run, Except.ok.injEq, Prod.mk.injEq] at h
    exact ⟨node, rfl, h.2.symm⟩

theorem deleteDescendantNodes_ok {t : TenantId} {id : NodeId} {c c' : Tables} {r : Nat}
    (h : deleteDescendantNodes t id c = .ok (r, c')) :
    ∃ node, c.nodeById? t id = some node ∧
      c' = { c with
        items := c.items.filter fun i =>
          !(i.tenant == t && ((c.subtreeIds t node.path).filter (· != node.id)).contains i.node)
        nodes := c.nodes.filter fun n =>
          !(n.tenant == node.tenant && n.inSubtree node.path && n.id != node.id) } := by
  unfold deleteDescendantNodes at h
  simp only [bind, StateT.bind, requireNode_run] at h
  cases hn : c.nodeById? t id with
  | none => simp [hn, Except.bind] at h
  | some node =>
    simp only [hn, Except.bind, get, getThe, MonadStateOf.get, StateT.get, pure, Except.pure,
      dropItemsOf_run, dropNodesBelow_run, Except.ok.injEq, Prod.mk.injEq] at h
    exact ⟨node, rfl, h.2.symm⟩

/-- A registration stores a row of its tenant: a first one of its tenant and external id is
appended under a freshly minted id, a repeated one rewrites the found row in place. The clock
ticks once either way. -/
theorem upsertResource_cases {i : ResourceInput} {c c' : Tables} {r : ResourceRow}
    (h : upsertResource i c = .ok (r, c')) :
    r.tenant = i.tenant ∧
      ((c.getResource i.tenant i.externalId = none ∧
          c' = { c with clock := c.clock + 1, serial := c.serial + 1,
                        resources := c.resources ++ [r] }) ∨
        (∃ old, c.getResource i.tenant i.externalId = some old ∧
          c' = { c with clock := c.clock + 1,
                        resources := replaceWhere (·.isFor i.tenant i.externalId) (fun _ => r)
                          c.resources })) := by
  unfold upsertResource at h
  cases hr : c.getResource i.tenant i.externalId with
  | none =>
    simp only [hr, bind, StateT.bind, get, getThe, MonadStateOf.get, StateT.get, Tables.now,
      Tables.mint, modify, modifyGet, MonadStateOf.modifyGet, StateT.modifyGet, pure,
      StateT.pure, Except.pure, Except.bind, Except.ok.injEq, Prod.mk.injEq] at h
    obtain ⟨rfl, rfl⟩ := h
    exact ⟨rfl, .inl ⟨rfl, rfl⟩⟩
  | some old =>
    simp only [hr, bind, StateT.bind, get, getThe, MonadStateOf.get, StateT.get, Tables.now,
      modify, modifyGet, MonadStateOf.modifyGet, StateT.modifyGet, pure, StateT.pure,
      Except.pure, Except.bind, Except.ok.injEq, Prod.mk.injEq] at h
    obtain ⟨rfl, rfl⟩ := h
    -- the found row is of the registration's tenant, and its rewrite keeps the tenant
    have hfor := List.find?_some hr
    simp only [ResourceRow.isFor, Bool.and_eq_true, beq_iff_eq] at hfor
    exact ⟨hfor.1, .inr ⟨old, rfl, rfl⟩⟩

theorem upsertResource_frame {i : ResourceInput} {c c' : Tables} {r : ResourceRow}
    (h : upsertResource i c = .ok (r, c')) :
    c'.nodes = c.nodes ∧ c'.items = c.items ∧ c.serial ≤ c'.serial := by
  obtain ⟨-, ⟨-, rfl⟩ | ⟨-, -, rfl⟩⟩ := upsertResource_cases h <;> simp

theorem createRun_frame {t : TenantId} {e : Option ExternalId} {m : ScanMode} {ts : List String}
    {c c' : Tables} {r : RunRow} (h : createRun t e m ts c = .ok (r, c')) :
    c'.nodes = c.nodes ∧ c'.items = c.items ∧ c.serial ≤ c'.serial := by
  simp [createRun, bind, StateT.bind, Tables.now, Tables.mint, modify, modifyGet,
    MonadStateOf.modifyGet, StateT.modifyGet, pure, StateT.pure, Except.pure,
    Except.bind] at h
  obtain ⟨-, rfl⟩ := h
  simp

theorem finishRun_frame {t : TenantId} {id : RunId} {st : RunStatus} {msg : Option String}
    {counts : ScanCounts} {c c' : Tables} {r : RunRow}
    (h : finishRun t id st msg counts c = .ok (r, c')) :
    c'.nodes = c.nodes ∧ c'.items = c.items ∧ c.serial ≤ c'.serial := by
  unfold finishRun at h
  cases hs : st.isTerminal with
  | false => simp [hs, Store.fail] at h
  | true =>
    simp only [hs, Bool.not_true, Bool.false_eq_true, if_false, bind, StateT.bind, Tables.now,
      get, getThe, MonadStateOf.get, StateT.get, pure, Except.pure, Except.bind] at h
    cases hf : c.runs.find? (fun r => r.isRun t id && r.status == .running) with
    | none => simp [hf, Store.fail] at h
    | some old =>
      simp only [hf, set, StateT.set, StateT.bind, pure, StateT.pure, Except.pure] at h
      obtain ⟨-, rfl⟩ := h
      simp

end DataCatalog.Catalog
