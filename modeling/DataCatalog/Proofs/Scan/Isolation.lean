import Mathlib
import DataCatalog.Proofs.Scan.Reserved
/-!
# Tenant isolation

Every statement of the catalog names the tenant it serves. A write for tenant `u` changes only
rows of `u`: upserts find their row by a key that holds the tenant and write it under that
tenant, deletions and stamps select rows of `u` only, and runs are opened and closed under the
tenant. So the rows of every other tenant stay as they were, at every turn of every scan of `u`;
and every row a call of `u` answers with is a row of `u`. A request for a resource that the
directory registers to another tenant is refused before anything is written.
-/

namespace DataCatalog.Catalog

open DataCatalog.Ident

/-- The rows of tenant `t`: its resources, nodes, items and runs, in table order. -/
def Tables.rowsOf (c : Tables) (t : TenantId) :
    List ResourceRow × List NodeRow × List ItemRow × List RunRow :=
  (c.resources.filter (·.tenant == t), c.nodes.filter (·.tenant == t),
    c.items.filter (·.tenant == t), c.runs.filter (·.tenant == t))

section Filters

variable {α : Type} {q p : α → Bool} {f : α → α}

/-- Replacing a row the filter drops by another it drops leaves the filtered table as it was. -/
theorem filter_replaceWhere :
    ∀ {l : List α}, (∀ x ∈ l, p x = true → q x = false ∧ q (f x) = false) →
      (replaceWhere p f l).filter q = l.filter q
  | [], _ => rfl
  | y :: l, h => by
    unfold replaceWhere
    split
    · obtain ⟨hy, hfy⟩ := h y List.mem_cons_self ‹_›
      simp [hy, hfy]
    · simp [List.filter_cons,
        filter_replaceWhere fun x hx => h x (List.mem_cons_of_mem _ hx)]

theorem filter_updateWhere {l : List α}
    (h : ∀ x ∈ l, p x = true → q x = false ∧ q (f x) = false) :
    (updateWhere p f l).filter q = l.filter q := by
  induction l with
  | nil => rfl
  | cons y l ih =>
    have hrest := ih fun x hx => h x (List.mem_cons_of_mem _ hx)
    simp only [updateWhere, List.map_cons] at hrest ⊢
    by_cases hp : p y = true
    · obtain ⟨hy, hfy⟩ := h y List.mem_cons_self hp
      simp [hp, hy, hfy, hrest]
    · simp [List.filter_cons, hp, hrest]

/-- Dropping rows the filter drops leaves the filtered table as it was. -/
theorem filter_filter_of {r : α → Bool} {l : List α} (h : ∀ x ∈ l, q x = true → r x = true) :
    (l.filter r).filter q = l.filter q := by
  rw [List.filter_filter]
  exact List.filter_congr fun x hx => by
    by_cases hq : q x = true
    · simp [hq, h x hx hq]
    · simp [hq]

theorem filter_append_of {l : List α} {x : α} (hx : q x = false) :
    (l ++ [x]).filter q = l.filter q := by
  simp [List.filter_append, hx]

end Filters

section Operations

variable {c c' : Tables} {t : TenantId}

theorem tenant_beq_false {u : TenantId} (h : u ≠ t) : (u == t) = false := by
  simpa using h

/-- Clearing below a node of another tenant keeps `t`'s rows. -/
theorem Tables.rowsOf_clearedBelow {node : NodeRow} (hn : node.tenant ≠ t) :
    (c.clearedBelow node).rowsOf t = c.rowsOf t := by
  simp only [Tables.rowsOf, Tables.clearedBelow, Prod.mk.injEq, true_and, and_true]
  refine ⟨filter_filter_of fun n _ hq => ?_, filter_filter_of fun i _ hq => ?_⟩
  · simp only [beq_iff_eq] at hq
    simp [hq, Ne.symm hn]
  · simp only [beq_iff_eq] at hq
    simp [hq, Ne.symm hn]

theorem upsertNode_rowsOf (hw : c.Wf) {i : NodeInput} {row : NodeRow} (ht : i.tenant ≠ t)
    (h : upsertNode i c = .ok (row, c')) : c'.rowsOf t = c.rowsOf t := by
  obtain ⟨parent, -, ⟨old, hfind, rfl, rfl⟩ | ⟨-, -, rfl, rfl⟩⟩ := upsertNode_ok h
  · -- the only row with `old`'s id is `old`, a row of `i`'s tenant
    have hold := List.mem_of_find?_eq_some hfind
    have hfound := List.find?_some hfind
    have hkey := NodeRow.hasKey_iff.1 hfound
    simp only [NodeRow.naturalKey, Prod.mk.injEq] at hkey
    simp only [Tables.rowsOf, Prod.mk.injEq, true_and, and_true]
    refine filter_replaceWhere fun x hx hid => ?_
    obtain rfl := hw.node_eq_of_id hx hold (by simpa using hid)
    simp [NodeRow.rewritten, hkey.1, ht]
  · simp only [Tables.rowsOf, Prod.mk.injEq, true_and, and_true]
    exact filter_append_of (by simp [NodeRow.fresh, ht])

theorem upsertItem_rowsOf (hw : c.Wf) {i : ItemInput} {row : ItemRow} (ht : i.tenant ≠ t)
    (h : upsertItem i c = .ok (row, c')) : c'.rowsOf t = c.rowsOf t := by
  obtain ⟨node, -, ⟨old, hfind, rfl, rfl⟩ | ⟨-, rfl, rfl⟩⟩ := upsertItem_ok h
  · have hold := List.mem_of_find?_eq_some hfind
    have hfound := List.find?_some hfind
    have hkey := ItemRow.hasKey_iff.1 hfound
    simp only [Tables.rowsOf, Prod.mk.injEq, true_and, and_true]
    refine filter_replaceWhere fun x hx hid => ?_
    obtain rfl := hw.item_eq_of_id hx hold (by simpa using hid)
    simp [ItemRow.rewritten, hkey.1, ht]
  · simp only [Tables.rowsOf, Prod.mk.injEq, true_and, and_true]
    exact filter_append_of (by simp [ItemRow.fresh, ht])

theorem upsertResource_rowsOf {i : ResourceInput} {row : ResourceRow} (ht : i.tenant ≠ t)
    (h : upsertResource i c = .ok (row, c')) : c'.rowsOf t = c.rowsOf t := by
  obtain ⟨hrow, ⟨-, rfl⟩ | ⟨-, -, rfl⟩⟩ := upsertResource_cases h
  · simp only [Tables.rowsOf, Prod.mk.injEq, and_true]
    exact filter_append_of (by rw [hrow]; exact tenant_beq_false ht)
  · -- the registration of that tenant and id is rewritten in place
    simp only [Tables.rowsOf, Prod.mk.injEq, and_true]
    refine filter_replaceWhere fun x _ hx => ?_
    simp only [ResourceRow.isFor, Bool.and_eq_true, beq_iff_eq] at hx
    simp [hx.1, hrow, ht]

theorem createRun_rowsOf {u : TenantId} {e : Option ExternalId} {m : ScanMode}
    {ts : List String} {row : RunRow} (ht : u ≠ t) (h : createRun u e m ts c = .ok (row, c')) :
    c'.rowsOf t = c.rowsOf t := by
  simp [createRun, bind, StateT.bind, Tables.now, Tables.mint, modify, modifyGet,
    MonadStateOf.modifyGet, StateT.modifyGet, pure, StateT.pure, Except.pure,
    Except.bind] at h
  obtain ⟨-, rfl⟩ := h
  simp only [Tables.rowsOf, Prod.mk.injEq, true_and]
  exact filter_append_of (tenant_beq_false ht)

theorem finishRun_rowsOf {u : TenantId} {id : RunId} {st : RunStatus} {msg : Option String}
    {counts : ScanCounts} {row : RunRow} (ht : u ≠ t)
    (h : finishRun u id st msg counts c = .ok (row, c')) : c'.rowsOf t = c.rowsOf t := by
  unfold finishRun at h
  cases hs : st.isTerminal with
  | false => simp [hs, Store.fail] at h
  | true =>
    simp only [hs, Bool.not_true, Bool.false_eq_true, if_false, bind, StateT.bind, Tables.now,
      get, getThe, MonadStateOf.get, StateT.get, pure, Except.pure, Except.bind] at h
    cases hf : c.runs.find? (fun r => r.isRun u id && r.status == .running) with
    | none => simp [hf, Store.fail] at h
    | some old =>
      simp only [hf, set, StateT.set, StateT.bind, pure, StateT.pure, Except.pure] at h
      obtain ⟨-, rfl⟩ := h
      -- only runs of `u` are closed
      simp only [Tables.rowsOf, Prod.mk.injEq, true_and]
      refine filter_replaceWhere fun x _ hx => ?_
      have hold := List.find?_some hf
      simp only [RunRow.isRun, Bool.and_eq_true, beq_iff_eq] at hx hold
      simp [hx.1, hold.1.1, ht]

/-- A stamp on the rows of `u`'s node `id` keeps `t`'s rows. -/
theorem rowsOf_updateNode {u : TenantId} {id : NodeId} {g : NodeRow → NodeRow} (ht : u ≠ t)
    (hg : ∀ n, (g n).tenant = n.tenant) (hn : c'.nodes = updateWhere (·.isNode u id) g c.nodes)
    (hr : c'.resources = c.resources) (hi : c'.items = c.items) (hru : c'.runs = c.runs) :
    c'.rowsOf t = c.rowsOf t := by
  simp only [Tables.rowsOf, hn, hr, hi, hru, Prod.mk.injEq, true_and, and_true]
  refine filter_updateWhere fun x _ hx => ?_
  simp only [NodeRow.isNode, Bool.and_eq_true, beq_iff_eq] at hx
  simp [hx.1, hg, ht]

/-- A store operation called for another tenant keeps `t`'s rows. -/
theorem StoreOp.run_rowsOf (op : StoreOp) (ht : op.tenant ≠ t) (hw : c.Wf)
    (hrun : op.run c = .ok c') : c'.rowsOf t = c.rowsOf t := by
  cases op <;> simp only [StoreOp.run, StoreOp.tenant] at hrun ht
  case upsertResource i =>
    obtain ⟨_, hrun⟩ := Except.map_snd_eq_ok hrun
    exact upsertResource_rowsOf ht hrun
  case upsertNode i =>
    obtain ⟨_, hrun⟩ := Except.map_snd_eq_ok hrun
    exact upsertNode_rowsOf hw ht hrun
  case upsertItem i =>
    obtain ⟨_, hrun⟩ := Except.map_snd_eq_ok hrun
    exact upsertItem_rowsOf hw ht hrun
  case deleteItem u node kind name =>
    obtain ⟨_, hrun⟩ := Except.map_snd_eq_ok hrun
    obtain ⟨-, rfl⟩ := deleteItem_ok hrun
    simp only [Tables.rowsOf, Prod.mk.injEq, true_and, and_true]
    refine filter_filter_of fun x _ hq => ?_
    simp only [beq_iff_eq] at hq
    simp [ItemRow.hasKey, hq, Ne.symm ht]
  case deleteNodeItems u id =>
    obtain ⟨_, hrun⟩ := Except.map_snd_eq_ok hrun
    obtain rfl := deleteNodeItems_ok hrun
    simp only [Tables.rowsOf, Prod.mk.injEq, true_and, and_true]
    refine filter_filter_of fun x _ hq => ?_
    simp only [beq_iff_eq] at hq
    simp [hq, Ne.symm ht]
  case deleteSubtreeItems u id =>
    obtain ⟨_, hrun⟩ := Except.map_snd_eq_ok hrun
    obtain ⟨_, -, rfl⟩ := deleteSubtreeItems_ok hrun
    simp only [Tables.rowsOf, Prod.mk.injEq, true_and, and_true]
    refine filter_filter_of fun x _ hq => ?_
    simp only [beq_iff_eq] at hq
    simp [hq, Ne.symm ht]
  case deleteDescendantNodes u id =>
    obtain ⟨_, hrun⟩ := Except.map_snd_eq_ok hrun
    obtain ⟨node, hnode, rfl⟩ := deleteDescendantNodes_ok hrun
    have hnt := (Tables.nodeById?_some hnode).2.1
    simp only [Tables.rowsOf, Prod.mk.injEq, true_and, and_true]
    refine ⟨filter_filter_of fun x _ hq => ?_, filter_filter_of fun x _ hq => ?_⟩
    · simp only [beq_iff_eq] at hq
      simp [hq, hnt, Ne.symm ht]
    · simp only [beq_iff_eq] at hq
      simp [hq, Ne.symm ht]
  case clearSubtree u id =>
    obtain ⟨_, hrun⟩ := Except.map_snd_eq_ok hrun
    obtain ⟨node, hnode, rfl⟩ := clearSubtree_ok hrun
    exact Tables.rowsOf_clearedBelow ((Tables.nodeById?_some hnode).2.1 ▸ ht)
  case retireNode u id =>
    obtain ⟨_, hrun⟩ := Except.map_snd_eq_ok hrun
    obtain ⟨node, hnode, rfl⟩ := retireNode_ok hrun
    have hnt : node.tenant ≠ t := (Tables.nodeById?_some hnode).2.1 ▸ ht
    -- the stamp lands after the subtree is cleared
    refine Eq.trans ?_ (Tables.rowsOf_clearedBelow hnt)
    exact rowsOf_updateNode ht (by intro; rfl) rfl rfl rfl rfl
  case beginNodeScan u id =>
    obtain ⟨_, hrun⟩ := Except.map_snd_eq_ok hrun
    obtain ⟨-, rfl⟩ := beginNodeScan_ok hrun
    exact rowsOf_updateNode ht (by intro; rfl) rfl rfl rfl rfl
  case finishNodeScan u id a =>
    obtain ⟨_, hrun⟩ := Except.map_snd_eq_ok hrun
    obtain rfl := finishNodeScan_ok hrun
    exact rowsOf_updateNode ht (by intro; rfl) rfl rfl rfl rfl
  case failNodeScan u id e =>
    obtain ⟨_, hrun⟩ := Except.map_snd_eq_ok hrun
    obtain rfl := failNodeScan_ok hrun
    exact rowsOf_updateNode ht (by intro; rfl) rfl rfl rfl rfl
  case setNodeAggregate u id a =>
    obtain ⟨_, hrun⟩ := Except.map_snd_eq_ok hrun
    obtain rfl := setNodeAggregate_ok hrun
    exact rowsOf_updateNode ht (by intro; rfl) rfl rfl rfl rfl
  case createRun u e m ts =>
    obtain ⟨_, hrun⟩ := Except.map_snd_eq_ok hrun
    exact createRun_rowsOf ht hrun
  case finishRun u id st msg counts =>
    obtain ⟨_, hrun⟩ := Except.map_snd_eq_ok hrun
    exact finishRun_rowsOf ht hrun

/-- The writes of `u` keep `t`'s rows, and the catalog well formed. -/
theorem scansKeep_rowsOf {u : TenantId} (hu : u ≠ t) (R : List ResourceRow × List NodeRow ×
    List ItemRow × List RunRow) : ScansKeep u fun c => c.Wf ∧ c.rowsOf t = R :=
  fun op _ _ hs ⟨hw, hR⟩ hrun =>
    ⟨op.run_wf hw hrun, (op.run_rowsOf (hs.tenant ▸ hu) hw hrun).trans hR⟩

end Operations

section Listing

variable {α : Type}

@[simp] theorem mem_sortOn {cmp : α → α → Ordering} {xs : List α} {x : α} :
    x ∈ sortOn cmp xs ↔ x ∈ xs :=
  List.mem_mergeSort

theorem mem_of_mem_takeLimit {n : Nat} {xs : List α} {x : α} (h : x ∈ takeLimit n xs) :
    x ∈ xs :=
  List.mem_of_mem_take h

theorem filter_and_eq_filter_filter {q p : α → Bool} {l : List α} :
    l.filter (fun x => q x && p x) = (l.filter q).filter p := by
  rw [List.filter_filter]
  exact List.filter_congr fun x _ => Bool.and_comm _ _

end Listing

/-- The tenant-wide counts of `u` are read off the rows of `u` alone. -/
theorem metadataStats_rowsOf {u : TenantId} {c c' : Tables} (h : c'.rowsOf u = c.rowsOf u) :
    (metadataStats u c').map Prod.fst = (metadataStats u c).map Prod.fst := by
  simp only [Tables.rowsOf, Prod.mk.injEq] at h
  obtain ⟨hr, hn, hi, -⟩ := h
  -- every filter of the query narrows the tenant's own filter
  have hroots : ∀ d : Tables,
      d.nodes.filter (fun n => n.tenant == u && n.parent.isNone && n.isLive) =
        (d.nodes.filter (·.tenant == u)).filter fun n => n.parent.isNone && n.isLive := by
    intro d
    simp only [Bool.and_assoc]
    exact filter_and_eq_filter_filter
  have hrel : ∀ d : Tables, d.relationalItems u =
      (d.items.filter (·.tenant == u)).filter (·.kind.isRelational) :=
    fun _ => filter_and_eq_filter_filter
  simp only [metadataStats, bind, StateT.bind, get, getThe, MonadStateOf.get, StateT.get, pure,
    Except.pure, Except.bind, hroots, hrel, hr, hn, hi]
  cases Word.checkedSum? 0 ((c.items.filter (·.tenant == u)).map (·.sizeBytes)) <;> rfl

end DataCatalog.Catalog

namespace DataCatalog.Scan

open DataCatalog.Catalog DataCatalog.Ident

/-! ## Answers

The store answers a tenant from rows it selects by that tenant: lookups by a key that holds
it, listings through a filter on it, and the catalog tree from such listings. -/

/-- Every node and item of a tree belongs to tenant `u`. -/
inductive NodeTree.OwnedBy (u : TenantId) : NodeTree → Prop
  | mk {n : NodeRow} {children : List NodeTree} {items : List ItemRow} : n.tenant = u →
      (∀ i ∈ items, i.tenant = u) → (∀ t ∈ children, t.OwnedBy u) →
      (NodeTree.mk n children items).OwnedBy u

/-- A resource and every node and item of its forest belong to tenant `u`. -/
def ResourceTree.OwnedBy (u : TenantId) (tr : ResourceTree) : Prop :=
  tr.resource.tenant = u ∧ ∀ t ∈ tr.nodes, t.OwnedBy u

section Answers

variable {u : TenantId}

/-- A tree assembled from rows of `u` holds rows of `u` only, at every depth. -/
theorem buildNode_ownedBy {nodes : List NodeRow} {items : List ItemRow}
    (hn : ∀ m ∈ nodes, m.tenant = u) (hi : ∀ i ∈ items, i.tenant = u) :
    ∀ (depth : Nat) {n : NodeRow}, n.tenant = u → (buildNode nodes items depth n).OwnedBy u
  | 0, _, h => .mk h (fun i hm => hi i (List.mem_filter.1 (mem_sortOn.1 hm)).1) (by simp)
  | depth + 1, _, h => by
    refine .mk h (fun i hm => hi i (List.mem_filter.1 (mem_sortOn.1 hm)).1) fun t ht => ?_
    simp only [mem_sortOn, List.mem_map, List.mem_filter] at ht
    obtain ⟨m, ⟨hm, -⟩, rfl⟩ := ht
    exact buildNode_ownedBy hn hi depth (hn m hm)

theorem catalogTree_ownedBy (c : Tables) : ∀ tr ∈ catalogTree c u, tr.OwnedBy u := by
  intro tr htr
  simp only [catalogTree, List.mem_map] at htr
  obtain ⟨r, hr, rfl⟩ := htr
  have hrt : r.tenant = u := by
    simp only [Tables.listResources, mem_sortOn, List.mem_filter, beq_iff_eq] at hr
    exact hr.2
  have hn : ∀ m ∈ c.listResourceNodes u r.id, m.tenant = u := by
    intro m hm
    simp only [Tables.listResourceNodes, mem_sortOn, List.mem_filter, Bool.and_eq_true,
      beq_iff_eq] at hm
    exact hm.2.1.1
  have hi : ∀ i ∈ c.listResourceItems u r.id, i.tenant = u := by
    intro i hm
    simp only [Tables.listResourceItems, mem_sortOn, List.mem_filter, Bool.and_eq_true,
      beq_iff_eq] at hm
    exact hm.2.1
  refine ⟨hrt, fun t ht => ?_⟩
  simp only [buildResourceTree, List.mem_map, List.mem_filter] at ht
  obtain ⟨m, ⟨hm, -⟩, rfl⟩ := ht
  exact buildNode_ownedBy hn hi _ (hn m hm)

/-- Every answer the store gives tenant `u` from the tables `c` holds rows of `u` only: the
registrations, nodes, items and runs it finds, lists or writes, the resources its statistics
describe, the tables whose columns a search finds, and the catalog tree. -/
structure OwnedAnswers (u : TenantId) (c : Tables) : Prop where
  getResource : ∀ e r, c.getResource u e = some r → r.tenant = u
  listResources : ∀ r ∈ c.listResources u, r.tenant = u
  resourceStats : ∀ s ∈ c.resourceStats u, s.resource.tenant = u
  getNode : ∀ res p k name n, c.getNode u res p k name = some n → n.tenant = u
  nodeById : ∀ id n, c.nodeById? u id = some n → n.tenant = u
  listRootNodes : ∀ res st, ∀ n ∈ c.listRootNodes u res st, n.tenant = u
  listChildNodes : ∀ p, ∀ n ∈ c.listChildNodes u p, n.tenant = u
  listDescendantNodes : ∀ id ns c', listDescendantNodes u id c = .ok (ns, c') →
    ∀ n ∈ ns, n.tenant = u
  listResourceNodes : ∀ res, ∀ n ∈ c.listResourceNodes u res, n.tenant = u
  getItem : ∀ node k name i, c.getItem u node k name = some i → i.tenant = u
  listItems : ∀ node, ∀ i ∈ c.listItems u node, i.tenant = u
  listResourceItems : ∀ res, ∀ i ∈ c.listResourceItems u res, i.tenant = u
  searchItems : ∀ k l, ∀ i ∈ c.searchItems u k l, i.tenant = u
  searchFields : ∀ k l, ∀ m ∈ c.searchFields u k l, ∃ i ∈ c.items, i.tenant = u ∧ i.id = m.item
  getRun : ∀ id r, c.getRun u id = some r → r.tenant = u
  listRuns : ∀ l, ∀ r ∈ c.listRuns u l, r.tenant = u
  catalogTree : ∀ tr ∈ catalogTree c u, tr.OwnedBy u
  upsertResource : ∀ (i : ResourceInput) r c', i.tenant = u →
    Catalog.upsertResource i c = .ok (r, c') → r.tenant = u
  upsertNode : ∀ (i : NodeInput) n c', i.tenant = u → Catalog.upsertNode i c = .ok (n, c') →
    n.tenant = u
  upsertItem : ∀ (i : ItemInput) it c', i.tenant = u → Catalog.upsertItem i c = .ok (it, c') →
    it.tenant = u
  createRun : ∀ e m ts r c', Catalog.createRun u e m ts c = .ok (r, c') → r.tenant = u
  finishRun : ∀ id st msg n r c', Catalog.finishRun u id st msg n c = .ok (r, c') → r.tenant = u

theorem upsertItem_tenant {i : ItemInput} {c c' : Tables} {row : ItemRow}
    (h : Catalog.upsertItem i c = .ok (row, c')) : row.tenant = i.tenant := by
  obtain ⟨node, -, ⟨old, hfind, rfl, -⟩ | ⟨-, rfl, -⟩⟩ := upsertItem_ok h
  · have hfound := List.find?_some hfind
    exact (ItemRow.hasKey_iff.1 hfound).1
  · rfl

theorem relationalItems_tenant {c : Tables} {i : ItemRow} (h : i ∈ c.relationalItems u) :
    i ∈ c.items ∧ i.tenant = u := by
  simp only [Tables.relationalItems, List.mem_filter, Bool.and_eq_true, beq_iff_eq] at h
  exact ⟨h.1, h.2.1⟩

/-- The store answers every tenant with that tenant's rows. -/
theorem ownedAnswers (u : TenantId) (c : Tables) : OwnedAnswers u c where
  getResource e r h := by
    have hr := List.find?_some h
    simp only [ResourceRow.isFor, Bool.and_eq_true, beq_iff_eq] at hr
    exact hr.1
  listResources r h := by
    simp only [Tables.listResources, mem_sortOn, List.mem_filter, beq_iff_eq] at h
    exact h.2
  resourceStats s h := by
    simp only [Tables.resourceStats, List.mem_map] at h
    obtain ⟨r, hr, rfl⟩ := h
    simp only [Tables.listResources, mem_sortOn, List.mem_filter, beq_iff_eq] at hr
    exact hr.2
  getNode _ _ _ _ _ h := (Tables.getNode_key h).1
  nodeById _ _ h := (Tables.nodeById?_some h).2.1
  listRootNodes _ _ n h := by
    simp only [Tables.listRootNodes, Tables.liveRoots, mem_sortOn, List.mem_filter,
      Bool.and_eq_true, beq_iff_eq] at h
    exact h.1.2.1.1.1
  listChildNodes _ n h := by
    simp only [Tables.listChildNodes, mem_sortOn, List.mem_filter, Bool.and_eq_true,
      beq_iff_eq] at h
    exact h.2.1.1
  listDescendantNodes id ns c' h n hn := by
    simp only [Catalog.listDescendantNodes, bind, StateT.bind, requireNode_run] at h
    -- the descendants are listed only below a node that was found
    cases hf : c.nodeById? u id with
    | none => simp [hf, Except.bind] at h
    | some node =>
      simp only [hf, Except.bind, get, getThe, MonadStateOf.get, StateT.get, pure, StateT.pure,
        Except.pure, Except.ok.injEq, Prod.mk.injEq] at h
      rw [← h.1] at hn
      simp only [mem_sortOn, List.mem_filter, Bool.and_eq_true, beq_iff_eq] at hn
      exact hn.2.1.1.1
  listResourceNodes _ n h := by
    simp only [Tables.listResourceNodes, mem_sortOn, List.mem_filter, Bool.and_eq_true,
      beq_iff_eq] at h
    exact h.2.1.1
  getItem _ _ _ _ h := by
    have hfound := List.find?_some h
    exact (ItemRow.hasKey_iff.1 hfound).1
  listItems _ i h := by
    simp only [Tables.listItems, mem_sortOn, List.mem_filter, Bool.and_eq_true,
      beq_iff_eq] at h
    exact h.2.1
  listResourceItems _ i h := by
    simp only [Tables.listResourceItems, mem_sortOn, List.mem_filter, Bool.and_eq_true,
      beq_iff_eq] at h
    exact h.2.1
  searchItems _ _ i h := by
    simp only [Tables.searchItems, mem_sortOn] at h
    have hi := List.mem_of_mem_filter (mem_sortOn.1 (mem_of_mem_takeLimit h))
    exact (relationalItems_tenant hi).2
  searchFields _ _ m h := by
    simp only [Tables.searchFields] at h
    have hm := mem_sortOn.1 (mem_of_mem_takeLimit h)
    simp only [List.mem_flatMap, List.mem_map] at hm
    obtain ⟨i, hi, f, -, rfl⟩ := hm
    exact ⟨i, (relationalItems_tenant hi).1, (relationalItems_tenant hi).2, rfl⟩
  getRun _ _ h := by
    have hr := List.find?_some h
    simp only [RunRow.isRun, Bool.and_eq_true, beq_iff_eq] at hr
    exact hr.1
  listRuns _ r h := by
    have hr := mem_sortOn.1 (mem_of_mem_takeLimit h)
    simp only [List.mem_reverse, List.mem_filter, beq_iff_eq] at hr
    exact hr.2
  catalogTree := catalogTree_ownedBy c
  upsertResource _ _ _ hi h := (upsertResource_tenant h).trans hi
  upsertNode _ _ _ hi h := (upsertNode_key h).1.trans hi
  upsertItem _ _ _ hi h := (upsertItem_tenant h).trans hi
  createRun _ _ _ _ _ h := createRun_tenant h
  finishRun _ _ _ _ _ _ h := finishRun_tenant h

end Answers

/-! ## Scans -/

section Scans

variable {u t : TenantId} {w w' : World}

/-- Sessions of requests of tenants other than `t`, one at a time or side by side and over any
upstream, keep every row of `t`. -/
theorem served_rowsOf {P : ScanRequest → Prop} (hP : ∀ r, P r → r.tenant ≠ t)
    (h : Served P w w') (hw : w.catalog.Wf) : w'.catalog.rowsOf t = w.catalog.rowsOf t :=
  (h.keeps (fun r hr => scansKeep_rowsOf (hP r hr) _) ⟨hw, rfl⟩).2

theorem Step.Keeps.ok_of_runAlone {α : Type} {Q : α → Prop} {x : Step α} {a : α}
    (h : x.Keeps (fun _ => True) Q) (hrun : x.runAlone w = (.ok a, w')) : Q a :=
  (h.run trivial).2 a (congrArg Prod.fst hrun)

theorem scansKeep_true (u : TenantId) : ScansKeep u fun _ => True :=
  fun _ _ _ _ _ _ => trivial

theorem Directory.lookup_denied {d : Directory} {e : ExternalId} {r : RegisteredResource}
    (hfind : d.find e = .ok (some r)) (hr : r.tenant ≠ u) :
    d.lookup u e = .error (.accessDenied ("resource " ++ e.text ++
      " does not belong to tenant " ++ u.text)) := by
  simp [Directory.lookup, hfind, hr, bind, Except.bind, throw, throwThe, MonadExceptOf.throw]

/-- A lookup of a resource the directory registers to another tenant is refused, and reads
nothing but the directory. -/
theorem lookupResource_denied {e : ExternalId} {r : RegisteredResource}
    (hfind : w.directory.find e = .ok (some r)) (hr : r.tenant ≠ u) :
    (lookupResource u e).runAlone w = (.error (.accessDenied ("resource " ++ e.text ++
      " does not belong to tenant " ++ u.text)), w) := by
  simp only [lookupResource, Step.runAlone_bind, Step.runAlone_get, Step.runAlone_ofExcept,
    Directory.lookup_denied hfind hr]

theorem scanResource_denied {e : ExternalId} {r : RegisteredResource}
    (hfind : w.directory.find e = .ok (some r)) (hr : r.tenant ≠ u) (ns : List String) :
    (scanResource u e ns).runAlone w = (.error (.accessDenied ("resource " ++ e.text ++
      " does not belong to tenant " ++ u.text)), w) := by
  simp only [scanResource, Step.runAlone_bind, lookupResource_denied hfind hr]

theorem scanTable_denied {e : ExternalId} {r : RegisteredResource}
    (hfind : w.directory.find e = .ok (some r)) (hr : r.tenant ≠ u) (schema table : String) :
    (scanTable u e schema table).runAlone w = (.error (.accessDenied ("resource " ++ e.text ++
      " does not belong to tenant " ++ u.text)), w) := by
  simp only [scanTable, Step.runAlone_bind, lookupResource_denied hfind hr]

/-- Tenant isolation. Let `u ≠ t`. A write of the store for `u` keeps every row of `t`; every
answer of the store to `u` holds rows of `u` only, and the counts it gives `u` are read off rows
of `u`. Sessions of scans for `u`, one at a time or side by side, their dispatched tasks
included and over any upstream, keep every row of `t`; the runs a scan of `u` reports are runs
of `u`; and a scan of `u` that names a resource the directory registers to another tenant is
refused with `accessDenied` before anything is written. -/
theorem tenant_isolation (hne : u ≠ t) :
    (∀ (op : StoreOp) (c c' : Tables), op.tenant = u → c.Wf → op.run c = .ok c' →
      c'.rowsOf t = c.rowsOf t) ∧
    (∀ c : Tables, OwnedAnswers u c) ∧
    (∀ c c' : Tables, c'.rowsOf u = c.rowsOf u →
      (metadataStats u c').map Prod.fst = (metadataStats u c).map Prod.fst) ∧
    (∀ w w' : World, Served (·.tenant = u) w w' → w.catalog.Wf →
      w'.catalog.rowsOf t = w.catalog.rowsOf t) ∧
    (∀ (w w' : World) e ns run, (scanResource u e ns).runAlone w = (.ok run, w') →
      run.tenant = u) ∧
    (∀ (w w' : World) e schema table run,
      (Scan.scanTable u e schema table).runAlone w = (.ok run, w') → run.tenant = u) ∧
    (∀ (w w' : World) d, (scanAllUnscanned u).runAlone w = (.ok d, w') →
      d.dispatched.tenant = u ∧ OnOk (·.tenant = u) d.finished) ∧
    (∀ (w : World) e (r : RegisteredResource), w.directory.find e = .ok (some r) →
      r.tenant ≠ u →
      (∀ ns, (scanResource u e ns).runAlone w = (.error (.accessDenied ("resource " ++ e.text ++
        " does not belong to tenant " ++ u.text)), w)) ∧
      ∀ schema table, (Scan.scanTable u e schema table).runAlone w =
        (.error (.accessDenied ("resource " ++ e.text ++ " does not belong to tenant " ++
          u.text)), w)) :=
  ⟨fun op _ _ hop hw hrun => op.run_rowsOf (hop ▸ hne) hw hrun,
    ownedAnswers u,
    fun _ _ h => metadataStats_rowsOf h,
    fun _ _ h hw => served_rowsOf (fun r (hr : r.tenant = u) => hr ▸ hne) h hw,
    fun _ _ e ns _ h => (scanResource_keeps (scansKeep_true u) e ns).ok_of_runAlone h,
    fun _ _ e schema table _ h =>
      (scanTable_keeps (scansKeep_true u) e schema table).ok_of_runAlone h,
    fun _ _ _ h => (scanAllUnscanned_keeps (scansKeep_true u)).ok_of_runAlone h,
    fun _ _ _ hfind hr => ⟨scanResource_denied hfind hr, scanTable_denied hfind hr⟩⟩

theorem tenant_isolation_of_two_tenants :
    (⟨1⟩ : TenantId) ≠ ⟨2⟩ ∧ ∀ c : Tables, OwnedAnswers ⟨1⟩ c :=
  ⟨by decide, (tenant_isolation (t := ⟨2⟩) (by decide)).2.1⟩

end Scans

end DataCatalog.Scan
