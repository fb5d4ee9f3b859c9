import Mathlib
import DataCatalog.Proofs.Scan.Writes
/-!
# Reserved segments never reach the catalog

The segments `__bucket__` and `.minio.sys` belong to the storage infrastructure. The writes a
scan makes never name a bucket, a prefix or an object by one of them, and every other change
keeps the kind and name of each row it keeps. So from a catalog with no bucket, prefix or object
named by a reserved segment, every session of scans leads to such a catalog again: full and
discovery scans of any resources, with explicit or discovered allow-lists, table refreshes and
reconciliations of any object path, served one after another or side by side, over any
upstream.

Full names are built from names: a bucket or prefix is named in full by its parent's full name,
a slash and its name, an object by its node's. Every scan writes its buckets and prefixes below
ids it found naming buckets and prefixes, and no write changes the kind behind an id, so in a
well-formed catalog no full name of a bucket, prefix or object gains a reserved segment either
(`Tables.Clean`, kept by `Served.writes`).
-/

namespace DataCatalog.Catalog

open DataCatalog.Storage

/-- No bucket or prefix node and no object item of the catalog, live or retired, is named by a
reserved segment. -/
structure Tables.NoReserved (c : Tables) : Prop where
  nodes : ∀ n ∈ c.nodes, n.kind.Admits n.name
  items : ∀ i ∈ c.items, i.kind.Admits i.name

section Names

variable {c c' : Tables}

theorem Tables.NoReserved.of_nodes (h : c.NoReserved) (hn : ∀ n ∈ c'.nodes, n.kind.Admits n.name)
    (hi : c'.items ⊆ c.items) : c'.NoReserved :=
  ⟨hn, fun i hm => h.items i (hi hm)⟩

theorem Tables.NoReserved.of_items (h : c.NoReserved) (hn : c'.nodes ⊆ c.nodes)
    (hi : ∀ i ∈ c'.items, i.kind.Admits i.name) : c'.NoReserved :=
  ⟨fun n hm => h.nodes n (hn hm), hi⟩

/-- Stamping rows in place keeps their kinds and names. -/
theorem Tables.NoReserved.of_update (h : c.NoReserved) {p : NodeRow → Bool}
    {g : NodeRow → NodeRow} (hn : c'.nodes = updateWhere p g c.nodes) (hi : c'.items = c.items)
    (hg : ∀ n, (g n).kind = n.kind ∧ (g n).name = n.name) : c'.NoReserved :=
  h.of_nodes (hn ▸ forall_mem_updateWhere h.nodes fun n hn _ => by
    rw [(hg n).1, (hg n).2]
    exact h.nodes n hn) (hi ▸ List.Subset.refl _)

theorem Tables.NoReserved.clearedBelow (h : c.NoReserved) (node : NodeRow) :
    (c.clearedBelow node).NoReserved :=
  ⟨fun n hn => h.nodes n (List.mem_filter.1 hn).1, fun i hi => h.items i (List.mem_filter.1 hi).1⟩

theorem upsertNode_noReserved {i : NodeInput} {row : NodeRow} (hi : i.kind.Admits i.name)
    (h : c.NoReserved) (hrun : upsertNode i c = .ok (row, c')) : c'.NoReserved := by
  obtain ⟨parent, -, ⟨old, hfind, rfl, rfl⟩ | ⟨-, -, rfl, rfl⟩⟩ := upsertNode_ok hrun
  · -- the row of that key is rewritten under its own kind and name
    have hold := h.nodes old (List.mem_of_find?_eq_some hfind)
    exact h.of_nodes (forall_mem_replaceWhere h.nodes fun _ _ _ => by
      simpa [NodeRow.rewritten] using hold) (List.Subset.refl _)
  · refine h.of_nodes (fun n hn => ?_) (List.Subset.refl _)
    rcases List.mem_append.1 hn with hn | hn
    · exact h.nodes n hn
    · rw [List.mem_singleton.1 hn]
      simpa [NodeRow.fresh] using hi

theorem upsertItem_noReserved {i : ItemInput} {row : ItemRow} (hi : i.kind.Admits i.name)
    (h : c.NoReserved) (hrun : upsertItem i c = .ok (row, c')) : c'.NoReserved := by
  obtain ⟨node, -, ⟨old, hfind, rfl, rfl⟩ | ⟨-, rfl, rfl⟩⟩ := upsertItem_ok hrun
  · have hold := h.items old (List.mem_of_find?_eq_some hfind)
    exact h.of_items (List.Subset.refl _) (forall_mem_replaceWhere h.items fun _ _ _ => by
      simpa [ItemRow.rewritten] using hold)
  · refine h.of_items (List.Subset.refl _) fun it hit => ?_
    rcases List.mem_append.1 hit with hit | hit
    · exact h.items it hit
    · rw [List.mem_singleton.1 hit]
      simpa [ItemRow.fresh] using hi

/-- Every write that names buckets, prefixes and objects as their kinds admit keeps the
catalog free of reserved names; no other operation names anything. -/
theorem StoreOp.run_noReserved (op : StoreOp) (hu : op.Unreserved) (h : c.NoReserved)
    (hrun : op.run c = .ok c') : c'.NoReserved := by
  cases op <;> simp only [StoreOp.run] at hrun <;> obtain ⟨_, hrun⟩ := Except.map_snd_eq_ok hrun
  case upsertResource i =>
    obtain ⟨hn, hi, -⟩ := upsertResource_frame hrun
    exact h.of_nodes (hn ▸ h.nodes) (hi ▸ List.Subset.refl _)
  case upsertNode i => exact upsertNode_noReserved hu h hrun
  case upsertItem i => exact upsertItem_noReserved hu h hrun
  case deleteItem t node kind name =>
    obtain ⟨-, rfl⟩ := deleteItem_ok hrun
    exact h.of_items (List.Subset.refl _) fun it hit => h.items it (List.mem_filter.1 hit).1
  case deleteNodeItems t id =>
    obtain rfl := deleteNodeItems_ok hrun
    exact h.of_items (List.Subset.refl _) fun it hit => h.items it (List.mem_filter.1 hit).1
  case deleteSubtreeItems t id =>
    obtain ⟨_, -, rfl⟩ := deleteSubtreeItems_ok hrun
    exact h.of_items (List.Subset.refl _) fun it hit => h.items it (List.mem_filter.1 hit).1
  case deleteDescendantNodes t id =>
    obtain ⟨_, -, rfl⟩ := deleteDescendantNodes_ok hrun
    exact ⟨fun n hn => h.nodes n (List.mem_filter.1 hn).1,
      fun it hit => h.items it (List.mem_filter.1 hit).1⟩
  case clearSubtree t id =>
    obtain ⟨node, -, rfl⟩ := clearSubtree_ok hrun
    exact h.clearedBelow node
  case retireNode t id =>
    obtain ⟨node, -, rfl⟩ := retireNode_ok hrun
    exact (h.clearedBelow node).of_update rfl rfl fun _ => ⟨rfl, rfl⟩
  case beginNodeScan t id =>
    obtain ⟨-, rfl⟩ := beginNodeScan_ok hrun
    exact h.of_update rfl rfl fun _ => ⟨rfl, rfl⟩
  case finishNodeScan t id a =>
    obtain rfl := finishNodeScan_ok hrun
    exact h.of_update rfl rfl fun _ => ⟨rfl, rfl⟩
  case failNodeScan t id e =>
    obtain rfl := failNodeScan_ok hrun
    exact h.of_update rfl rfl fun _ => ⟨rfl, rfl⟩
  case setNodeAggregate t id a =>
    obtain rfl := setNodeAggregate_ok hrun
    exact h.of_update rfl rfl fun _ => ⟨rfl, rfl⟩
  case createRun t e m ts =>
    obtain ⟨hn, hi, -⟩ := createRun_frame hrun
    exact h.of_nodes (hn ▸ h.nodes) (hi ▸ List.Subset.refl _)
  case finishRun t id st msg counts =>
    obtain ⟨hn, hi, -⟩ := finishRun_frame hrun
    exact h.of_nodes (hn ▸ h.nodes) (hi ▸ List.Subset.refl _)

theorem scansKeep_noReserved (u : Ident.TenantId) : ScansKeep u Tables.NoReserved :=
  fun op _ _ hs h hrun => op.run_noReserved hs.unreserved h hrun

end Names

end DataCatalog.Catalog

namespace DataCatalog.Scan

open DataCatalog.Catalog

/-- From a catalog where no bucket, prefix or object is named by a reserved segment, no
session of scans, whatever its requests and whatever the upstream, names one by such a
segment. -/
theorem served_noReserved {w w' : World} (h : Served (fun _ => True) w w')
    (hw : w.catalog.NoReserved) : w'.catalog.NoReserved :=
  h.keeps (fun r _ => scansKeep_noReserved r.tenant) hw

/-- Reserved segments never reach the catalog. From a catalog where no bucket, prefix or object
is named by a reserved segment, every session of scans leads to such a catalog; and from a
well-formed catalog where none has a reserved segment in its name or its full name, every
session leads to a well-formed catalog where none has. -/
theorem served_reservedFree {w w' : World} (h : Served (fun _ => True) w w') :
    (w.catalog.NoReserved → w'.catalog.NoReserved) ∧
      (w.catalog.Wf → w.catalog.Clean → w'.catalog.Wf ∧ w'.catalog.Clean) := by
  refine ⟨served_noReserved h, fun hw hc => ?_⟩
  -- every write of every scan names and places what it writes
  have hwrites : w.catalog.Writes (fun op c => op.Named ∧ op.Placed c) w'.catalog :=
    h.writes (fun _ _ _ _ _ hn hp => ⟨hn, hp⟩) hw
  exact ⟨hwrites.wf hw, hwrites.clean (fun _ _ h => h) hc⟩

/-- Discovery over a store whose one bucket is the reserved `__bucket__`, from the empty
catalog, leaves a well-formed catalog free of reserved names and full names. -/
theorem clean_after_discovery :
    let w : World := { objects := { buckets := [("__bucket__", [])] } }
    let w' := ((ScanRequest.scanUnscanned ⟨1⟩).serve.runAlone w).2
    Served (fun _ => True) w w' ∧ w'.catalog.NoReserved ∧ w'.catalog.Wf ∧ w'.catalog.Clean := by
  intro w w'
  have h : Served (fun _ => True) w w' := .alone _ trivial .start
  have hr : w.catalog.NoReserved :=
    ⟨fun _ h => absurd h List.not_mem_nil, fun _ h => absurd h List.not_mem_nil⟩
  have hc : w.catalog.Clean :=
    ⟨fun _ h => absurd h List.not_mem_nil, fun _ h => absurd h List.not_mem_nil⟩
  exact ⟨h, (served_reservedFree h).1 hr, (served_reservedFree h).2 Tables.wf_empty hc⟩

end DataCatalog.Scan
