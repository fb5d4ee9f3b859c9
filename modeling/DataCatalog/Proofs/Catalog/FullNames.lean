import Mathlib
import DataCatalog.Proofs.Catalog.Lineage
import DataCatalog.Proofs.Storage.Keys
/-!
# Full names of buckets, prefixes and objects

A bucket written at the root is named in full by its name; a node written below a parent is
named by the parent's full name, the separator of its own kind and its name; an item by its
node's full name, the node's separator and its name. Below buckets and prefixes the separator is
a slash. So when buckets, prefixes and objects are named by paths with no reserved segment and
each is written below an id that names only buckets and prefixes, their full names have no
reserved segment either.

`Tables.Clean` says this of a catalog: every bucket, prefix and object, live or retired, has a
name and a full name with no reserved segment. A write that names its buckets, prefixes and
objects so (`StoreOp.Named`) and places them below such ids (`StoreOp.Placed`) keeps a catalog
clean, and so does every run of such writes.
-/

namespace DataCatalog.Catalog

open DataCatalog.Storage DataCatalog.Ident

/-- Buckets and prefixes: the nodes of object storage. -/
def NodeKind.Storage (k : NodeKind) : Prop := k = .bucket ∨ k = .keyPrefix

/-- Below a bucket or a prefix, names are joined by a slash. -/
theorem NodeKind.Storage.separator {k : NodeKind} (h : k.Storage) : k.separator = "/" := by
  rcases h with rfl | rfl <;> rfl

/-! ## The row a write leaves -/

section Written

variable {c c' : Tables}

/-- Replacing the first row that matches by `row` leaves `row` among the rows. -/
theorem mem_replaceWhere_const {α : Type} {p : α → Bool} {row : α} :
    ∀ {l : List α}, (∃ x ∈ l, p x = true) → row ∈ replaceWhere p (fun _ => row) l
  | [], ⟨_, hx, _⟩ => absurd hx List.not_mem_nil
  | y :: l, ⟨x, hx, hp⟩ => by
    unfold replaceWhere
    split
    · exact List.mem_cons_self
    · rename_i hy
      rcases List.mem_cons.1 hx with rfl | hx
      · exact absurd hp hy
      · exact List.mem_cons_of_mem _ (mem_replaceWhere_const ⟨x, hx, hp⟩)

/-- A node write leaves its row, under the key it was asked for and placed below the parent it
found, beside rows the catalog had, and no item changes. -/
theorem upsertNode_written {i : NodeInput} {row : NodeRow} (h : upsertNode i c = .ok (row, c')) :
    ∃ parent, ParentFound i c parent ∧
      row.naturalKey = (i.tenant, i.resource, i.parent, i.kind, i.name) ∧
      row.fullName = (placement parent i.kind i.name).2.2 ∧ row ∈ c'.nodes ∧
      (∀ n ∈ c'.nodes, n ∈ c.nodes ∨ n = row) ∧ c'.items = c.items := by
  obtain ⟨parent, hpf, ⟨old, hfind, rfl, rfl⟩ | ⟨-, -, rfl, rfl⟩⟩ := upsertNode_ok h
  · -- the row of that key is rewritten in place, under its own key
    have hold := List.mem_of_find?_eq_some hfind
    have hfound := List.find?_some hfind
    have hkey := NodeRow.hasKey_iff.1 hfound
    refine ⟨parent, hpf, ?_, ?_, mem_replaceWhere_const ⟨old, hold, by simp⟩,
      forall_mem_replaceWhere (P := fun n => n ∈ c.nodes ∨ n = old.rewritten i parent)
        (fun n hn => .inl hn) (fun _ _ _ => .inr rfl), rfl⟩
    · rw [← hkey]
      cases parent <;> rfl
    · cases parent <;> rfl
  · refine ⟨parent, hpf, ?_, ?_, List.mem_append_right _ (List.mem_singleton_self _), ?_, rfl⟩
    · cases parent <;> rfl
    · cases parent <;> rfl
    · intro n hn
      rcases List.mem_append.1 hn with hn | hn
      · exact .inl hn
      · exact .inr (List.mem_singleton.1 hn)

/-- An item write leaves its row, named in full below the node it found, beside rows the
catalog had, and no node changes. -/
theorem upsertItem_written {i : ItemInput} {row : ItemRow} (h : upsertItem i c = .ok (row, c')) :
    ∃ node, c.nodeById? i.tenant i.node = some node ∧ row.kind = i.kind ∧ row.name = i.name ∧
      row.fullName = node.fullName ++ node.kind.separator ++ i.name ∧
      (∀ it ∈ c'.items, it ∈ c.items ∨ it = row) ∧ c'.nodes = c.nodes := by
  obtain ⟨node, hnode, ⟨old, hfind, rfl, rfl⟩ | ⟨-, rfl, rfl⟩⟩ := upsertItem_ok h
  · have hfound := List.find?_some hfind
    obtain ⟨-, -, hk, hn⟩ := ItemRow.hasKey_iff.1 hfound
    exact ⟨node, hnode, hk, hn, rfl,
      forall_mem_replaceWhere (P := fun it => it ∈ c.items ∨ it = old.rewritten i node)
        (fun it hit => .inl hit) (fun _ _ _ => .inr rfl), rfl⟩
  · refine ⟨node, hnode, rfl, rfl, rfl, fun it hit => ?_, rfl⟩
    rcases List.mem_append.1 hit with hit | hit
    · exact .inl hit
    · exact .inr (List.mem_singleton.1 hit)

end Written

/-! ## Writes that name and place storage -/

/-- A write names its buckets, prefixes and objects by paths with no reserved segment. -/
def StoreOp.Named : StoreOp → Prop
  | .upsertNode i => i.kind.Storage → Unreserved i.name
  | .upsertItem i => i.kind = .object → Unreserved i.name
  | _ => True

/-- A write puts its buckets and prefixes below ids that name only buckets and prefixes in
`c`, and its objects in such ids. -/
def StoreOp.Placed (c : Tables) : StoreOp → Prop
  | .upsertNode i => i.kind.Storage → ∀ p, i.parent = some p → c.IdKind p NodeKind.Storage
  | .upsertItem i => i.kind = .object → c.IdKind i.node NodeKind.Storage
  | _ => True

/-- Every bucket, prefix and object of the catalog, live or retired, has a name and a full name
with no reserved segment. -/
structure Tables.Clean (c : Tables) : Prop where
  nodes : ∀ n ∈ c.nodes, n.kind.Storage → Unreserved n.name ∧ Unreserved n.fullName
  items : ∀ i ∈ c.items, i.kind = .object → Unreserved i.name ∧ Unreserved i.fullName

section Clean

variable {c c' : Tables}

theorem Tables.Clean.of_nodes (h : c.Clean)
    (hn : ∀ n ∈ c'.nodes, n.kind.Storage → Unreserved n.name ∧ Unreserved n.fullName)
    (hi : c'.items ⊆ c.items) : c'.Clean :=
  ⟨hn, fun i hm => h.items i (hi hm)⟩

theorem Tables.Clean.of_items (h : c.Clean) (hn : c'.nodes ⊆ c.nodes)
    (hi : ∀ i ∈ c'.items, i.kind = .object → Unreserved i.name ∧ Unreserved i.fullName) :
    c'.Clean :=
  ⟨fun n hm => h.nodes n (hn hm), hi⟩

/-- Stamping rows in place keeps their kinds, names and full names. -/
theorem Tables.Clean.of_update (h : c.Clean) {p : NodeRow → Bool} {g : NodeRow → NodeRow}
    (hn : c'.nodes = updateWhere p g c.nodes) (hi : c'.items = c.items)
    (hg : ∀ n, (g n).kind = n.kind ∧ (g n).name = n.name ∧ (g n).fullName = n.fullName) :
    c'.Clean :=
  h.of_nodes (hn ▸ forall_mem_updateWhere h.nodes fun n hn _ => by
    rw [(hg n).1, (hg n).2.1, (hg n).2.2]
    exact h.nodes n hn) (hi ▸ List.Subset.refl _)

theorem Tables.Clean.clearedBelow (h : c.Clean) (node : NodeRow) : (c.clearedBelow node).Clean :=
  ⟨fun n hn => h.nodes n (List.mem_filter.1 hn).1, fun i hi => h.items i (List.mem_filter.1 hi).1⟩

/-- A bucket or prefix named by an unreserved path, written at the root or below a bucket or
prefix of a clean catalog, has an unreserved full name. -/
theorem placement_unreserved {i : NodeInput} {parent : Option NodeRow} (h : c.Clean)
    (hpf : ParentFound i c parent) (hk : i.kind.Storage) (hn : Unreserved i.name)
    (hp : ∀ p, i.parent = some p → c.IdKind p NodeKind.Storage) :
    Unreserved (placement parent i.kind i.name).2.2 := by
  unfold ParentFound at hpf
  cases hpar : i.parent with
  | none =>
    rw [hpar] at hpf
    subst hpf
    exact hn
  | some pid =>
    rw [hpar] at hpf
    obtain ⟨p, hfound, -, rfl⟩ := hpf
    obtain ⟨hpm, -, hpid, -⟩ := Tables.nodeById?_some hfound
    -- the parent found by id is a bucket or a prefix, so its full name is clean
    have hpk : p.kind.Storage := (hp pid hpar).kind p hpm hpid
    show Unreserved (p.fullName ++ i.kind.separator ++ i.name)
    rw [hk.separator]
    exact unreserved_append_slash.2 ⟨(h.nodes p hpm hpk).2, hn⟩

theorem upsertNode_clean {i : NodeInput} {row : NodeRow} (hn : (StoreOp.upsertNode i).Named)
    (hp : (StoreOp.upsertNode i).Placed c) (h : c.Clean) (hrun : upsertNode i c = .ok (row, c')) :
    c'.Clean := by
  obtain ⟨parent, hpf, hkey, hfull, -, hrows, hitems⟩ := upsertNode_written hrun
  simp only [NodeRow.naturalKey, Prod.mk.injEq] at hkey
  obtain ⟨-, -, -, hkind, hname⟩ := hkey
  refine h.of_nodes (fun n hm hs => ?_) (hitems ▸ List.Subset.refl _)
  rcases hrows n hm with hm | rfl
  · exact h.nodes n hm hs
  · rw [hkind] at hs
    exact ⟨hname ▸ hn hs, hfull ▸ placement_unreserved h hpf hs (hn hs) (hp hs)⟩

theorem upsertItem_clean {i : ItemInput} {row : ItemRow} (hn : (StoreOp.upsertItem i).Named)
    (hp : (StoreOp.upsertItem i).Placed c) (h : c.Clean) (hrun : upsertItem i c = .ok (row, c')) :
    c'.Clean := by
  obtain ⟨node, hnode, hkind, hname, hfull, hrows, hnodes⟩ := upsertItem_written hrun
  obtain ⟨hnm, -, hnid, -⟩ := Tables.nodeById?_some hnode
  refine h.of_items (hnodes ▸ List.Subset.refl _) fun it hit ho => ?_
  rcases hrows it hit with hit | rfl
  · exact h.items it hit ho
  · rw [hkind] at ho
    -- an object sits in a bucket or a prefix, whose full name is clean
    have hk : node.kind.Storage := (hp ho).kind node hnm hnid
    rw [hfull, hk.separator, hname]
    exact ⟨hn ho, unreserved_append_slash.2 ⟨(h.nodes node hnm hk).2, hn ho⟩⟩

/-- Every write that names and places its buckets, prefixes and objects keeps a catalog clean;
no other operation names or places anything. -/
theorem StoreOp.run_clean (op : StoreOp) (hn : op.Named) (hp : op.Placed c) (h : c.Clean)
    (hrun : op.run c = .ok c') : c'.Clean := by
  cases op <;> simp only [StoreOp.run] at hrun <;> obtain ⟨_, hrun⟩ := Except.map_snd_eq_ok hrun
  case upsertResource i =>
    obtain ⟨hn, hi, -⟩ := upsertResource_frame hrun
    exact h.of_nodes (hn ▸ h.nodes) (hi ▸ List.Subset.refl _)
  case upsertNode i => exact upsertNode_clean hn hp h hrun
  case upsertItem i => exact upsertItem_clean hn hp h hrun
  case deleteItem t node kind name =>
    obtain ⟨-, rfl⟩ := deleteItem_ok hrun
    exact h.of_items (List.Subset.refl _) fun it hit => h.items it (List.mem_filter.1 hit).1
  case deleteNodeItems t id =>
    obtain rfl := deleteNodeItems_ok hrun
    exact h.of_items (List.Subset.refl _) fun it hit => h.items it (List.mem_filter.1 hit).1
  case deleteSubtreeItems t id =>
    obtain ⟨_, -, rfl⟩ := deleteSubtreeItems_ok hrun
    exact h.of_items (List.Subset.refl _) fun it hit => h.items it (List.mem_filter.1 hit).1
  case deleteDescendantNodes t id =>
    obtain ⟨_, -, rfl⟩ := deleteDescendantNodes_ok hrun
    exact ⟨fun n hn => h.nodes n (List.mem_filter.1 hn).1,
      fun it hit => h.items it (List.mem_filter.1 hit).1⟩
  case clearSubtree t id =>
    obtain ⟨node, -, rfl⟩ := clearSubtree_ok hrun
    exact h.clearedBelow node
  case retireNode t id =>
    obtain ⟨node, -, rfl⟩ := retireNode_ok hrun
    exact (h.clearedBelow node).of_update rfl rfl fun _ => ⟨rfl, rfl, rfl⟩
  case beginNodeScan t id =>
    obtain ⟨-, rfl⟩ := beginNodeScan_ok hrun
    exact h.of_update rfl rfl fun _ => ⟨rfl, rfl, rfl⟩
  case finishNodeScan t id a =>
    obtain rfl := finishNodeScan_ok hrun
    exact h.of_update rfl rfl fun _ => ⟨rfl, rfl, rfl⟩
  case failNodeScan t id e =>
    obtain rfl := failNodeScan_ok hrun
    exact h.of_update rfl rfl fun _ => ⟨rfl, rfl, rfl⟩
  case setNodeAggregate t id a =>
    obtain rfl := setNodeAggregate_ok hrun
    exact h.of_update rfl rfl fun _ => ⟨rfl, rfl, rfl⟩
  case createRun t e m ts =>
    obtain ⟨hn, hi, -⟩ := createRun_frame hrun
    exact h.of_nodes (hn ▸ h.nodes) (hi ▸ List.Subset.refl _)
  case finishRun t id st msg counts =>
    obtain ⟨hn, hi, -⟩ := finishRun_frame hrun
    exact h.of_nodes (hn ▸ h.nodes) (hi ▸ List.Subset.refl _)

/-- A run of writes that each name and place what they write keeps a catalog clean. -/
theorem Tables.Writes.clean {W : StoreOp → Tables → Prop}
    (hW : ∀ op c, W op c → op.Named ∧ op.Placed c) (h : c.Writes W c') (hc : c.Clean) :
    c'.Clean :=
  h.keep (fun op _ _ hop _ hc hrun => op.run_clean (hW op _ hop).1 (hW op _ hop).2 hc hrun) hc

end Clean

end DataCatalog.Catalog
