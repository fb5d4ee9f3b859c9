import DataCatalog.Proofs.Scan.Chains
import DataCatalog.Proofs.Storage.Keys
/-!
# Rebuilding a subtree from a walk

A subtree rebuild clears the target's subtree and writes the walk's records below it, keeping
two tables keyed by relative path: the tracked prefix nodes and the totals of the objects
placed under each. The rebuild is right when every tracked node ends with its total as its
aggregate, which takes three facts kept from record to record:

* the tracked nodes are exactly the nodes below the target, each linked to the entry of its
  parent under the path one segment shorter;
* an object placed at directory `dir` is added by `addUpTo` to the totals of `dir` and of the
  paths above it up to the base, which are the tracked nodes whose subtree holds the object's
  node;
* no two placed objects share a directory and a name, since their normal paths differ.

The last is where the rebuild needs its walk to hold no two objects of one normal path.
-/

namespace DataCatalog.Catalog

open DataCatalog.Ident

section NodeWrites

variable {c c' : Tables} {i : NodeInput} {row : NodeRow}

/-- A node write either rewrites in place the row of its key, or adds a row of a new id when
no row has that key; it leaves the items alone. -/
theorem upsertNode_cases (hw : c.Wf) (h : upsertNode i c = .ok (row, c')) :
    c'.items = c.items ∧
    ((∃ old ∈ c.nodes, old.naturalKey = (i.tenant, i.resource, i.parent, i.kind, i.name) ∧
      row.Refines old ∧ c'.nodes = c.nodes.map fun x => if x.id = old.id then row else x) ∨
    ((∀ n ∈ c.nodes, n.naturalKey ≠ (i.tenant, i.resource, i.parent, i.kind, i.name)) ∧
      (∀ n ∈ c.nodes, n.id ≠ row.id) ∧ c'.nodes = c.nodes ++ [row])) := by
  obtain ⟨parent, hpf, ⟨old, hfind, rfl, rfl⟩ | ⟨hfind, -, rfl, hc'⟩⟩ := upsertNode_ok h
  · have hold := List.mem_of_find?_eq_some hfind
    have hk := List.find?_some hfind
    have hkey := NodeRow.hasKey_iff.1 hk
    exact ⟨rfl, .inl ⟨old, hold, hkey, NodeRow.rewritten_refines hw hold hkey hpf,
      replaceWhere_eq_map (·.id) old.id _ c.nodes hw.nodeIds⟩⟩
  · refine ⟨by rw [hc'], .inr ⟨fun n hn hkey => ?_, fun n hn => hw.fresh_node_id hn, by rw [hc']⟩⟩
    have := List.find?_eq_none.1 hfind n hn
    simp [NodeRow.hasKey_iff.2 hkey] at this

/-- After a node write every row is the written one or an old one. -/
theorem upsertNode_nodes (hw : c.Wf) (h : upsertNode i c = .ok (row, c')) :
    ∀ n ∈ c'.nodes, n = row ∨ n ∈ c.nodes := by
  intro n hn
  rcases (upsertNode_cases hw h).2 with ⟨old, -, -, -, hc'⟩ | ⟨-, -, hc'⟩
  · rw [hc', List.mem_map] at hn
    obtain ⟨m, hm, rfl⟩ := hn
    by_cases he : m.id = old.id
    · exact .inl (if_pos he)
    · exact .inr (by simpa [he] using hm)
  · rw [hc', List.mem_append, List.mem_singleton] at hn
    exact hn.symm

/-- A node write keeps what lies above a node. -/
theorem upsertNode_above (hw : c.Wf) (h : upsertNode i c = .ok (row, c')) {o : NodeRow}
    {x : NodeId} (hx : c.Above o x) : c'.Above o x := by
  obtain ⟨a, ha, rfl, hta, hsa⟩ := hx
  rcases (upsertNode_cases hw h).2 with ⟨old, hold, -, href, hc'⟩ | ⟨-, -, hc'⟩
  · by_cases he : a.id = old.id
    · -- the row in the old one's place has its tenant and path
      obtain rfl := hw.node_eq_of_id ha hold he
      refine ⟨row, ?_, href.id, by rw [hta, href.tenant], ?_⟩
      · rw [hc']
        exact List.mem_map.2 ⟨a, ha, if_pos rfl⟩
      · simpa [NodeRow.inSubtree, href.path] using hsa
    · refine ⟨a, ?_, rfl, hta, hsa⟩
      rw [hc']
      exact List.mem_map.2 ⟨a, ha, if_neg he⟩
  · exact ⟨a, by rw [hc']; exact List.mem_append_left _ ha, rfl, hta, hsa⟩

/-- A row of a new id holds nothing. -/
theorem Tables.Wf.tally_fresh (hw : c.Wf) (hw' : c'.Wf) (hn : c'.nodes = c.nodes ++ [row])
    (hi : c'.items = c.items) (hfresh : ∀ n ∈ c.nodes, n.id ≠ row.id) :
    c'.tally row = ⟨0, 0⟩ := by
  refine hw'.tally_eq_zero (by rw [hn]; simp) ⟨fun m hm hpar => ?_, fun it hit hnode => ?_⟩
  · rw [hn, List.mem_append, List.mem_singleton] at hm
    rcases hm with hm | rfl
    · rcases hw.placed m hm with hr | ⟨p, hp, hb⟩
      · rw [hr.parent] at hpar
        cases hpar
      · rw [hb.parent, Option.some.injEq] at hpar
        exact hfresh p hp hpar
    · rcases hw'.placed m (by rw [hn]; simp) with hr | ⟨p, hp, hb⟩
      · rw [hr.parent] at hpar
        cases hpar
      · rw [hb.parent, Option.some.injEq] at hpar
        obtain rfl := hw'.node_eq_of_id hp (by rw [hn]; simp) hpar
        exact hb.ne rfl
  · rw [hi] at hit
    obtain ⟨n, hn', hh⟩ := hw.itemsHang it hit
    exact hfresh n hn' (hh.node.symm.trans hnode)

/-- Two nodes each in the other's subtree share their path. -/
theorem NodeRow.path_eq_of_within {a b : NodeRow} (hab : a.inSubtree b.path)
    (hba : b.inSubtree a.path) : a.path = b.path := by
  have h₁ := NodeRow.inSubtree_iff.1 hab
  have h₂ := NodeRow.inSubtree_iff.1 hba
  rw [← String.toList_inj]
  exact (h₁.eq_of_length (Nat.le_antisymm h₁.length_le h₂.length_le)).symm

/-- Restamping rows in place keeps what lies above a node. -/
theorem Tables.Above.of_update {p : NodeRow → Bool} {f : NodeRow → NodeRow} {o : NodeRow}
    {x : NodeId} (h : c.Above o x) (hn : c'.nodes = updateWhere p f c.nodes)
    (hf : ∀ m, (f m).Refines m) : c'.Above o x := by
  obtain ⟨a, ha, rfl, hta, hsa⟩ := h
  have hmem : (if p a then f a else a) ∈ c'.nodes := by
    rw [hn, updateWhere]
    exact List.mem_map_of_mem ha
  by_cases hp : p a
  · rw [if_pos hp] at hmem
    exact ⟨f a, hmem, (hf a).id, by rw [hta, (hf a).tenant],
      by simpa [NodeRow.inSubtree, (hf a).path] using hsa⟩
  · rw [if_neg hp] at hmem
    exact ⟨a, hmem, rfl, hta, hsa⟩

/-- A placed node lies below its own id. -/
theorem Tables.Above.of_places {n : NodeRow} (h : c.Places n) : c.Above n n.id := by
  obtain ⟨r, hr, href, -⟩ := h
  exact ⟨r, hr, href.id, href.tenant.symm, by simpa [NodeRow.inSubtree, href.path] using n.inSubtree_self⟩

end NodeWrites

end DataCatalog.Catalog

namespace DataCatalog.Scan

open DataCatalog.Catalog DataCatalog.Storage

/-! ## Tables keyed by relative path -/

section Keyed

variable {α : Type} {k k' : String} {v : α} {l : List (String × α)}

theorem lookup_cons_ne (h : k' ≠ k) : ((k, v) :: l).lookup k' = l.lookup k' := by
  rw [List.lookup, beq_false_of_ne h]

theorem mem_of_lookup : ∀ {l : List (String × α)}, l.lookup k = some v → (k, v) ∈ l
  | (k₀, v₀) :: l, h => by
    by_cases hk : k = k₀
    · subst hk
      simp only [List.lookup, beq_self_eq_true, Option.some.injEq] at h
      subst h
      exact List.mem_cons_self
    · rw [lookup_cons_ne hk] at h
      exact List.mem_cons_of_mem _ (mem_of_lookup h)

theorem lookup_of_mem : ∀ {l : List (String × α)}, (l.map (·.1)).Nodup → (k, v) ∈ l →
    l.lookup k = some v
  | (k₀, v₀) :: l, hnd, h => by
    rw [List.map_cons, List.nodup_cons] at hnd
    rcases List.mem_cons.1 h with he | h
    · simp only [Prod.mk.injEq] at he
      obtain ⟨rfl, rfl⟩ := he
      simp [List.lookup]
    · have hk : k ≠ k₀ := fun e => hnd.1 (e ▸ List.mem_map.2 ⟨(k, v), h, rfl⟩)
      rw [lookup_cons_ne hk]
      exact lookup_of_mem hnd.2 h

theorem lookup_eq_none : ∀ {l : List (String × α)}, k ∉ l.map (·.1) → l.lookup k = none
  | [], _ => rfl
  | (k₀, v₀) :: l, h => by
    have hk : k ≠ k₀ := fun e => h (by simp [e])
    rw [lookup_cons_ne hk]
    exact lookup_eq_none fun hm => h (List.mem_cons_of_mem _ hm)

/-- Setting the entry of a key not in the table appends it. -/
theorem setEntry_of_not_mem : ∀ {l : List (String × α)}, k ∉ l.map (·.1) →
    setEntry k v l = l ++ [(k, v)]
  | [], _ => rfl
  | (k₀, v₀) :: l, h => by
    have hk : k₀ ≠ k := fun e => h (by simp [e])
    simp only [setEntry, beq_iff_eq, hk, if_false, List.cons_append]
    rw [setEntry_of_not_mem fun hm => h (List.mem_cons_of_mem _ hm)]

/-- Setting the entry of a key of the table replaces its value. -/
theorem setEntry_of_mem : ∀ {l : List (String × α)}, (l.map (·.1)).Nodup → k ∈ l.map (·.1) →
    setEntry k v l = l.map fun e => if e.1 = k then (k, v) else e
  | (k₀, v₀) :: l, hnd, h => by
    rw [List.map_cons, List.nodup_cons] at hnd
    by_cases hk : k₀ = k
    · subst hk
      have hrest : ∀ e ∈ l, (if e.1 = k₀ then (k₀, v) else e) = e := by
        intro e he
        have : e.1 ≠ k₀ := fun h' => hnd.1 (h' ▸ List.mem_map.2 ⟨e, he, rfl⟩)
        simp [this]
      simp [setEntry, List.map_congr_left hrest]
    · have hm : k ∈ l.map (·.1) := by
        rcases List.mem_cons.1 h with h | h
        · exact absurd h.symm hk
        · exact h
      simp [setEntry, hk, setEntry_of_mem hnd.2 hm]

theorem lookup_setEntry_self : ∀ (l : List (String × α)), (setEntry k v l).lookup k = some v
  | [] => by simp [setEntry]
  | (k₀, v₀) :: l => by
    by_cases hk : k₀ = k
    · subst hk
      simp [setEntry]
    · simp only [setEntry, beq_iff_eq, hk, if_false]
      rw [lookup_cons_ne (Ne.symm hk)]
      exact lookup_setEntry_self l

theorem lookup_setEntry_ne (h : k' ≠ k) : ∀ (l : List (String × α)),
    (setEntry k v l).lookup k' = l.lookup k'
  | [] => by simp [setEntry, lookup_cons_ne h]
  | (k₀, v₀) :: l => by
    by_cases hk : k₀ = k
    · subst hk
      simp [setEntry, lookup_cons_ne h]
    · simp only [setEntry, beq_iff_eq, hk, if_false]
      by_cases hk' : k' = k₀
      · subst hk'
        simp [List.lookup]
      · rw [lookup_cons_ne hk', lookup_cons_ne hk', lookup_setEntry_ne h l]

/-- With distinct keys, the entries after setting `k` are its new one and the others. -/
theorem mem_setEntry (hnd : (l.map (·.1)).Nodup) {e : String × α} :
    e ∈ setEntry k v l ↔ e = (k, v) ∨ (e.1 ≠ k ∧ e ∈ l) := by
  by_cases hk : k ∈ l.map (·.1)
  · rw [setEntry_of_mem hnd hk, List.mem_map]
    constructor
    · rintro ⟨y, hy, rfl⟩
      by_cases hyk : y.1 = k
      · exact .inl (if_pos hyk)
      · exact .inr ⟨by simp [hyk], by simpa [hyk] using hy⟩
    · rintro (rfl | ⟨hek, he⟩)
      · obtain ⟨y, hy, hyk⟩ := List.mem_map.1 hk
        exact ⟨y, hy, if_pos hyk⟩
      · exact ⟨e, he, if_neg hek⟩
  · rw [setEntry_of_not_mem hk, List.mem_append, List.mem_singleton]
    constructor
    · rintro (he | rfl)
      · exact .inr ⟨fun hek => hk (hek ▸ List.mem_map_of_mem he), he⟩
      · exact .inl rfl
    · rintro (rfl | ⟨-, he⟩)
      · exact .inr rfl
      · exact .inl he

/-- Setting an entry keeps a table's keys, or any other mark of its entries, distinct when
the new entry shares its mark with no entry of another key. -/
theorem nodup_setEntry {β : Type} (g : String × α → β) (hnd : (l.map (·.1)).Nodup)
    (hg : (l.map g).Nodup) (hnew : ∀ e ∈ l, g e = g (k, v) → e.1 = k) :
    ((setEntry k v l).map g).Nodup := by
  by_cases hk : k ∈ l.map (·.1)
  · rw [setEntry_of_mem hnd hk, List.map_map]
    refine List.Nodup.map_on (fun x hx y hy hxy => ?_) (List.Nodup.of_map _ hnd)
    simp only [Function.comp] at hxy
    by_cases hx' : x.1 = k <;> by_cases hy' : y.1 = k
    · exact List.inj_on_of_nodup_map hnd hx hy (hx'.trans hy'.symm)
    · rw [if_pos hx', if_neg hy'] at hxy
      exact absurd (hnew y hy hxy.symm) hy'
    · rw [if_neg hx', if_pos hy'] at hxy
      exact absurd (hnew x hx hxy) hx'
    · rw [if_neg hx', if_neg hy'] at hxy
      exact List.inj_on_of_nodup_map hg hx hy hxy
  · rw [setEntry_of_not_mem hk, List.map_append, List.nodup_append]
    refine ⟨hg, List.nodup_singleton _, fun a ha b hb hab => ?_⟩
    obtain ⟨e, he, rfl⟩ := List.mem_map.1 ha
    rw [List.map_singleton, List.mem_singleton] at hb
    subst hb
    exact hk (hnew e he hab ▸ List.mem_map_of_mem he)

end Keyed

/-! ## Adding an object up to the base -/

/-- `r` is `d` or lies above it on the way up to `base`, one `parentDir` at a time. -/
inductive Reaches (base : String) : String → String → Prop
  | refl (d : String) : Reaches base d d
  | up {d r : String} : d ≠ base → Reaches base (parentDir d) r → Reaches base d r

/-- Paths closed under going up until the base, each step shorter. -/
def ClimbsTo (base : String) (P : String → Prop) : Prop :=
  ∀ d, P d → d ≠ base → P (parentDir d) ∧ (parentDir d).length < d.length

theorem Reaches.length_le {base : String} {P : String → Prop} (hc : ClimbsTo base P)
    {d r : String} (h : Reaches base d r) (hd : P d) : r.length ≤ d.length := by
  induction h with
  | refl => exact Nat.le_refl _
  | up hne _ ih =>
    obtain ⟨hp, hlt⟩ := hc _ hd hne
    have := ih hp
    omega

/-- Going up along climbing paths stays on them. -/
theorem Reaches.mem {base : String} {P : String → Prop} (hc : ClimbsTo base P) {d r : String}
    (h : Reaches base d r) (hd : P d) : P r := by
  induction h with
  | refl => exact hd
  | up hne _ ih => exact ih (hc _ hd hne).1

open Classical in
/-- `addUpTo` adds the object to the totals of exactly the paths from `dir` up to the base. -/
theorem addUpTo_lookup {base : String} {P : String → Prop} (hc : ClimbsTo base P) (size : Int) :
    ∀ (fuel : Nat) (dir : String) (totals : List (String × Aggregate)) (r : String),
      P dir → dir.length < fuel →
      (addUpTo base size fuel dir totals).lookup r =
        if Reaches base dir r then some (((totals.lookup r).getD {}).addItem size)
        else totals.lookup r
  | 0, _, _, _, _, hf => absurd hf (Nat.not_lt_zero _)
  | fuel + 1, dir, totals, r, hd, hf => by
    simp only [addUpTo]
    by_cases hb : dir = base
    · -- the base is the last path added to
      subst hb
      have hreach : Reaches dir dir r ↔ r = dir := by
        refine ⟨fun h => ?_, fun h => h ▸ .refl r⟩
        cases h with
        | refl => rfl
        | up hne _ => exact absurd rfl hne
      simp only [beq_self_eq_true, if_true, hreach]
      by_cases hr : r = dir
      · subst hr
        simp [lookup_setEntry_self]
      · simp [hr, lookup_setEntry_ne hr]
    · obtain ⟨hp, hlt⟩ := hc dir hd hb
      simp only [beq_iff_eq, hb, if_false]
      rw [addUpTo_lookup hc size fuel (parentDir dir) _ r hp (by omega)]
      have hreach : Reaches base dir r ↔ r = dir ∨ Reaches base (parentDir dir) r := by
        refine ⟨fun h => ?_, fun h => h.elim (fun e => e ▸ .refl r) (.up hb)⟩
        cases h with
        | refl => exact .inl rfl
        | up _ h => exact .inr h
      by_cases hr : r = dir
      · subst hr
        have hnot : ¬Reaches base (parentDir r) r := fun h => by
          have := h.length_le hc hp
          omega
        simp [hnot, lookup_setEntry_self, (Reaches.refl r : Reaches base r r)]
      · simp only [hreach, hr, false_or, lookup_setEntry_ne hr]

/-! ## The rebuild's invariant -/

/-- What a subtree rebuild of `target`, walked from `base`, keeps in catalog `c` between
records: the table `tracked` of prefix nodes by relative path, the table `totals` of what was
placed under each, and the relative paths `placed` of the objects placed so far. -/
structure Tracks (c : Tables) (target : NodeRow) (base : String) (placed : List String)
    (tracked : List (String × NodeRow)) (totals : List (String × Aggregate)) : Prop where
  wf : c.Wf
  root : ∃ t, (base, t) ∈ tracked ∧ t.Refines target
  keys : (tracked.map (·.1)).Nodup
  ids : (tracked.map (·.2.id)).Nodup
  rows : ∀ e ∈ tracked, c.Places e.2
  within : ∀ e ∈ tracked, e.2.tenant = target.tenant ∧ e.2.inSubtree target.path
  links : ∀ e ∈ tracked, e.1 ≠ base → ∃ q ∈ tracked, e.1 = joinRel q.1 e.2.name ∧
    e.2.parent = some q.2.id ∧ e.2.kind = .keyPrefix ∧ e.2.name ≠ "" ∧ '/' ∉ e.2.name.toList
  complete : ∀ n ∈ c.nodes, n.tenant = target.tenant → n.inSubtree target.path →
    ∃ e ∈ tracked, e.2.id = n.id
  sums : ∀ e ∈ tracked, (totals.lookup e.1).getD {} = (c.tally e.2).wrap
  summed : ∀ r, r ∉ tracked.map (·.1) → totals.lookup r = none
  items : ∀ it ∈ c.items, ∀ e ∈ tracked, e.2.id = it.node →
    ∃ rel ∈ placed, parentDir rel = e.1 ∧ it.name = baseName rel ∧ (rel = "" ∨ IsNormal rel)
  agrees : c.AgreesOff fun x => c.Above target x ∨ x ∈ tracked.map (·.2.id)

namespace Tracks

variable {c c' : Tables} {target : NodeRow} {base : String} {placed : List String}
  {tracked : List (String × NodeRow)} {totals : List (String × Aggregate)}

theorem eq_of_id (h : Tracks c target base placed tracked totals) {e e' : String × NodeRow}
    (he : e ∈ tracked) (he' : e' ∈ tracked) (hid : e.2.id = e'.2.id) : e = e' :=
  List.inj_on_of_nodup_map h.ids he he' hid

theorem eq_of_key (h : Tracks c target base placed tracked totals) {e e' : String × NodeRow}
    (he : e ∈ tracked) (he' : e' ∈ tracked) (hk : e.1 = e'.1) : e = e' :=
  List.inj_on_of_nodup_map h.keys he he' hk

theorem entry_of_id (h : Tracks c target base placed tracked totals) {k k' : String}
    {a b : NodeRow} (ha : (k, a) ∈ tracked) (hb : (k', b) ∈ tracked) (hid : a.id = b.id) :
    k = k' ∧ a = b :=
  Prod.mk.inj (h.eq_of_id ha hb hid)

theorem entry_of_key (h : Tracks c target base placed tracked totals) {k : String}
    {a b : NodeRow} (ha : (k, a) ∈ tracked) (hb : (k, b) ∈ tracked) : a = b :=
  (Prod.mk.inj (h.eq_of_key ha hb rfl)).2

/-- A row of a tracked node's id is the one in its place. -/
theorem row_eq (h : Tracks c target base placed tracked totals) {e : String × NodeRow}
    (he : e ∈ tracked) {n : NodeRow} (hn : n ∈ c.nodes) (hid : n.id = e.2.id) :
    n.Refines e.2 := by
  obtain ⟨r, hr, href, -⟩ := h.rows e he
  obtain rfl := h.wf.node_eq_of_id hn hr (hid.trans href.id.symm)
  exact href

/-- Every tracked path is the base or longer. -/
theorem base_le (h : Tracks c target base placed tracked totals) :
    ∀ e ∈ tracked, base.length ≤ e.1.length := by
  intro e he
  -- induction on the length of the path: a link leads to a strictly shorter one
  induction hl : e.1.length using Nat.strong_induction_on generalizing e with
  | _ k ih =>
    by_cases hb : e.1 = base
    · rw [← hl, hb]
    · obtain ⟨q, hq, hjoin, -, -, hne, -⟩ := h.links e he hb
      have hlt : q.1.length < e.1.length := hjoin ▸ length_lt_joinRel hne
      have := ih q.1.length (hl ▸ hlt) q hq rfl
      omega

/-- Going up from a tracked path stays on tracked paths, each step shorter. -/
theorem climbs (h : Tracks c target base placed tracked totals) :
    ClimbsTo base (· ∈ tracked.map (·.1)) := by
  intro d hd hb
  obtain ⟨e, he, rfl⟩ := List.mem_map.1 hd
  obtain ⟨q, hq, hjoin, -, -, hne, hslash⟩ := h.links e he hb
  rw [hjoin, parentDir_joinRel hslash]
  exact ⟨List.mem_map_of_mem hq, length_lt_joinRel hne⟩

/-- A node below a tracked one is tracked one segment below it, under its own name. -/
theorem child_at (h : Tracks c target base placed tracked totals) {cur : String} {par : NodeRow}
    (hp : (cur, par) ∈ tracked) {m : NodeRow} (hm : m ∈ c.nodes) (hpar : m.parent = some par.id) :
    ∃ e ∈ tracked, e.1 = joinRel cur m.name ∧ e.2.id = m.id := by
  obtain ⟨pr, hpr, hrefp, -⟩ := h.rows _ hp
  have hb := h.wf.sitsBelow_of_parent hm hpr (by rw [hpar, hrefp.id])
  obtain ⟨hpt, hps⟩ := h.within _ hp
  have hms : m.inSubtree target.path :=
    hb.inSubtree (by simpa [NodeRow.inSubtree, hrefp.path] using hps)
  obtain ⟨e, he, hid⟩ := h.complete m hm (by rw [← hb.tenant, hrefp.tenant, hpt]) hms
  have hrefm := h.row_eq he hm hid.symm
  by_cases hbase : e.1 = base
  · -- the target sits above every tracked node, never below one
    obtain ⟨t, ht, hreft⟩ := h.root
    obtain rfl : e = (base, t) := h.eq_of_key he ht hbase
    refine absurd ?_ hb.not_inSubtree
    simpa [NodeRow.inSubtree, hrefm.path, hreft.path, hrefp.path] using hps
  · obtain ⟨q, hq, hjoin, hqpar, -, -, -⟩ := h.links e he hbase
    have hqid : q.2.id = (cur, par).2.id := by
      rw [← hrefm.parent, hpar] at hqpar
      exact (Option.some.inj hqpar).symm
    obtain rfl := h.eq_of_id hq hp hqid
    have hname : e.2.name = m.name := (NodeRow.naturalKey_eq.1 hrefm.key).2.2.2.2.symm
    exact ⟨e, he, by rw [hjoin, hname], hid⟩

/-- What is tracked one segment below a tracked parent is that parent's child of that name. -/
theorem at_child (h : Tracks c target base placed tracked totals) {cur s : String}
    {par ex : NodeRow} (hp : (cur, par) ∈ tracked) (hx : (joinRel cur s, ex) ∈ tracked)
    (hs : s ≠ "") (hslash : '/' ∉ s.toList) :
    ex.parent = some par.id ∧ ex.kind = .keyPrefix ∧ ex.name = s := by
  have hne : joinRel cur s ≠ base := by
    intro he
    have h₁ := h.base_le _ hp
    have h₂ : cur.length < (joinRel cur s).length := length_lt_joinRel hs
    rw [he] at h₂
    exact absurd h₁ (by simpa using h₂)
  obtain ⟨q, hq, hjoin, hqpar, hkind, -, hxslash⟩ := h.links _ hx hne
  have hdir : q.1 = cur := by
    have := congrArg parentDir hjoin
    rwa [parentDir_joinRel hslash, parentDir_joinRel hxslash, eq_comm] at this
  have hname : ex.name = s := by
    have := congrArg baseName hjoin
    rwa [baseName_joinRel hslash, baseName_joinRel hxslash, eq_comm] at this
  obtain rfl := h.eq_of_key hq hp hdir
  exact ⟨hqpar, hkind, hname⟩

/-- Above a tracked node lie tracked nodes and what lies above the target. -/
theorem above (h : Tracks c target base placed tracked totals) {e : String × NodeRow}
    (he : e ∈ tracked) {x : Ident.NodeId} (hx : c.Above e.2 x) :
    c.Above target x ∨ x ∈ tracked.map (·.2.id) := by
  obtain ⟨a, ha, rfl, hta, hsa⟩ := hx
  obtain ⟨het, hes⟩ := h.within e he
  rcases NodeRow.nested_of_within hsa hes with hat | hta'
  · -- `a` lies in the target's subtree, so it is tracked
    obtain ⟨e', he', hid⟩ := h.complete a ha (by rw [← hta, het]) hat
    exact .inr (List.mem_map.2 ⟨e', he', hid⟩)
  · exact .inl ⟨a, ha, rfl, het ▸ hta, hta'⟩

/-- Going up from a tracked path reaches exactly the tracked nodes whose subtree holds it. -/
theorem reaches_iff (h : Tracks c target base placed tracked totals) {d r : String}
    {pn n : NodeRow} (hd : (d, pn) ∈ tracked) (hr : (r, n) ∈ tracked) :
    Reaches base d r ↔ pn.tenant = n.tenant ∧ pn.inSubtree n.path := by
  obtain ⟨rn, hrn, hrefn, -⟩ := h.rows _ hr
  constructor
  · intro hreach
    induction hreach generalizing pn with
    | refl d =>
      obtain rfl := h.entry_of_key hd hr
      exact ⟨rfl, pn.inSubtree_self⟩
    | @up d r' hne _ ih =>
      obtain ⟨q, hq, hjoin, hqpar, -, -, hslash⟩ := h.links _ hd hne
      have hq' : (parentDir d, q.2) ∈ tracked := by
        rw [show d = (d, pn).1 from rfl, hjoin, parentDir_joinRel hslash]
        exact hq
      obtain ⟨hqt, hqs⟩ := ih hq' hr hrefn
      obtain ⟨rp, hrp, hrefp, -⟩ := h.rows _ hd
      obtain ⟨rq, hrq, hrefq, -⟩ := h.rows _ hq
      have hb := h.wf.sitsBelow_of_parent hrp hrq (by rw [hrefp.parent, hqpar, hrefq.id])
      refine ⟨by rw [← hrefp.tenant, ← hb.tenant, hrefq.tenant, hqt], ?_⟩
      have : rp.inSubtree n.path :=
        hb.inSubtree (by simpa [NodeRow.inSubtree, hrefq.path] using hqs)
      simpa [NodeRow.inSubtree, hrefp.path] using this
  · rintro ⟨ht, hs⟩
    obtain ⟨rp, hrp, hrefp, -⟩ := h.rows _ hd
    have hdesc := h.wf.descends_of_within hrp hrn (by rw [hrefp.tenant, hrefn.tenant, ht])
      (by simpa [NodeRow.inSubtree, hrefp.path, hrefn.path] using hs)
    clear hs ht
    -- induction on the descent of rows: each step up follows the link of a tracked path
    induction hdesc generalizing d pn with
    | refl =>
      obtain ⟨rfl, -⟩ := h.entry_of_id hd hr (hrefp.id.symm.trans hrefn.id)
      exact .refl d
    | @child m p n' hm hp hmp hdesc' ih =>
      by_cases hbase : d = base
      · -- at the base the descent has nowhere further to go
        subst hbase
        obtain ⟨t, ht, hreft⟩ := h.root
        obtain rfl := h.entry_of_key hd ht
        have hpn : n'.inSubtree m.path := by
          simpa [NodeRow.inSubtree, hrefn.path, hrefp.path, hreft.path] using (h.within _ hr).2
        have hmn := (h.wf.within_of_descends (Tables.Descends.child hm hp hmp hdesc')).2
        have hsame : m = n' := by
          apply h.wf.eq_of_path hm hrn
          rw [← String.toList_inj]
          have h₁ := NodeRow.inSubtree_iff.1 hmn
          have h₂ := NodeRow.inSubtree_iff.1 hpn
          exact h₁.eq_of_length (Nat.le_antisymm h₁.length_le h₂.length_le) |>.symm
        subst hsame
        obtain ⟨rfl, -⟩ := h.entry_of_id hd hr (hrefp.id.symm.trans hrefn.id)
        exact .refl _
      · obtain ⟨q, hq, hjoin, hqpar, -, -, hslash⟩ := h.links _ hd hbase
        obtain ⟨rq, hrq, hrefq, -⟩ := h.rows _ hq
        obtain rfl : p = rq := h.wf.node_eq_of_id hp hrq (by
          rw [hrefp.parent, hqpar] at hmp
          rw [hrefq.id]
          exact (Option.some.inj hmp).symm)
        have hdir : parentDir d = q.1 := by
          rw [show d = (d, pn).1 from rfl, hjoin, parentDir_joinRel hslash]
        exact .up hbase (hdir ▸ ih hq hrn hrefn hrq hrefq)

/-! ### Node writes -/

/-- Setting entry `k` to the row a node write returns keeps the invariant when the row belongs
at `k`: it lies in the target's subtree, links to the entry of its parent, takes the place of
whatever is tracked at `k` and of nothing else, and brings its own total and items. -/
theorem write (h : Tracks c target base placed tracked totals) {i : NodeInput} {k : String}
    {v : NodeRow} (hu : upsertNode i c = .ok (v, c'))
    (hvw : v.tenant = target.tenant ∧ v.inSubtree target.path)
    (hroot : k = base → v.Refines target)
    (hlink : k ≠ base → ∃ q ∈ tracked, k = joinRel q.1 v.name ∧ v.parent = some q.2.id ∧
      v.kind = .keyPrefix ∧ v.name ≠ "" ∧ '/' ∉ v.name.toList)
    (hkey : ∀ e ∈ tracked, e.1 = k → e.2.id = v.id)
    (hid : ∀ e ∈ tracked, e.2.id = v.id → e.1 = k)
    (hsum : (totals.lookup k).getD {} = (c.tally v).wrap)
    (hitem : ∀ it ∈ c.items, it.node = v.id →
      ∃ rel ∈ placed, parentDir rel = k ∧ it.name = baseName rel ∧ (rel = "" ∨ IsNormal rel)) :
    Tracks c' target base placed (setEntry k v tracked) totals := by
  have htally := upsertNode_tally h.wf hu
  have hitems := (upsertNode_cases h.wf hu).1
  have hmem : ∀ e, e ∈ setEntry k v tracked ↔ e = (k, v) ∨ (e.1 ≠ k ∧ e ∈ tracked) :=
    fun _ => mem_setEntry h.keys
  -- every old entry survives, under its key and id
  have hkeep : ∀ q ∈ tracked, ∃ q' ∈ setEntry k v tracked, q'.1 = q.1 ∧ q'.2.id = q.2.id := by
    intro q hq
    by_cases hqk : q.1 = k
    · exact ⟨(k, v), (hmem _).2 (.inl rfl), hqk.symm, (hkey q hq hqk).symm⟩
    · exact ⟨q, (hmem _).2 (.inr ⟨hqk, hq⟩), rfl, rfl⟩
  have hids : ∀ x ∈ tracked.map (·.2.id), x ∈ (setEntry k v tracked).map (·.2.id) := by
    intro x hx
    obtain ⟨q, hq, rfl⟩ := List.mem_map.1 hx
    obtain ⟨q', hq', -, hid'⟩ := hkeep q hq
    exact List.mem_map.2 ⟨q', hq', hid'⟩
  refine ⟨upsertNode_wf h.wf hu, ?root, nodup_setEntry _ h.keys h.keys fun _ _ he => he,
    nodup_setEntry _ h.keys h.ids hid, ?rows, ?within, ?links, ?complete, ?sums, ?summed, ?items,
    ?agrees⟩
  case root =>
    obtain ⟨t, ht, hreft⟩ := h.root
    by_cases hk : base = k
    · exact ⟨v, (hmem _).2 (.inl (by rw [hk])), hroot hk.symm⟩
    · exact ⟨t, (hmem _).2 (.inr ⟨hk, ht⟩), hreft⟩
  case rows =>
    intro e he
    rcases (hmem e).1 he with rfl | ⟨-, he⟩
    · exact (upsertNode_places_row h.wf hu).1
    · exact upsertNode_places h.wf hu (h.rows e he)
  case within =>
    intro e he
    rcases (hmem e).1 he with rfl | ⟨-, he⟩
    · exact hvw
    · exact h.within e he
  case links =>
    intro e he hb
    rcases (hmem e).1 he with rfl | ⟨hek, he⟩
    · obtain ⟨q, hq, hjoin, hpar, hkind, hne, hslash⟩ := hlink hb
      have hqk : q.1 ≠ k := fun e => by
        have := length_lt_joinRel (p := q.1) hne
        rw [← hjoin, e] at this
        exact Nat.lt_irrefl _ this
      exact ⟨q, (hmem q).2 (.inr ⟨hqk, hq⟩), hjoin, hpar, hkind, hne, hslash⟩
    · obtain ⟨q, hq, hjoin, hpar, hrest⟩ := h.links e he hb
      obtain ⟨q', hq', hk', hid'⟩ := hkeep q hq
      exact ⟨q', hq', by rw [hk', hjoin], by rw [hid', hpar], hrest⟩
  case complete =>
    intro n hn ht hs
    rcases upsertNode_nodes h.wf hu n hn with rfl | hn
    · exact ⟨(k, n), (hmem _).2 (.inl rfl), rfl⟩
    · obtain ⟨e, he, hid'⟩ := h.complete n hn ht hs
      obtain ⟨e', he', -, hid''⟩ := hkeep e he
      exact ⟨e', he', hid''.trans hid'⟩
  case sums =>
    intro e he
    rw [htally]
    rcases (hmem e).1 he with rfl | ⟨-, he⟩
    · exact hsum
    · exact h.sums e he
  case summed =>
    intro r hr
    refine h.summed r fun hm => hr ?_
    obtain ⟨q, hq, rfl⟩ := List.mem_map.1 hm
    obtain ⟨q', hq', hk', -⟩ := hkeep q hq
    exact List.mem_map.2 ⟨q', hq', hk'⟩
  case items =>
    intro it hit e he hid'
    rw [hitems] at hit
    rcases (hmem e).1 he with rfl | ⟨-, he⟩
    · exact hitem it hit hid'.symm
    · exact h.items it hit e he hid'
  case agrees =>
    refine (upsertNode_agreesOff h.wf hu h.agrees).mono fun x hx => ?_
    rcases hx with hx | hx
    · exact .inl (upsertNode_above h.wf hu hx)
    · exact .inr (hids x hx)

/-- A node write that rewrites the row tracked at `k` in place keeps the invariant. -/
theorem rewrite (h : Tracks c target base placed tracked totals) {i : NodeInput} {k : String}
    {x v : NodeRow} (hu : upsertNode i c = .ok (v, c')) (hx : (k, x) ∈ tracked)
    (hvx : v.Refines x) : Tracks c' target base placed (setEntry k v tracked) totals := by
  obtain ⟨hxt, hxs⟩ := h.within _ hx
  obtain ⟨-, -, hpar, hkind, hname⟩ := NodeRow.naturalKey_eq.1 hvx.key
  refine h.write hu ⟨hvx.tenant.trans hxt, by simpa [NodeRow.inSubtree, hvx.path] using hxs⟩
    (fun hk => ?_) (fun hk => ?_) (fun e he hek => ?_) (fun e he hid => ?_) ?_
    (fun it hit hnode => ?_)
  · obtain ⟨t, ht, hreft⟩ := h.root
    obtain rfl := h.entry_of_key (hk ▸ hx) ht
    exact hvx.trans hreft
  · obtain ⟨q, hq, hjoin, hqpar, hrest⟩ := h.links _ hx hk
    exact ⟨q, hq, by rw [hname]; exact hjoin, by rw [hpar]; exact hqpar, by rw [hkind, hname]; exact hrest⟩
  · rw [hvx.id]
    exact congrArg (·.2.id) (h.eq_of_key he hx hek)
  · exact congrArg (·.1) (h.eq_of_id he hx (hid.trans hvx.id))
  · rw [Tables.tally_congr hvx.tenant hvx.path]
    exact h.sums _ hx
  · exact h.items it hit _ hx (hvx.id.symm.trans hnode.symm)

/-- Writing the target again, as a record of the base brings its attributes, keeps the
invariant. -/
theorem rewriteTarget (h : Tracks c target base placed tracked totals) {v : NodeRow}
    {attrs : Option NodeAttributes}
    (hu : upsertNode ⟨target.tenant, target.resource, target.parent, target.kind, target.name,
      attrs⟩ c = .ok (v, c')) :
    Tracks c' target base placed (setEntry base v tracked) totals := by
  obtain ⟨t, ht, hreft⟩ := h.root
  obtain ⟨r, hr, hrt, -⟩ := h.rows _ ht
  have hkey : r.naturalKey = (target.tenant, target.resource, target.parent, target.kind,
      target.name) := (hrt.trans hreft).key
  rcases (upsertNode_cases h.wf hu).2 with ⟨old, hold, hok, hvo, -⟩ | ⟨hnone, -, -⟩
  · -- the row rewritten is the target's own
    obtain rfl : old = r := List.inj_on_of_nodup_map h.wf.nodeKeys hold hr (hok.trans hkey.symm)
    exact h.rewrite hu ht (hvo.trans hrt)
  · exact absurd hkey (hnone r hr)

/-- Writing the child named `s` of the node tracked at `cur` keeps the invariant, with the
child tracked one segment below. -/
theorem writeChild (h : Tracks c target base placed tracked totals) {cur s : String}
    {par v : NodeRow} {attrs : Option NodeAttributes} (hp : (cur, par) ∈ tracked)
    (hs : s ≠ "") (hslash : '/' ∉ s.toList)
    (hu : upsertNode ⟨par.tenant, par.resource, some par.id, .keyPrefix, s, attrs⟩ c =
      .ok (v, c')) :
    Tracks c' target base placed (setEntry (joinRel cur s) v tracked) totals := by
  have hw' := upsertNode_wf h.wf hu
  obtain ⟨hvp, hkv⟩ := upsertNode_places_row h.wf hu
  simp only [NodeRow.naturalKey, Prod.mk.injEq] at hkv
  obtain ⟨hvt, -, hvpar, hvk, hvn⟩ := hkv
  rcases (upsertNode_cases h.wf hu).2 with ⟨old, hold, hok, hvo, -⟩ | ⟨hnone, hfresh, hnodes⟩
  · -- the child existed: it is tracked one segment below its parent
    simp only [NodeRow.naturalKey, Prod.mk.injEq] at hok
    obtain ⟨-, -, hopar, -, honame⟩ := hok
    obtain ⟨e, he, hek, hid⟩ := h.child_at hp hold hopar
    rw [honame] at hek
    exact hek ▸ h.rewrite hu he (hvo.trans (h.row_eq he hold hid.symm))
  · -- a new child: nothing is tracked below the parent under its name
    have hnot : ∀ e ∈ tracked, e.1 ≠ joinRel cur s := by
      intro e he hek
      obtain ⟨ex, hx⟩ : ∃ ex, (joinRel cur s, ex) ∈ tracked := ⟨e.2, hek ▸ he⟩
      obtain ⟨hxpar, hxkind, hxname⟩ := h.at_child hp hx hs hslash
      obtain ⟨rx, hrx, hrefx, -⟩ := h.rows _ hx
      obtain ⟨pr, hpr, hrefp, -⟩ := h.rows _ hp
      have hb := h.wf.sitsBelow_of_parent hrx hpr (by rw [hrefx.parent, hxpar, hrefp.id])
      refine hnone rx hrx ?_
      simp only [NodeRow.naturalKey, Prod.mk.injEq]
      refine ⟨?_, ?_, ?_, ?_, ?_⟩
      · rw [← hb.tenant, hrefp.tenant]
      · rw [← hb.resource, (NodeRow.naturalKey_eq.1 hrefp.key).2.1]
      · rw [hrefx.parent, hxpar]
      · rw [(NodeRow.naturalKey_eq.1 hrefx.key).2.2.2.1, hxkind]
      · rw [(NodeRow.naturalKey_eq.1 hrefx.key).2.2.2.2, hxname]
    have hvw : v.tenant = target.tenant ∧ v.inSubtree target.path := by
      obtain ⟨hpt, hps⟩ := h.within _ hp
      obtain ⟨rv, hrv, hrefv, -⟩ := hvp
      obtain ⟨pr, hpr, hrefp, -⟩ := upsertNode_places h.wf hu (h.rows _ hp)
      have hb := hw'.sitsBelow_of_parent hrv hpr (by rw [hrefv.parent, hvpar, hrefp.id])
      refine ⟨by rw [hvt, hpt], ?_⟩
      have : rv.inSubtree target.path :=
        hb.inSubtree (by simpa [NodeRow.inSubtree, hrefp.path] using hps)
      simpa [NodeRow.inSubtree, hrefv.path] using this
    refine h.write hu hvw (fun hk => absurd hk fun hk => hnot _ (h.root.choose_spec.1) ?_)
      (fun _ => ⟨_, hp, by rw [hvn], hvpar, hvk, hvn ▸ hs, hvn ▸ hslash⟩)
      (fun e he hek => absurd hek (hnot e he))
      (fun e he hid => absurd hid ?_) ?_ (fun it hit hnode => ?_)
    · exact hk.symm
    · obtain ⟨r, hr, hrefr, -⟩ := h.rows e he
      exact fun hid => hfresh r hr (hrefr.id.trans hid)
    · rw [h.summed _ fun hm => by
        obtain ⟨e, he, hek⟩ := List.mem_map.1 hm
        exact hnot e he hek]
      have := Tables.Wf.tally_fresh h.wf hw' hnodes (upsertNode_cases h.wf hu).1 hfresh
      rw [← upsertNode_tally h.wf hu, this, Aggregate.wrap_zero]
      rfl
    · obtain ⟨n, hn, hh⟩ := h.wf.itemsHang it hit
      exact absurd (hh.node.symm.trans hnode) (hfresh n hn)

/-! ### Object writes -/

/-- Writing the item of an object record below the node tracked at the record's directory,
when no object of that path was placed before, adds a fresh item and brings the totals along:
`addUpTo` counts it exactly where the catalog now tallies it. -/
theorem placeObject (h : Tracks c target base placed tracked totals) {r : ObjectRecord}
    {par : NodeRow} {row : ItemRow} (hu : upsertItem (objectItem par r) c = .ok (row, c'))
    (hp : (parentDir r.relativePath, par) ∈ tracked)
    (hrel : r.relativePath = "" ∨ IsNormal r.relativePath) (hnew : r.relativePath ∉ placed) :
    Tracks c' target base (placed ++ [r.relativePath]) tracked
      (addUpTo base r.sizeBytes ((parentDir r.relativePath).length + 1) (parentDir r.relativePath)
        totals) := by
  obtain ⟨node, hnode, hnp⟩ := h.wf.nodeById?_of_places (h.rows _ hp)
  obtain ⟨hnm, -, -, hnl⟩ := Tables.nodeById?_some hnode
  have hhead : ∀ x : String, x = "" ∨ IsNormal x → x.toList.head? ≠ some '/' := by
    rintro x (rfl | hx)
    · simp
    · exact hx.head
  -- an item of that name below the node would come from an object of the same path
  have hfresh : ∀ x ∈ c.items,
      x.hasKey par.tenant node.id .object (baseName r.relativePath) = false := by
    intro x hx
    rw [Bool.eq_false_iff]
    intro hk
    obtain ⟨-, hxn, -, hxname⟩ := ItemRow.hasKey_iff.1 hk
    obtain ⟨rel, hrel', hdir, hname, hnorm⟩ :=
      h.items x hx _ hp (hnp.id.symm.trans hxn.symm)
    have : rel = r.relativePath := by
      rw [← joinRel_parentDir_baseName (hhead _ hnorm),
        ← joinRel_parentDir_baseName (hhead _ hrel), hdir, ← hname, hxname]
    exact hnew (this ▸ hrel')
  obtain ⟨hnodes, hitems, hrown, hrowname, hrowsize⟩ :=
    upsertItem_fresh hu hnode (objectItem_name par r ▸ hfresh)
  obtain ⟨node', hnode', hagree⟩ := upsertItem_agreesOff h.wf hu h.agrees
  obtain rfl : node' = node := Option.some.inj (hnode'.symm.trans hnode)
  have hcl := h.climbs
  -- the key is read off the pair by `dsimp`: unifying it with `parentDir` would unfold that first
  have hdir : parentDir r.relativePath ∈ tracked.map (·.1) := List.mem_map.2 ⟨_, hp, by dsimp only⟩
  have hlook := fun x => addUpTo_lookup hcl r.sizeBytes _ _ totals x hdir (Nat.lt_succ_self _)
  -- the tracked nodes that tally the new item are those `addUpTo` reaches
  have htallies : ∀ e ∈ tracked, c.tallies e.2 row ↔ Reaches base (parentDir r.relativePath) e.1 := by
    intro e he
    rw [h.wf.tallies_iff hnm hnl hrown, h.reaches_iff hp he, hnp.tenant]
    simp [NodeRow.inSubtree, hnp.path]
  refine ⟨upsertItem_wf h.wf hu, h.root, h.keys, h.ids, fun e he => (h.rows e he).of_nodes hnodes,
    h.within, h.links, fun n hn => h.complete n (hnodes ▸ hn), fun e he => ?_, fun x hx => ?_,
    fun it hit e he hid => ?_, ?_⟩
  · rw [hlook, Tables.tally_append_item hnodes hitems e.2]
    by_cases hR : Reaches base (parentDir r.relativePath) e.1
    · rw [if_pos hR, if_pos ((htallies e he).2 hR), Option.getD_some, h.sums e he,
        Aggregate.wrap_addItem, hrowsize]
      rfl
    · rw [if_neg hR, if_neg fun ht => hR ((htallies e he).1 ht)]
      exact h.sums e he
  · rw [hlook, if_neg fun hR => hx (hR.mem hcl hdir)]
    exact h.summed x hx
  · rw [hitems, List.mem_append, List.mem_singleton] at hit
    rcases hit with hit | rfl
    · obtain ⟨rel, hrel', hrest⟩ := h.items it hit e he hid
      exact ⟨rel, List.mem_append_left _ hrel', hrest⟩
    · obtain ⟨hk, -⟩ := h.entry_of_id hp he (hnp.id.symm.trans (hrown.symm.trans hid.symm))
      exact ⟨r.relativePath, List.mem_append_right _ (List.mem_singleton_self _), hk,
        hrowname.trans (objectItem_name par r), hrel⟩
  · refine hagree.mono fun x hx => ?_
    unfold Tables.Above
    rw [hnodes]
    rcases hx with hx | hx
    · exact hx
    · exact h.above hp (hx.of_refines hnp)

/-! ### Starting and finishing -/

/-- Clearing the target's subtree in a consistent catalog starts the rebuild: the target alone
is tracked, at the base, and nothing is placed. -/
theorem start (hw : c.Wf) (hcons : c.Consistent) (hp : c.Places target) {r : Nat × Nat}
    (hc : clearSubtree target.tenant target.id c = .ok (r, c')) :
    Tracks c' target base [] [(base, target)] [] := by
  obtain ⟨node, hnode, hagree, hzero⟩ :=
    clearSubtree_agreesOff hw hc (Tables.consistent_iff_agreesOff.1 hcons)
  obtain ⟨tr, htr, href⟩ := hw.nodeById?_of_places hp
  rw [htr, Option.some.injEq] at hnode
  subst hnode
  obtain ⟨node, hnode', rfl⟩ := clearSubtree_ok hc
  rw [htr, Option.some.injEq] at hnode'
  subst hnode'
  have hrm := (Tables.nodeById?_some htr).1
  have hone : ∀ e ∈ [(base, target)], e = (base, target) := fun e he => List.mem_singleton.1 he
  refine ⟨hw.clearedBelow hrm, ⟨target, List.mem_singleton_self _, .refl _⟩, by simp, by simp,
    ?rows, ?within, ?links, ?complete, ?sums, fun _ _ => rfl, ?items, ?agrees⟩
  case rows =>
    intro e he
    rw [hone e he]
    exact hp.clearedBelow fun _ _ => href.id.symm
  case within =>
    intro e he
    rw [hone e he]
    exact ⟨rfl, target.inSubtree_self⟩
  case links =>
    intro e he hb
    rw [hone e he] at hb
    exact absurd rfl hb
  case complete =>
    -- only the target's own row is left in its subtree
    intro n hn ht hs
    have hkept := NodeRow.keptBelow_iff.1 (List.mem_filter.1 hn).2
    have hid := hkept (by rw [ht, href.tenant]) (by simpa [NodeRow.inSubtree, href.path] using hs)
    exact ⟨(base, target), List.mem_singleton_self _, (hid.trans href.id).symm⟩
  case sums =>
    intro e he
    rw [hone e he, Tables.tally_congr href.tenant.symm href.path.symm, hzero, Aggregate.wrap_zero]
    rfl
  case items =>
    intro it hit e he hid
    rw [hone e he] at hid
    exact absurd (hid.symm.trans href.id.symm) ((hw.clearedBelow_childless hrm).2 it hit)
  case agrees =>
    refine hagree.mono fun x hx => .inl ?_
    obtain ⟨a, ha, rfl, hta, hsa⟩ := hx.resolve_left id
    -- what lay above the target stays: nothing above it is strictly below it
    refine ⟨a, List.mem_filter.2 ⟨ha, NodeRow.keptBelow_iff.2 fun _ hs => ?_⟩, rfl,
      by rw [← href.tenant, hta], by simpa [NodeRow.inSubtree, href.path] using hsa⟩
    rw [hw.eq_of_path ha hrm (NodeRow.path_eq_of_within hs hsa)]

/-- Restamping rows in place, without moving them or their items, keeps the invariant once
the agreements hold again. -/
theorem of_update (h : Tracks c target base placed tracked totals) (hw' : c'.Wf)
    {p : NodeRow → Bool} {f : NodeRow → NodeRow} (hn : c'.nodes = updateWhere p f c.nodes)
    (hi : c'.items = c.items) (hf : ∀ m, (f m).Refines m ∧ (f m).isLive = m.isLive)
    (hagree : c'.AgreesOff fun x => c.Above target x ∨ x ∈ tracked.map (·.2.id)) :
    Tracks c' target base placed tracked totals := by
  have htally : ∀ n, c'.tally n = c.tally n := fun n =>
    Tables.tally_updateWhere hn hi fun m => ⟨(hf m).1.id, (hf m).1.tenant, (hf m).1.path, (hf m).2⟩
  refine ⟨hw', h.root, h.keys, h.ids,
    fun e he => (h.rows e he).of_update hn (fun m => (hf m).1) (fun m => (hf m).2), h.within,
    h.links, fun n hn' ht hs => ?_, fun e he => by rw [htally]; exact h.sums e he, h.summed,
    fun it hit => h.items it (hi ▸ hit),
    hagree.mono fun x hx => hx.imp_left fun ha => ha.of_update hn fun m => (hf m).1⟩
  rw [hn, updateWhere, List.mem_map] at hn'
  obtain ⟨m, hm, rfl⟩ := hn'
  by_cases hpm : p m
  · simp only [hpm, if_true] at ht hs ⊢
    obtain ⟨e, he, hid⟩ := h.complete m hm ((hf m).1.tenant ▸ ht)
      (by simpa [NodeRow.inSubtree, (hf m).1.path] using hs)
    exact ⟨e, he, hid.trans (hf m).1.id.symm⟩
  · simp only [hpm, if_false, Bool.false_eq_true] at ht hs ⊢
    exact h.complete m hm ht hs

/-- Finishing a tracked node with its total makes it agree, and keeps the invariant, the
places of all nodes and what lies above them. -/
theorem finish (h : Tracks c target base placed tracked totals) {D : Ident.NodeId → Prop}
    (hD : c.AgreesOff D) {e : String × NodeRow} (he : e ∈ tracked)
    (hf : finishNodeScan e.2.tenant e.2.id ((totals.lookup e.1).getD {}) c = .ok ((), c')) :
    Tracks c' target base placed tracked totals ∧ (c'.AgreesOff fun x => D x ∧ x ≠ e.2.id) ∧
      (∀ n, c.Places n → c'.Places n) ∧ ∀ o x, c.Above o x → c'.Above o x := by
  have hw' := finishNodeScan_wf h.wf hf
  have hc' := finishNodeScan_ok hf
  have hn : c'.nodes = updateWhere (·.isNode e.2.tenant e.2.id)
      (·.finished (Time.Instant.ofMillis c.clock) ((totals.lookup e.1).getD {})) c.nodes := by
    rw [hc']
  have hi : c'.items = c.items := by rw [hc']
  obtain ⟨r, hr, href, -⟩ := h.rows e he
  have hot : r.isNode e.2.tenant e.2.id := by simp [NodeRow.isNode, href.tenant, href.id]
  have hagg : (r.finished (Time.Instant.ofMillis c.clock) ((totals.lookup e.1).getD {})).aggregate =
      (c.tally r).wrap := by
    rw [Tables.tally_congr href.tenant href.path, ← h.sums e he]
    rfl
  refine ⟨h.of_update hw' hn hi (fun _ => ⟨⟨rfl, rfl, rfl, rfl, rfl⟩, rfl⟩) ?_,
    hD.of_setAggregate h.wf hn hi (fun _ => ⟨rfl, rfl, rfl, rfl⟩) hr hot hagg,
    fun n hn' => hn'.of_update hn (fun _ => ⟨rfl, rfl, rfl, rfl, rfl⟩) (fun _ => rfl),
    fun o x hx => hx.of_update hn fun _ => ⟨rfl, rfl, rfl, rfl, rfl⟩⟩
  exact (h.agrees.of_setAggregate h.wf hn hi (fun _ => ⟨rfl, rfl, rfl, rfl⟩) hr hot hagg).mono
    fun x hx => hx.1

end Tracks

end DataCatalog.Scan
