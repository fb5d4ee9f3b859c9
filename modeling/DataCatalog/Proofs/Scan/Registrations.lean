import Mathlib
import DataCatalog.Proofs.Scan.RunLifecycle
import DataCatalog.Proofs.Scan.Isolation
/-!
# Resource registrations

The catalog keeps one row per tenant and external id for a registered resource. A registration
inserts the row with sync version 1, or rewrites it in place under the same id, raising the
version by one exactly when the kind, engine, name, configuration or status differ from what
the row holds. The configuration is compared as the JSON object it is, member by member, and
the comparison of values is equality (`Value.beq_iff_eq`). Along any sequence of registrations
of one resource the version therefore counts the registrations that changed something
(`changes`), and the rows of other resources stay as they were.

A scan registers the resource it reads this way, with the attributes minus the top-level members
whose keys name a credential as the configuration. Members are dropped whole or kept whole, so a
credential held inside another member's value is stored with it
(`ensureResource_stores_top_level_sanitized`).
-/

namespace DataCatalog.Json

mutual

/-- Comparing values member by member is equality. -/
theorem Value.beq_iff_eq : ∀ a b : Value, Value.beq a b = true ↔ a = b
  | .null, b => by cases b <;> simp [Value.beq]
  | .bool x, b => by cases b <;> simp [Value.beq]
  | .number x, b => by cases b <;> simp [Value.beq]
  | .string x, b => by cases b <;> simp [Value.beq]
  | .array xs, b => by cases b <;> simp [Value.beq, Value.beqList_iff_eq xs]
  | .object xs, b => by cases b <;> simp [Value.beq, Value.beqMembers_iff_eq xs]

theorem Value.beqList_iff_eq : ∀ xs ys : List Value, Value.beqList xs ys = true ↔ xs = ys
  | [], ys => by cases ys <;> simp [Value.beqList]
  | x :: xs, ys => by
    cases ys with
    | nil => simp [Value.beqList]
    | cons y ys => simp [Value.beqList, Value.beq_iff_eq x y, Value.beqList_iff_eq xs ys]

theorem Value.beqMembers_iff_eq :
    ∀ xs ys : List (String × Value), Value.beqMembers xs ys = true ↔ xs = ys
  | [], ys => by cases ys <;> simp [Value.beqMembers]
  | (k, x) :: xs, ys => by
    cases ys with
    | nil => simp [Value.beqMembers]
    | cons m ys =>
      obtain ⟨l, y⟩ := m
      simp [Value.beqMembers, Value.beq_iff_eq x y, Value.beqMembers_iff_eq xs ys, and_assoc]

end

instance : LawfulBEq Value where
  eq_of_beq h := (Value.beq_iff_eq _ _).1 h
  rfl := (Value.beq_iff_eq _ _).2 rfl

instance : DecidableEq Value := fun a b => decidable_of_iff _ (Value.beq_iff_eq a b)

end DataCatalog.Json

namespace DataCatalog.Catalog

open DataCatalog.Json DataCatalog.Ident

/-! ## What a registration records -/

/-- What a registration records of a resource: kind, engine, name, configuration and status. -/
structure Registration where
  kind : String
  engine : String
  name : String
  config : List (String × Value)
  status : EntityStatus
deriving DecidableEq

/-- The fields a registration writes. -/
def ResourceInput.registration (i : ResourceInput) : Registration :=
  ⟨i.kind, i.engine, i.name, i.config, i.status⟩

/-- The fields a resource row holds from its last registration. -/
def ResourceRow.registration (r : ResourceRow) : Registration :=
  ⟨r.kind, r.engine, r.name, r.config, r.status⟩

/-- A registration differs from a row exactly when one of the five recorded fields does. -/
theorem ResourceInput.differsFrom_iff {i : ResourceInput} {r : ResourceRow} :
    i.differsFrom r = true ↔ i.registration ≠ r.registration := by
  simp [ResourceInput.differsFrom, ResourceInput.registration, ResourceRow.registration,
    Registration.mk.injEq, or_iff_not_and_not]

/-- How many registrations of `gs` differ from the one before them, the first from `g`. -/
def changes : Registration → List Registration → Nat
  | _, [] => 0
  | g, g' :: gs => (if g' = g then 0 else 1) + changes g' gs

@[simp] theorem changes_nil (g : Registration) : changes g [] = 0 := rfl

@[simp] theorem changes_cons (g g' : Registration) (gs : List Registration) :
    changes g (g' :: gs) = (if g' = g then 0 else 1) + changes g' gs := rfl

/-! ## One registration -/

section Upsert

variable {c : Tables} {i : ResourceInput} {old : ResourceRow}

/-- The row a registration leaves in place of `old`, read at `now`: the recorded fields
rewritten, the version raised when one of them changed, the sync and update times moved. -/
def ResourceRow.reregistered (old : ResourceRow) (i : ResourceInput) (now : Time.Instant) :
    ResourceRow :=
  { old with kind := i.kind, engine := i.engine, name := i.name, config := i.config,
             status := i.status,
             syncVersion := old.syncVersion + if i.differsFrom old then 1 else 0,
             lastSyncedAt := some now, updatedAt := now }

/-- The row a first registration inserts, at version 1, under the id the counter mints next. -/
def Tables.registered (c : Tables) (i : ResourceInput) : ResourceRow :=
  ⟨⟨Uuid.ofSerial c.serial⟩, i.tenant, i.externalId, i.kind, i.engine, i.name, i.config, i.status,
    1, some (Time.Instant.ofMillis c.clock), Time.Instant.ofMillis c.clock,
    Time.Instant.ofMillis c.clock⟩

theorem upsertResource_of_found (h : c.getResource i.tenant i.externalId = some old) :
    upsertResource i c =
      .ok (old.reregistered i (Time.Instant.ofMillis c.clock),
        { c with clock := c.clock + 1,
                 resources := replaceWhere (·.isFor i.tenant i.externalId)
                   (fun _ => old.reregistered i (Time.Instant.ofMillis c.clock)) c.resources }) := by
  unfold upsertResource
  simp only [bind, StateT.bind, get, getThe, MonadStateOf.get, StateT.get, Tables.now,
    Except.bind, h, modify, modifyGet, MonadStateOf.modifyGet, StateT.modifyGet, pure,
    StateT.pure, Except.pure]
  rfl

theorem upsertResource_of_none (h : c.getResource i.tenant i.externalId = none) :
    upsertResource i c =
      .ok (c.registered i, { c with clock := c.clock + 1, serial := c.serial + 1,
                                    resources := c.resources ++ [c.registered i] }) := by
  unfold upsertResource
  simp only [bind, StateT.bind, get, getThe, MonadStateOf.get, StateT.get, Tables.now,
    Except.bind, h, Tables.mint, modify, modifyGet, MonadStateOf.modifyGet, StateT.modifyGet,
    pure, StateT.pure, Except.pure]
  rfl

/-- A registration never fails. -/
theorem upsertResource_ok (i : ResourceInput) (c : Tables) :
    ∃ row c', upsertResource i c = .ok (row, c') := by
  cases h : c.getResource i.tenant i.externalId with
  | none => exact ⟨_, _, upsertResource_of_none h⟩
  | some old => exact ⟨_, _, upsertResource_of_found h⟩

/-- The row of a resource, when it is the only one of its tenant and external id, is the one a
lookup finds. -/
theorem getResource_of_filter {t : TenantId} {e : ExternalId} {r : ResourceRow}
    (h : c.resources.filter (·.isFor t e) = [r]) : c.getResource t e = some r := by
  rw [Tables.getResource, ← List.head?_filter, h]
  rfl

theorem getResource_of_filter_nil {t : TenantId} {e : ExternalId}
    (h : c.resources.filter (·.isFor t e) = []) : c.getResource t e = none := by
  rw [Tables.getResource, ← List.head?_filter, h]
  rfl

theorem ResourceRow.isFor_reregistered (hi : old.isFor i.tenant i.externalId = true)
    (now : Time.Instant) : (old.reregistered i now).isFor i.tenant i.externalId = true := hi

theorem Tables.isFor_registered (c : Tables) (i : ResourceInput) :
    (c.registered i).isFor i.tenant i.externalId = true := by
  simp [Tables.registered, ResourceRow.isFor]

/-- Replacing the only row that satisfies `p` by one that still does leaves that one alone
satisfying `p`. -/
theorem filter_replaceWhere_single {α : Type} {p : α → Bool} {f : α → α} {x : α}
    (hf : p (f x) = true) : ∀ {l : List α}, l.filter p = [x] →
      (replaceWhere p f l).filter p = [f x]
  | [], h => by cases h
  | y :: l, h => by
    unfold replaceWhere
    by_cases hy : p y = true
    · rw [List.filter_cons_of_pos hy, List.cons.injEq] at h
      obtain ⟨rfl, hl⟩ := h
      simp [hy, hf, hl]
    · rw [List.filter_cons_of_neg hy] at h
      simp [hy, filter_replaceWhere_single hf h]

/-- Registering a resource that has its one row rewrites that row alone: same id, the recorded
fields of the registration, the version raised by one when they changed; other rows stay. -/
theorem upsertResource_single {t : TenantId} {e : ExternalId} (ht : i.tenant = t)
    (he : i.externalId = e) (h : c.resources.filter (·.isFor t e) = [old]) :
    ∃ row c', upsertResource i c = .ok (row, c') ∧ c'.resources.filter (·.isFor t e) = [row] ∧
      c'.resources.filter (fun x => !x.isFor t e) = c.resources.filter (fun x => !x.isFor t e) ∧
      row.id = old.id ∧ row.registration = i.registration ∧
      row.syncVersion = old.syncVersion + if i.registration = old.registration then 0 else 1 := by
  subst ht he
  have hold : old.isFor i.tenant i.externalId = true :=
    (List.mem_filter.1 ((h ▸ List.mem_singleton_self old : old ∈ _))).2
  refine ⟨_, _, upsertResource_of_found (getResource_of_filter h),
    filter_replaceWhere_single (ResourceRow.isFor_reregistered hold _) h,
    filter_replaceWhere fun x _ hx => ⟨by simp [hx], by simp [ResourceRow.isFor_reregistered hold]⟩,
    rfl, rfl, ?_⟩
  -- the version moves by the comparison the store makes
  by_cases hd : i.differsFrom old = true
  · simp [ResourceRow.reregistered, hd, ResourceInput.differsFrom_iff.1 hd]
  · have hsame : i.registration = old.registration := by
      by_contra hne
      exact hd (ResourceInput.differsFrom_iff.2 hne)
    simp [ResourceRow.reregistered, hd, hsame]

/-- Registering a resource that has no row inserts one at version 1 under a fresh id; other
rows stay. -/
theorem upsertResource_first {t : TenantId} {e : ExternalId} (ht : i.tenant = t)
    (he : i.externalId = e) (h : c.resources.filter (·.isFor t e) = []) :
    upsertResource i c = .ok (c.registered i, { c with
      clock := c.clock + 1
      serial := c.serial + 1
      resources := c.resources ++ [c.registered i] }) ∧
      (c.resources ++ [c.registered i]).filter (·.isFor t e) = [c.registered i] ∧
      (c.resources ++ [c.registered i]).filter (fun x => !x.isFor t e) =
        c.resources.filter (fun x => !x.isFor t e) := by
  subst ht he
  refine ⟨upsertResource_of_none (getResource_of_filter_nil h), ?_, ?_⟩
  · simp [List.filter_append, h, Tables.isFor_registered]
  · exact filter_append_of (by simp [Tables.isFor_registered])

end Upsert

/-- The key of a registration's row is its tenant and external id. -/
theorem ResourceRow.isFor_iff {r : ResourceRow} {t : TenantId} {e : ExternalId} :
    r.isFor t e = true ↔ r.tenant = t ∧ r.externalId = e := by
  simp [ResourceRow.isFor]

/-- Rows left as they were outside `p` keep every selection that lies outside `p`. -/
theorem filter_eq_of_filter_not_eq {α : Type} {p q : α → Bool} {l l' : List α}
    (h : l'.filter (fun x => !p x) = l.filter (fun x => !p x))
    (hq : ∀ x, q x = true → p x = false) : l'.filter q = l.filter q := by
  have hsplit : ∀ m : List α, m.filter q = (m.filter (fun x => !p x)).filter q := fun m => by
    rw [List.filter_filter]
    exact List.filter_congr fun x _ => by cases hx : q x <;> simp [hx, hq x]
  rw [hsplit l', h, ← hsplit l]

/-! ## One row per resource -/

section Keyed

variable {c c' : Tables}

/-- Each tenant's external id has at most one resource row. -/
def Tables.ResourcesKeyed (c : Tables) : Prop :=
  ∀ t e, (c.resources.filter (·.isFor t e)).length ≤ 1

/-- Under the keying, the rows of a resource are none or the one a lookup finds. -/
theorem Tables.ResourcesKeyed.filter_eq (hk : c.ResourcesKeyed) (t : TenantId) (e : ExternalId) :
    (c.getResource t e = none → c.resources.filter (·.isFor t e) = []) ∧
      ∀ r, c.getResource t e = some r → c.resources.filter (·.isFor t e) = [r] := by
  have hl := hk t e
  rw [Tables.getResource, ← List.head?_filter]
  cases hf : c.resources.filter (·.isFor t e) with
  | nil => simp
  | cons x rest =>
    rw [hf, List.length_cons] at hl
    have hrest : rest = [] := List.eq_nil_of_length_eq_zero (by omega)
    simp [hrest]

/-- A registration from a keyed catalog leaves its resource exactly one row, the one returned
with the fields of the registration, and the rows of every other resource as they were. -/
theorem upsertResource_keyed (hk : c.ResourcesKeyed) (i : ResourceInput) :
    ∃ row c', upsertResource i c = .ok (row, c') ∧
      c'.resources.filter (·.isFor i.tenant i.externalId) = [row] ∧
      c'.resources.filter (fun x => !x.isFor i.tenant i.externalId) =
        c.resources.filter (fun x => !x.isFor i.tenant i.externalId) ∧
      row.registration = i.registration := by
  cases hg : c.getResource i.tenant i.externalId with
  | none =>
    obtain ⟨hrun, hown, hothers⟩ :=
      upsertResource_first rfl rfl ((hk.filter_eq i.tenant i.externalId).1 hg)
    exact ⟨_, _, hrun, hown, hothers, rfl⟩
  | some old =>
    obtain ⟨row, c', hrun, hown, hothers, -, hreg, -⟩ :=
      upsertResource_single rfl rfl ((hk.filter_eq i.tenant i.externalId).2 old hg)
    exact ⟨row, c', hrun, hown, hothers, hreg⟩

/-- An operation that writes no registration leaves the resource rows as they were. -/
theorem StoreOp.run_resources (op : StoreOp) (hr : op.registers = false) (h : op.run c = .ok c') :
    c'.resources = c.resources := by
  cases hb : op.booksRun
  · exact (op.run_treeOnly hr hb h).1
  -- opening and closing a run write the run table alone
  cases op with
  | createRun t e m ts =>
    simp only [StoreOp.run, createRun_run, Except.map, Except.ok.injEq] at h
    rw [← h]
  | finishRun t id st msg counts =>
    obtain ⟨_, h⟩ := Except.map_snd_eq_ok h
    obtain ⟨-, _, -, -, rfl⟩ := finishRun_ok h
    rfl
  | _ => simp [StoreOp.booksRun] at hb

theorem StoreOp.run_resourcesKeyed (op : StoreOp) (hk : c.ResourcesKeyed)
    (h : op.run c = .ok c') : c'.ResourcesKeyed := by
  cases hb : op.registers
  · rw [Tables.ResourcesKeyed, op.run_resources hb h]
    exact hk
  cases op with
  | upsertResource i =>
    obtain ⟨row, c₁, hrun, hown, hothers, -⟩ := upsertResource_keyed hk i
    simp only [StoreOp.run, hrun, Except.map, Except.ok.injEq] at h
    subst h
    intro t e
    by_cases hkey : i.tenant = t ∧ i.externalId = e
    · obtain ⟨rfl, rfl⟩ := hkey
      simp [hown]
    -- the rows of another resource are among those the registration left alone
    have hq : ∀ x : ResourceRow, x.isFor t e = true → x.isFor i.tenant i.externalId = false := by
      intro x hx
      rw [ResourceRow.isFor_iff] at hx
      rw [Bool.eq_false_iff, ne_eq, ResourceRow.isFor_iff]
      rintro ⟨h₁, h₂⟩
      exact hkey ⟨h₁ ▸ hx.1, h₂ ▸ hx.2⟩
    rw [filter_eq_of_filter_not_eq hothers hq]
    exact hk t e
  | _ => simp [StoreOp.registers] at hb

theorem Reachable.resourcesKeyed (h : Reachable c) : c.ResourcesKeyed := by
  induction h with
  | empty => intro t e; simp
  | step op _ hrun ih => exact op.run_resourcesKeyed ih hrun

end Keyed

/-! ## Runs of registrations -/

section Runs

/-- What one registration makes of the row it finds: the same id, and the version raised by one
exactly when the recorded fields changed. -/
def ResourceRow.Resynced (a b : ResourceRow) : Prop :=
  b.id = a.id ∧ b.syncVersion = a.syncVersion + if b.registration = a.registration then 0 else 1

/-- Along a history of resyncs the id stays, and the version counts the changes. -/
theorem ResourceRow.Resynced.getLast : ∀ {a : ResourceRow} {l : List ResourceRow},
    List.IsChain ResourceRow.Resynced (a :: l) →
      ((a :: l).getLast (List.cons_ne_nil _ _)).id = a.id ∧
      ((a :: l).getLast (List.cons_ne_nil _ _)).syncVersion =
        a.syncVersion + changes a.registration (l.map (·.registration))
  | a, [], _ => by simp
  | a, b :: l, h => by
    obtain ⟨⟨hid, hver⟩, hrest⟩ := List.isChain_cons_cons.1 h
    obtain ⟨hid', hver'⟩ := ResourceRow.Resynced.getLast hrest
    rw [List.getLast_cons_cons]
    refine ⟨hid'.trans hid, ?_⟩
    rw [hver', hver, List.map_cons, changes_cons, Nat.add_assoc]

theorem Store.mapM_cons_of_ok {α β : Type} {f : α → Store β} {a : α} {l : List α}
    {c c₁ c₂ : Tables} {b : β} {bs : List β} (h : f a c = .ok (b, c₁))
    (hl : l.mapM f c₁ = .ok (bs, c₂)) : (a :: l).mapM f c = .ok (b :: bs, c₂) := by
  rw [List.mapM_cons]
  simp only [bind, StateT.bind, h, Except.bind, hl, pure, StateT.pure, Except.pure]

variable {c : Tables} {t : TenantId} {e : ExternalId}

/-- Registrations of a resource that has its one row resync that row, call after call; each
returns the row it leaves, and the rows of other resources stay. -/
theorem upsertResource_mapM_of_single {is : List ResourceInput}
    (hkey : ∀ i ∈ is, i.tenant = t ∧ i.externalId = e) :
    ∀ {c : Tables} {old : ResourceRow}, c.resources.filter (·.isFor t e) = [old] →
      ∃ rows c', is.mapM upsertResource c = .ok (rows, c') ∧
        c'.resources.filter (·.isFor t e) = [(old :: rows).getLast (List.cons_ne_nil _ _)] ∧
        c'.resources.filter (fun x => !x.isFor t e) =
          c.resources.filter (fun x => !x.isFor t e) ∧
        rows.map (·.registration) = is.map (·.registration) ∧
        List.IsChain ResourceRow.Resynced (old :: rows) := by
  induction is with
  | nil =>
    intro c old h
    exact ⟨[], c, by rw [List.mapM_nil]; rfl, by simpa using h, rfl, rfl, List.isChain_singleton _⟩
  | cons i is ih =>
    intro c old h
    obtain ⟨ht, he⟩ := hkey i List.mem_cons_self
    obtain ⟨row, c₁, hrun, hown, hothers, hid, hreg, hver⟩ := upsertResource_single ht he h
    obtain ⟨rows, c', hmap, hown', hothers', hregs, hchain⟩ :=
      ih (fun j hj => hkey j (List.mem_cons_of_mem _ hj)) hown
    refine ⟨row :: rows, c', Store.mapM_cons_of_ok hrun hmap, ?_, hothers'.trans hothers,
      by simp [hreg, hregs], List.isChain_cons_cons.2 ⟨⟨hid, by rw [hreg]; exact hver⟩, hchain⟩⟩
    rw [hown', List.getLast_cons_cons]

/-- The first registration of a resource inserts its row at version 1 under a fresh id; the
registrations after it resync that row. -/
theorem upsertResource_mapM_of_none {i₀ : ResourceInput} {is : List ResourceInput}
    (hkey : ∀ i ∈ i₀ :: is, i.tenant = t ∧ i.externalId = e)
    (h : c.resources.filter (·.isFor t e) = []) :
    ∃ rows c', (i₀ :: is).mapM upsertResource c = .ok (c.registered i₀ :: rows, c') ∧
      c'.resources.filter (·.isFor t e) =
        [(c.registered i₀ :: rows).getLast (List.cons_ne_nil _ _)] ∧
      c'.resources.filter (fun x => !x.isFor t e) = c.resources.filter (fun x => !x.isFor t e) ∧
      rows.map (·.registration) = is.map (·.registration) ∧
      List.IsChain ResourceRow.Resynced (c.registered i₀ :: rows) := by
  obtain ⟨ht, he⟩ := hkey i₀ List.mem_cons_self
  obtain ⟨hrun, hown, hothers⟩ := upsertResource_first ht he h
  obtain ⟨rows, c', hmap, hown', hothers', hregs, hchain⟩ :=
    upsertResource_mapM_of_single (fun j hj => hkey j (List.mem_cons_of_mem _ hj)) (c :=
      { c with clock := c.clock + 1, serial := c.serial + 1,
               resources := c.resources ++ [c.registered i₀] }) hown
  exact ⟨rows, c', Store.mapM_cons_of_ok hrun hmap, hown', hothers'.trans hothers, hregs, hchain⟩

end Runs

end DataCatalog.Catalog

namespace DataCatalog.Scan

open DataCatalog.Catalog DataCatalog.Connect DataCatalog.Ident

/-- The registration a scan writes for a directory entry read with descriptor `d`: the entry's
key and name, the credential-free attributes as configuration, its activity as status. -/
def RegisteredResource.resourceInput (r : RegisteredResource) (d : Descriptor) : ResourceInput :=
  ⟨r.tenant, r.externalId, d.kind.name, d.engine, r.name, d.sanitized,
    if r.active then .active else .inactive⟩

/-- Resource writes made one after another, each alone, do in the world what the registrations
do in the catalog, and nothing else. -/
theorem Step.runAlone_mapM_loop_write {α : Type} {f : α → Step ResourceRow}
    {g : α → ResourceInput} (hf : ∀ a, f a = writeResource (g a)) :
    ∀ (l : List α) (acc : List ResourceRow) (w : World) {rows : List ResourceRow} {c' : Tables},
      List.mapM.loop (upsertResource ∘ g) l acc w.catalog = .ok (rows, c') →
      (List.mapM.loop f l acc).runAlone w = (.ok rows, { w with catalog := c' })
  | [], acc, w, rows, c', h => by
    simp only [List.mapM.loop, pure, StateT.pure, Except.pure, Except.ok.injEq,
      Prod.mk.injEq] at h
    obtain ⟨rfl, rfl⟩ := h
    rfl
  | a :: l, acc, w, rows, c', h => by
    obtain ⟨row, c₁, hup⟩ := upsertResource_ok (g a) w.catalog
    simp only [List.mapM.loop, bind, StateT.bind, Function.comp_apply, hup, Except.bind] at h
    rw [List.mapM.loop, Step.runAlone_bind, hf, writeResource, Step.runAlone_inCatalogSpan, hup]
    exact Step.runAlone_mapM_loop_write hf l (row :: acc) { w with catalog := c₁ } h

theorem RegisteredResource.descriptor_attributes {r : RegisteredResource} {d : Descriptor}
    (h : r.descriptor = .ok d) : d.attributes = r.attributes := by
  unfold RegisteredResource.descriptor Descriptor.new at h
  split at h <;> simp only [Except.mapError, Except.ok.injEq, reduceCtorEq] at h
  rw [← h]

/-- A scan registers the resource it reads with the top-level members of its attributes whose
keys name no credential, their values as they are: the stored configuration has no top-level
credential key, and a credential held inside another member's value is stored with it. -/
theorem ensureResource_stores_top_level_sanitized {r : RegisteredResource} {d : Descriptor}
    (hd : r.descriptor = .ok d) (w : World) (hw : w.catalog.ResourcesKeyed) :
    ∃ row c', (ensureResource r d).runAlone w = (.ok row, { w with catalog := c' }) ∧
      c'.getResource r.tenant r.externalId = some row ∧
      row.config = r.attributes.filter (fun m => !isSecretKey m.1) ∧
      (∀ m ∈ row.config, isSecretKey m.1 = false) ∧
      ∀ m ∈ r.attributes, isSecretKey m.1 = false → m ∈ row.config := by
  obtain ⟨row, c', hrun, hown, -, hreg⟩ := upsertResource_keyed hw (r.resourceInput d)
  have hconfig : row.config = r.attributes.filter (fun m => !isSecretKey m.1) := by
    rw [show row.config = (r.resourceInput d).config from congrArg Registration.config hreg,
      ← RegisteredResource.descriptor_attributes hd]
    rfl
  refine ⟨row, c', ?_, getResource_of_filter hown, hconfig, fun m hm => ?_, fun m hm hs => ?_⟩
  · show (writeResource (r.resourceInput d)).runAlone w = _
    rw [writeResource, Step.runAlone_inCatalogSpan, hrun]
  · rw [hconfig] at hm
    simpa using (List.mem_filter.1 hm).2
  · rw [hconfig]
    exact List.mem_filter.2 ⟨hm, by simp [hs]⟩

/-- Registering one resource again and again keeps exactly one row for it. Each call returns the
row it leaves, with the fields of its registration; the first call on a resource without a row
inserts it at version 1 under a fresh id, and each later call keeps the id and raises the version
by one exactly when kind, engine, name, configuration or status differ from the row it finds.
The rows of other resources stay as they were. A scan registers its resource through this same
write and touches nothing else of the world, so a run of scans' registrations is such a run. -/
theorem registration_keeps_one_row :
    (∀ (c : Tables) (t : TenantId) (e : ExternalId) (is : List ResourceInput), Reachable c →
      (∀ i ∈ is, i.tenant = t ∧ i.externalId = e) →
      ∃ rows c', is.mapM upsertResource c = .ok (rows, c') ∧
        rows.map (·.registration) = is.map (·.registration) ∧
        (∀ last ∈ rows.getLast?, c'.resources.filter (·.isFor t e) = [last]) ∧
        c'.resources.filter (fun x => !x.isFor t e) = c.resources.filter (fun x => !x.isFor t e) ∧
        (∀ r₀, c.getResource t e = some r₀ → List.IsChain ResourceRow.Resynced (r₀ :: rows)) ∧
        (c.getResource t e = none → List.IsChain ResourceRow.Resynced rows ∧
          ∀ first ∈ rows.head?, first.id = ⟨Uuid.ofSerial c.serial⟩ ∧ first.syncVersion = 1)) ∧
    ∀ (es : List (RegisteredResource × Descriptor)) (w : World) (rows : List ResourceRow)
      (c' : Tables),
      (es.map fun x => x.1.resourceInput x.2).mapM upsertResource w.catalog = .ok (rows, c') →
      (es.mapM fun x => ensureResource x.1 x.2).runAlone w = (.ok rows, { w with catalog := c' }) := by
  refine ⟨fun c t e is hc hkey => ?_, fun es w rows c' h => ?_⟩
  · have hk := (hc.resourcesKeyed).filter_eq t e
    cases hg : c.getResource t e with
    | some r₀ =>
      obtain ⟨rows, c', hrun, hown, hothers, hregs, hchain⟩ :=
        upsertResource_mapM_of_single hkey (hk.2 r₀ hg)
      refine ⟨rows, c', hrun, hregs, fun last hl => ?_, hothers, fun r h => ?_, fun h => (by cases h)⟩
      · -- the one row is the last one returned
        obtain ⟨_, rfl⟩ := List.mem_getLast?_eq_getLast (List.mem_getLast?_cons (y := r₀) hl)
        exact hown
      · cases h
        exact hchain
    | none =>
      cases is with
      | nil =>
        exact ⟨[], c, by rw [List.mapM_nil]; rfl, rfl, by simp, rfl, fun _ h => (by cases h),
          fun _ => ⟨List.isChain_nil, by simp⟩⟩
      | cons i₀ is =>
        obtain ⟨rows, c', hrun, hown, hothers, hregs, hchain⟩ :=
          upsertResource_mapM_of_none hkey (hk.1 hg)
        refine ⟨_, c', hrun, by rw [List.map_cons, List.map_cons, hregs]; rfl, fun last hl => ?_,
          hothers, fun _ h => (by cases h), fun _ => ⟨hchain, by simp [Tables.registered]⟩⟩
        obtain ⟨_, rfl⟩ := List.mem_getLast?_eq_getLast hl
        exact hown
  · -- both sequences are the same loop over the entries
    rw [List.mapM_map] at h
    unfold List.mapM at h ⊢
    have hf : ∀ x : RegisteredResource × Descriptor,
        ensureResource x.1 x.2 = writeResource (x.1.resourceInput x.2) := fun _ => rfl
    exact Step.runAlone_mapM_loop_write hf es [] w h

/-- A warehouse registered twice with the same settings, from an empty catalog, keeps one row at
version 1. -/
theorem warehouse_registered_twice_keeps_version_one :
    ∃ rows c', (List.replicate 2 ⟨⟨1⟩, ⟨7⟩, "postgres", "postgres", "warehouse",
        [("host", .string "db.internal")], .active⟩).mapM upsertResource {} = .ok (rows, c') ∧
      List.IsChain ResourceRow.Resynced rows ∧ ∀ first ∈ rows.head?, first.syncVersion = 1 := by
  obtain ⟨rows, c', hrun, -, -, -, -, hnone⟩ :=
    registration_keeps_one_row.1 {} ⟨1⟩ ⟨7⟩ (List.replicate 2 ⟨⟨1⟩, ⟨7⟩, "postgres", "postgres",
      "warehouse", [("host", .string "db.internal")], .active⟩) .empty (by simp)
  obtain ⟨hchain, hfirst⟩ := hnone rfl
  exact ⟨rows, c', hrun, hchain, fun r hr => (hfirst r hr).2⟩

end DataCatalog.Scan
