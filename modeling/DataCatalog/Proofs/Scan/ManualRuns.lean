import Mathlib
import DataCatalog.Proofs.Scan.Confined
import DataCatalog.Proofs.Scan.Outcomes
import DataCatalog.Proofs.Scan.TableEntries
/-!
# Manual runs

A refresh of a resource, or of one of its tables, is recorded as a manual run. The resource is
looked up for the tenant first; a lookup the directory refuses is answered with its error before
anything is written. Otherwise one run is opened, one pass is made, and the run is closed with
what the pass gathered: failed with the pass's error when there was one, successful otherwise.
A pass opens and closes no run, and run ids are minted fresh, so the run closed is the run
opened and it is the one run the request adds (`ManualRun`).

Which errors end a pass is decided in two places. Before its namespaces are reconciled, every
failure ends it: a bad descriptor, an inactive resource, a failed connection, and a failed listing
of the schemas or buckets, enumeration failures included. While they are reconciled, a refresh
stops only for an error that aborts the resource or for a busy subtree (`ScanError.StopsRefresh`);
a namespace whose reconciliation fails otherwise is skipped.
-/

namespace DataCatalog.Catalog

open DataCatalog.Ident

/-! ## The run table -/

section Runs

variable {c c' : Tables}

/-- Every run of `c` bears an id that the counter of `c` has minted. -/
def Tables.RunsMinted (c : Tables) : Prop :=
  ∀ r ∈ c.runs, ∃ k < c.serial, r.id.text = Uuid.ofSerial k

theorem upsertResource_runs {i : ResourceInput} {row : ResourceRow}
    (h : upsertResource i c = .ok (row, c')) : c'.runs = c.runs := by
  obtain ⟨-, ⟨-, rfl⟩ | ⟨-, -, rfl⟩⟩ := upsertResource_cases h <;> rfl

/-- Whether an operation writes a resource registration. -/
def StoreOp.registers : StoreOp → Bool
  | .upsertResource _ => true
  | _ => false

/-- A write that neither registers a resource nor opens or closes a run leaves the resources and
the runs as they were: it changes only nodes, items and the counters. -/
theorem StoreOp.run_treeOnly (op : StoreOp) (hr : op.registers = false)
    (hb : op.booksRun = false) (h : op.run c = .ok c') :
    c'.resources = c.resources ∧ c'.runs = c.runs := by
  cases op <;>
    simp only [StoreOp.run, StoreOp.registers, StoreOp.booksRun, Bool.true_eq_false] at h hr hb <;>
    obtain ⟨_, h⟩ := Except.map_snd_eq_ok h
  case upsertNode i =>
    obtain ⟨_, -, ⟨_, -, -, rfl⟩ | ⟨-, -, -, rfl⟩⟩ := upsertNode_ok h <;> exact ⟨rfl, rfl⟩
  case upsertItem i =>
    obtain ⟨_, -, ⟨_, -, -, rfl⟩ | ⟨-, -, rfl⟩⟩ := upsertItem_ok h <;> exact ⟨rfl, rfl⟩
  case deleteItem t node kind name =>
    rw [(deleteItem_ok h).2]
    exact ⟨rfl, rfl⟩
  case deleteNodeItems t id =>
    rw [deleteNodeItems_ok h]
    exact ⟨rfl, rfl⟩
  case deleteSubtreeItems t id =>
    obtain ⟨_, -, rfl⟩ := deleteSubtreeItems_ok h
    exact ⟨rfl, rfl⟩
  case deleteDescendantNodes t id =>
    obtain ⟨_, -, rfl⟩ := deleteDescendantNodes_ok h
    exact ⟨rfl, rfl⟩
  case clearSubtree t id =>
    obtain ⟨_, -, rfl⟩ := clearSubtree_ok h
    exact ⟨rfl, rfl⟩
  case retireNode t id =>
    obtain ⟨_, -, rfl⟩ := retireNode_ok h
    exact ⟨rfl, rfl⟩
  case beginNodeScan t id =>
    obtain ⟨-, rfl⟩ := beginNodeScan_ok h
    exact ⟨rfl, rfl⟩
  case finishNodeScan t id a =>
    rw [finishNodeScan_ok h]
    exact ⟨rfl, rfl⟩
  case failNodeScan t id e =>
    rw [failNodeScan_ok h]
    exact ⟨rfl, rfl⟩
  case setNodeAggregate t id a =>
    rw [setNodeAggregate_ok h]
    exact ⟨rfl, rfl⟩

/-- A write that neither opens nor closes a run leaves the runs as they were. -/
theorem StoreOp.run_runs (op : StoreOp) (hb : op.booksRun = false) (h : op.run c = .ok c') :
    c'.runs = c.runs := by
  cases hr : op.registers
  · exact (op.run_treeOnly hr hb h).2
  -- a registration writes the resource table alone
  cases op with
  | upsertResource i =>
    obtain ⟨_, h⟩ := Except.map_snd_eq_ok h
    exact upsertResource_runs h
  | _ => simp [StoreOp.registers] at hr

/-- The row `createRun` appends to `c`: a running run under the next id of the counter. -/
def Tables.nextRun (c : Tables) (t : TenantId) (e : Option ExternalId) (m : ScanMode)
    (ts : List String) : RunRow :=
  ⟨⟨Uuid.ofSerial c.serial⟩, t, e, m, ts, .running, none, {}, Time.Instant.ofMillis c.clock, none,
    none⟩

/-- The row `finishRun` leaves for `run` closed at `now`. -/
def RunRow.closedAt (run : RunRow) (st : RunStatus) (msg : Option String) (n : ScanCounts)
    (now : Time.Instant) : RunRow :=
  { run with status := st, errorMessage := msg, counts := n, completedAt := some now,
             durationMs := some (now.toMillis - run.startedAt.toMillis) }

theorem createRun_run (t : TenantId) (e : Option ExternalId) (m : ScanMode) (ts : List String)
    (c : Tables) :
    createRun t e m ts c = .ok (c.nextRun t e m ts,
      { c with
        runs := c.runs ++ [c.nextRun t e m ts]
        serial := c.serial + 1
        clock := c.clock + 1 }) := rfl

/-- A run whose id the counter has minted is not the next run. -/
theorem Tables.RunsMinted.ne_nextRun (hm : c.RunsMinted) {r : RunRow} (hr : r ∈ c.runs)
    (t : TenantId) (e : Option ExternalId) (m : ScanMode) (ts : List String) :
    r.id ≠ (c.nextRun t e m ts).id := by
  obtain ⟨k, hk, he⟩ := hm r hr
  intro hid
  have hserial := ofSerial_injective (he.symm.trans (congrArg RunId.text hid))
  omega

/-- Closing the last run of `c`, whose id no earlier run bears, rewrites that run in place. -/
theorem finishRun_last {R : List RunRow} {run : RunRow} {t : TenantId} {st : RunStatus}
    {msg : Option String} {n : ScanCounts} (hc : c.runs = R ++ [run])
    (hR : ∀ r ∈ R, r.id ≠ run.id) (ht : run.tenant = t) (hrun : run.status = .running)
    (hst : st.isTerminal = true) :
    finishRun t run.id st msg n c =
      .ok (run.closedAt st msg n (Time.Instant.ofMillis c.clock),
        { c with clock := c.clock + 1,
                 runs := R ++ [run.closedAt st msg n (Time.Instant.ofMillis c.clock)] }) := by
  -- the run is the first one of its id, so the only one found and rewritten
  have hfirst : ∀ r ∈ R, r.isRun t run.id = false := fun r hr => by
    simp [RunRow.isRun, hR r hr]
  have hself : run.isRun t run.id = true := by simp [RunRow.isRun, ht]
  have hfind : c.runs.find? (fun r => r.isRun t run.id && r.status == .running) = some run := by
    rw [hc, List.find?_append, List.find?_eq_none.2 fun r hr => by simp [hfirst r hr]]
    simp [hself, hrun]
  unfold finishRun
  simp only [hst, Bool.not_true, Bool.false_eq_true, if_false, bind, StateT.bind, Tables.now,
    get, getThe, MonadStateOf.get, StateT.get, Except.bind, hfind, set, StateT.set, pure,
    StateT.pure, Except.pure]
  rw [hc, replaceWhere_append_cons R [] hfirst hself]
  rfl

/-- Every write keeps run ids minted: a new run takes the next id of the counter, a closed run
keeps its own, and no write turns the counter back. -/
theorem StoreOp.run_runsMinted (op : StoreOp) (hm : c.RunsMinted) (h : op.run c = .ok c') :
    c'.RunsMinted := by
  have hs := (op.run_keepsKinds h).1
  cases hb : op.booksRun
  · intro r hr
    obtain ⟨k, hk, he⟩ := hm r (op.run_runs hb h ▸ hr)
    exact ⟨k, by omega, he⟩
  cases op with
  | createRun t e m ts =>
    simp only [StoreOp.run, createRun_run, Except.map, Except.ok.injEq] at h
    subst h
    intro r hr
    rcases List.mem_append.1 hr with hr | hr
    · obtain ⟨k, hk, he⟩ := hm r hr
      exact ⟨k, by simp only; omega, he⟩
    · rw [List.mem_singleton] at hr
      exact ⟨c.serial, by simp, by rw [hr]; rfl⟩
  | finishRun t id st msg counts =>
    simp only [StoreOp.run] at h
    obtain ⟨_, h⟩ := Except.map_snd_eq_ok h
    -- the closed row keeps the id of the running row it rewrites
    unfold Catalog.finishRun at h
    cases hst : st.isTerminal
    · simp [hst, Store.fail] at h
    simp only [hst, Bool.not_true, Bool.false_eq_true, if_false, bind, StateT.bind, Tables.now,
      get, getThe, MonadStateOf.get, StateT.get, pure, Except.pure, Except.bind] at h
    cases hf : c.runs.find? (fun r => r.isRun t id && r.status == .running) with
    | none => simp [hf, Store.fail] at h
    | some old =>
      simp only [hf, set] at h
      obtain ⟨-, rfl⟩ := h
      have hold := hm old (List.mem_of_find?_eq_some hf)
      intro r hr
      refine forall_mem_replaceWhere
        (P := fun (r : RunRow) => ∃ k < c.serial, r.id.text = Uuid.ofSerial k) hm ?_ r hr
      exact fun _ _ _ => hold
  | _ => simp [StoreOp.booksRun] at hb

/-- The run a manual request for the resource `e` of tenant `t`, targeting `targets`, records
for a pass that ended with `outcome`: failed with the text of the pass's error when it had one,
successful otherwise, with the counts the pass gathered. -/
structure RunRow.Records (run : RunRow) (t : TenantId) (e : ExternalId) (targets : List String)
    (outcome : ScanCounts × Option Scan.ScanError) : Prop where
  tenant : run.tenant = t
  externalId : run.externalId = some e
  manual : run.mode = .manual
  targets : run.targets = targets
  status : run.status = if outcome.2.isSome then .failed else .success
  message : run.errorMessage = outcome.2.map (·.message)
  counts : run.counts = outcome.1

/-- Every catalog reachable from the empty one has its run ids minted. -/
theorem Reachable.runsMinted (h : Reachable c) : c.RunsMinted := by
  induction h with
  | empty => intro r hr; cases hr
  | step op _ hrun ih => exact op.run_runsMinted ih hrun

end Runs

end DataCatalog.Catalog

namespace DataCatalog.Scan

open DataCatalog.Catalog DataCatalog.Connect DataCatalog.Source DataCatalog.Storage
open DataCatalog.Ident

/-! ## A pass leaves the runs -/

/-- The writes of a pass keep the runs. -/
theorem passesKeep_runs (u : TenantId) (R : List RunRow) : PassesKeep u fun c => c.runs = R :=
  fun op _ _ _ hb hc h => (op.run_runs hb h).trans hc

/-- A step that keeps `J`, run alone from a catalog satisfying `J`, leaves one satisfying it. -/
theorem Step.Keeps.runAlone_catalog {α : Type} {J : Tables → Prop} {Q : α → Prop} {x : Step α}
    (h : x.Keeps J Q) {w : World} (hw : J w.catalog) : J (x.runAlone w).2.catalog :=
  (h.run hw).1

/-- A pass over a resource, run alone, leaves the runs as they were. -/
theorem scanRegistered_runs (r : RegisteredResource) (selection : Selection) (w : World) :
    ((scanRegistered r selection).run.runAlone w).2.catalog.runs = w.catalog.runs :=
  (Pass.Keeps.run (scanRegistered_keeps (passesKeep_runs r.tenant w.catalog.runs) rfl
    selection)).runAlone_catalog rfl

/-- A pass over one table, run alone, leaves the runs as they were. -/
theorem scanRegisteredTable_runs (r : RegisteredResource) (schema table : String) (w : World) :
    ((scanRegisteredTable r schema table).run.runAlone w).2.catalog.runs = w.catalog.runs :=
  (Pass.Keeps.run (scanRegisteredTable_keeps (passesKeep_runs r.tenant w.catalog.runs) rfl
    schema table)).runAlone_catalog rfl

/-- Only an error that ends the run escapes a pass. -/
theorem Pass.run_error_fatal {p : Pass Unit} {w w' : World} {e : ScanError}
    (h : (Pass.run p).runAlone w = (.error e, w')) : e.fatal = true := by
  rw [Pass.runAlone_run] at h
  rcases hp : p.runAlone {} w with ⟨⟨e' | _, _⟩, _⟩ <;> rw [hp] at h <;> dsimp only at h
  · split at h
    · cases h
      assumption
    · cases h
  · cases h

/-! ## The runs a manual request records -/

/-- A manual request for the resource `e` of tenant `t`: the resource is looked up, a manual run
targeting `targets` is opened, the pass `pass` is made over the resource, and the run is closed
with the pass's outcome. -/
def manualScan (t : TenantId) (e : ExternalId) (targets : List String)
    (pass : RegisteredResource → Pass Unit) : Step RunRow := do
  let r ← lookupResource t e
  let run ← openRun t (some e) .manual targets
  closeRun run (← (pass r).run)

theorem scanResource_eq_manualScan (t : TenantId) (e : ExternalId) (namespaces : List String) :
    scanResource t e namespaces =
      manualScan t e namespaces fun r => scanRegistered r (.refresh namespaces) := rfl

theorem scanTable_eq_manualScan (t : TenantId) (e : ExternalId) (schema table : String) :
    scanTable t e schema table =
      manualScan t e [schema ++ "." ++ table] fun r => scanRegisteredTable r schema table := rfl

/-- How a manual request for the resource `e` of tenant `t`, recorded as a run targeting
`targets` and making the pass `pass`, ends from the world `w`: with its result and the world it
leaves. -/
inductive ManualRun (t : TenantId) (e : ExternalId) (targets : List String)
    (pass : RegisteredResource → Pass Unit) (w : World) : Except ScanError RunRow → World → Prop
  /-- The directory refused the lookup: its error is returned, and nothing changed. -/
  | refused {err : ScanError} : w.directory.lookup t e = .error err →
      ManualRun t e targets pass w (.error err) w
  /-- A run was opened and the pass ended, with or without an error; the run closed with the
  pass's outcome is returned, and it is the one run the request added. -/
  | closed {r : RegisteredResource} {c₁ : Tables} {opened run : RunRow}
      {outcome : ScanCounts × Option ScanError} {w₂ w' : World} :
      w.directory.lookup t e = .ok r →
      createRun t (some e) .manual targets w.catalog = .ok (opened, c₁) →
      (pass r).run.runAlone { w with catalog := c₁ } = (.ok outcome, w₂) →
      run.id = opened.id → run.Records t e targets outcome →
      w'.catalog.runs = w.catalog.runs ++ [run] →
      ManualRun t e targets pass w (.ok run) w'
  /-- A run was opened and the pass failed with an error that ends the run: the error is
  returned, and the run opened is left running. -/
  | abandoned {r : RegisteredResource} {c₁ : Tables} {opened : RunRow} {err : ScanError}
      {w' : World} :
      w.directory.lookup t e = .ok r →
      createRun t (some e) .manual targets w.catalog = .ok (opened, c₁) →
      (pass r).run.runAlone { w with catalog := c₁ } = (.error err, w') → err.fatal = true →
      opened.status = .running → w'.catalog.runs = w.catalog.runs ++ [opened] →
      ManualRun t e targets pass w (.error err) w'

theorem lookupResource_runAlone (t : TenantId) (e : ExternalId) (w : World) :
    (lookupResource t e).runAlone w = (w.directory.lookup t e, w) := by
  simp only [lookupResource, Step.runAlone_bind, Step.runAlone_get, Step.runAlone_ofExcept]

/-- The directory refuses a lookup while it fails, for an external id it lacks, and for a
resource of another tenant. -/
theorem Directory.lookup_error {d : Directory} {t : TenantId} {e : ExternalId} {err : ScanError}
    (h : d.lookup t e = .error err) :
    (∃ m, d.failure = some m ∧ err = .directory m) ∨
      (d.find e = .ok none ∧ err = .resourceNotFound e.text) ∨
      ∃ r, d.find e = .ok (some r) ∧ r.tenant ≠ t ∧
        err = .accessDenied ("resource " ++ e.text ++ " does not belong to tenant " ++ t.text) := by
  unfold Directory.lookup at h
  rcases hf : d.find e with err' | _ | r
  · simp only [hf, bind, Except.bind, Except.error.injEq] at h
    unfold Directory.find at hf
    cases hfail : d.failure with
    | none => simp [hfail] at hf
    | some m =>
      simp only [hfail, Except.error.injEq] at hf
      exact .inl ⟨m, rfl, h ▸ hf.symm⟩
  · simp only [hf, bind, Except.bind, throw, throwThe, MonadExceptOf.throw,
      Except.error.injEq] at h
    exact .inr (.inl ⟨rfl, h.symm⟩)
  · by_cases ht : r.tenant = t
    · simp [hf, bind, Except.bind, ht, pure, Except.pure] at h
    · simp only [hf, bind, Except.bind, ht, beq_iff_eq, if_false, throw, throwThe,
        MonadExceptOf.throw, Except.error.injEq] at h
      exact .inr (.inr ⟨r, rfl, ht, h.symm⟩)

/-- A manual request whose pass leaves the runs as they were ends as `ManualRun` says, from a
catalog whose run ids are minted. -/
theorem manualScan_ends (t : TenantId) (e : ExternalId) (targets : List String)
    {pass : RegisteredResource → Pass Unit}
    (hpass : ∀ r w, ((pass r).run.runAlone w).2.catalog.runs = w.catalog.runs) {w : World}
    (hw : w.catalog.RunsMinted) :
    ManualRun t e targets pass w ((manualScan t e targets pass).runAlone w).1
      ((manualScan t e targets pass).runAlone w).2 := by
  unfold manualScan
  rw [Step.runAlone_bind, lookupResource_runAlone]
  rcases hl : w.directory.lookup t e with err | r
  · exact .refused hl
  dsimp only
  have hopen := createRun_run t (some e) .manual targets w.catalog
  rw [Step.runAlone_bind, openRun, Step.runAlone_inCatalogSpan, hopen]
  dsimp only
  rw [Step.runAlone_bind]
  set opened := w.catalog.nextRun t (some e) .manual targets
  set w₁ : World := { w with catalog := { w.catalog with
    runs := w.catalog.runs ++ [opened], serial := w.catalog.serial + 1,
    clock := w.catalog.clock + 1 } }
  -- the pass leaves the runs of the world the run was opened in
  have hruns : ((pass r).run.runAlone w₁).2.catalog.runs = w.catalog.runs ++ [opened] :=
    hpass r w₁
  rcases hp : (pass r).run.runAlone w₁ with ⟨err | outcome, w₂⟩
  · rw [hp] at hruns
    exact .abandoned hl hopen hp (Pass.run_error_fatal hp) rfl hruns
  rw [hp] at hruns
  dsimp only
  unfold closeRun endRun
  rw [Step.runAlone_inCatalogSpan,
    finishRun_last hruns (fun r hr => hw.ne_nextRun hr t (some e) .manual targets) rfl rfl
      (by split <;> rfl)]
  exact .closed hl hopen hp rfl ⟨rfl, rfl, rfl, rfl, rfl, rfl, rfl⟩ rfl

/-! ## The errors a pass passes on -/

/-- Every error the step passes on, run alone from any world, satisfies `P`. -/
def Step.Raises {α : Type} (P : ScanError → Prop) (s : Step α) : Prop :=
  ∀ w e w', s.runAlone w = (.error e, w') → P e

/-- Every error the pass passes on, run alone from any counts and world, satisfies `P`. -/
def Pass.Raises {α : Type} (P : ScanError → Prop) (p : Pass α) : Prop :=
  ∀ c w e c' w', p.runAlone c w = ((.error e, c'), w') → P e

/-- An error that ends a refresh while it reconciles namespaces: one that aborts the resource,
or a busy subtree. -/
def ScanError.StopsRefresh (e : ScanError) : Prop :=
  e.abortsResource = true ∨ ∃ s, e = .subtreeBusy s

theorem ScanError.abortsResource_of_fatal {e : ScanError} (h : e.fatal = true) :
    e.abortsResource = true := by
  cases e <;> simp_all [ScanError.fatal, ScanError.abortsResource]

section Raises

variable {α β : Type} {P : ScanError → Prop}

namespace Step.Raises

theorem pure (a : α) : (Pure.pure a : Step α).Raises P := fun _ _ _ h => by
  rw [Step.runAlone_pure] at h
  cases h

theorem throw {e : ScanError} (h : P e) : (MonadExcept.throw e : Step α).Raises P :=
  fun _ _ _ h' => by
    rw [Step.runAlone_throw] at h'
    cases h'
    exact h

theorem bind {x : Step α} {f : α → Step β} (hx : x.Raises P) (hf : ∀ a, (f a).Raises P) :
    (x >>= f).Raises P := by
  intro w e w' h
  rw [Step.runAlone_bind] at h
  rcases hr : x.runAlone w with ⟨e₁ | a, w₁⟩ <;> rw [hr] at h
  · cases h
    exact hx w _ _ hr
  · exact hf a w₁ e w' h

theorem ofExcept {r : Except ScanError α} (h : ∀ e, r = .error e → P e) :
    (Step.ofExcept r).Raises P := fun _ e _ hr => by
  rw [Step.runAlone_ofExcept] at hr
  exact h e (congrArg Prod.fst hr)

theorem get : (MonadState.get : Step World).Raises P := fun _ _ _ h => by
  rw [Step.runAlone_get] at h
  cases h

theorem modify {f : World → World} : (modify f : Step Unit).Raises P :=
  fun _ _ _ h => by
    rw [Step.runAlone_modify] at h
    cases h

/-- A catalog operation fails only with a store error. -/
theorem inCatalogSpan {ahead behind : Nat} {op : Catalog.Store α}
    (h : ∀ se, P (.persistence se)) : (inCatalogSpan ahead behind op).Raises P := by
  intro w e w' hr
  rw [Step.runAlone_inCatalogSpan] at hr
  rcases hop : op w.catalog with se | ⟨a, c⟩ <;> rw [hop] at hr
  · cases hr
    exact h se
  · cases hr

theorem readCatalog {f : Tables → α} : (readCatalog f).Raises P := fun _ _ _ h => by
  rw [Step.runAlone_readCatalog] at h
  cases h

/-- An attempt passes on only the errors that end the run. -/
theorem attempt {body : Step α} (h : ∀ e, e.fatal = true → P e) :
    (Step.attempt body).Raises P := by
  intro w e w' hr
  rw [Step.runAlone_attempt] at hr
  rcases hb : body.runAlone w with ⟨e₁ | a, w₁⟩ <;> rw [hb] at hr <;> dsimp only at hr
  · split at hr
    · cases hr
      exact h _ ‹_›
    · cases hr
  · cases hr

/-- A handler that passes on what it is handed adds no error of its own. -/
theorem tryCatch {body : Step α} {handler : ScanError → Step α} (h : body.Raises P)
    (hh : ∀ e, P e → (handler e).Raises P) : (MonadExcept.tryCatch body handler).Raises P := by
  intro w e w' hr
  rw [Step.runAlone_tryCatch] at hr
  rcases hb : body.runAlone w with ⟨e₁ | a, w₁⟩ <;> rw [hb] at hr
  · exact hh e₁ (h w e₁ w₁ hb) w₁ e w' hr
  · cases hr

/-- A guarded body passes on its own errors, and the busy subtree when the guard is held. -/
theorem guarded {k : SubtreeKey} {body : Step α} (h : body.Raises P)
    (hbusy : P (.subtreeBusy k.text)) : (Scan.guarded k body).Raises P := by
  unfold Scan.guarded acquire
  refine bind (bind get fun _ => bind (ofExcept fun e he => ?_) fun _ => modify) fun _ => ?_
  · unfold tryAcquire at he
    split at he
    · cases he
      exact hbusy
    · cases he
  · refine bind (tryCatch h fun e he => bind modify fun _ => throw he) fun _ =>
      bind modify fun _ => pure _

end Step.Raises

theorem Pass.runAlone_tally (f : ScanCounts → ScanCounts) (c : ScanCounts) (w : World) :
    (Pass.tally f).runAlone c w = ((.ok (), f c), w) := rfl

theorem Pass.runAlone_getWorld (c : ScanCounts) (w : World) :
    (getThe World : Pass World).runAlone c w = ((.ok w, c), w) := rfl

theorem Pass.runAlone_modifyWorld (f : World → World) (c : ScanCounts) (w : World) :
    (modifyThe World f : Pass Unit).runAlone c w = ((.ok (), c), f w) := rfl

namespace Pass.Raises

theorem pure (a : α) : (Pure.pure a : Pass α).Raises P := fun _ _ _ _ _ h => by
  rw [Pass.runAlone_pure] at h
  cases h

theorem throw {e : ScanError} (h : P e) : (MonadExcept.throw e : Pass α).Raises P :=
  fun _ _ _ _ _ h' => by
    rw [Pass.runAlone_throw] at h'
    cases h'
    exact h

theorem bind {x : Pass α} {f : α → Pass β} (hx : x.Raises P) (hf : ∀ a, (f a).Raises P) :
    (x >>= f).Raises P := by
  intro c w e c' w' h
  rw [Pass.runAlone_bind] at h
  rcases hr : x.runAlone c w with ⟨⟨e₁ | a, c₁⟩, w₁⟩ <;> rw [hr] at h
  · cases h
    exact hx c w _ _ _ hr
  · exact hf a c₁ w₁ e c' w' h

theorem lift {s : Step α} (h : s.Raises P) : (Pass.lift s).Raises P := by
  intro c w e c' w' hr
  rw [Pass.runAlone_lift] at hr
  have h₁ : (s.runAlone w).1 = .error e := congrArg (·.1.1) hr
  have h₂ : (s.runAlone w).2 = w' := congrArg Prod.snd hr
  exact h w e w' (Prod.ext h₁ h₂)

theorem tally {f : ScanCounts → ScanCounts} : (Pass.tally f).Raises P := fun _ _ _ _ _ h => by
  rw [Pass.runAlone_tally] at h
  cases h

theorem skip : Pass.skip.Raises P := tally

theorem getWorld : (getThe World : Pass World).Raises P := fun _ _ _ _ _ h => by
  rw [Pass.runAlone_getWorld] at h
  cases h

theorem modifyWorld {f : World → World} : (modifyThe World f : Pass Unit).Raises P :=
  fun _ _ _ _ _ h => by
    rw [Pass.runAlone_modifyWorld] at h
    cases h

end Pass.Raises

end Raises

theorem Step.runAlone_inObjects {α : Type} (call : ConnectorCall α) (w : World) :
    (inObjects call).runAlone w =
      (((ExceptT.run call).run ⟨w.connector, w.objects, w.mediaTypes⟩).1.mapError ScanError.ofConnector,
        { w with connector := ((ExceptT.run call).run ⟨w.connector, w.objects, w.mediaTypes⟩).2.connector,
                 objects := ((ExceptT.run call).run ⟨w.connector, w.objects, w.mediaTypes⟩).2.store }) := by
  unfold inObjects
  rw [Step.runAlone_bind, Step.runAlone_tryObjects]
  dsimp only
  rw [Step.runAlone_ofExcept]

/-! ## Which errors end a refresh -/

section Refresh

/-- Retiring a vanished namespace fails only with a store error or a busy subtree. -/
theorem retireNamespace_raises (resource : ResourceRow) (kind : NodeKind) (name : String) :
    (retireNamespace resource kind name).Raises ScanError.StopsRefresh := by
  unfold retireNamespace
  refine Step.Raises.bind Step.Raises.readCatalog fun root => ?_
  rcases root with _ | node
  · exact Step.Raises.pure _
  refine Step.Raises.bind Step.Raises.get fun _ => ?_
  split
  · exact Step.Raises.pure _
  exact Step.Raises.guarded (Step.Raises.inCatalogSpan fun _ => .inl rfl) (.inr ⟨_, rfl⟩)

theorem retireVanished_raises (resource : ResourceRow) (kind : NodeKind) (present : List String) :
    ∀ roots, (retireVanished resource kind present roots).Raises ScanError.StopsRefresh
  | [] => Step.Raises.pure _
  | root :: rest => by
    unfold retireVanished
    dsimp only
    split
    · exact Step.Raises.bind (retireNamespace_raises resource kind root.name) fun _ =>
        retireVanished_raises resource kind present rest
    · exact retireVanished_raises resource kind present rest

theorem chooseNamed_raises (resource : ResourceRow) (kind : NodeKind) (present : List String) :
    ∀ chosen requested,
      (chooseNamed resource kind present chosen requested).Raises ScanError.StopsRefresh
  | _, [] => Pass.Raises.pure _
  | chosen, name :: rest => by
    unfold chooseNamed
    split
    · exact chooseNamed_raises resource kind present chosen rest
    split
    · exact chooseNamed_raises resource kind present _ rest
    exact Pass.Raises.bind Pass.Raises.skip fun _ =>
      Pass.Raises.bind (Pass.Raises.lift (retireNamespace_raises resource kind name)) fun _ =>
        chooseNamed_raises resource kind present chosen rest

/-- Choosing the namespaces of a refresh fails only with a store error or a busy subtree. -/
theorem selectNamespaces_refresh_raises (resource : ResourceRow) (kind : NodeKind)
    (present names : List String) :
    (selectNamespaces resource kind present (.refresh names)).Raises ScanError.StopsRefresh := by
  cases names with
  | nil =>
    exact Pass.Raises.bind (Pass.Raises.lift Step.Raises.readCatalog) fun roots =>
      Pass.Raises.bind (Pass.Raises.lift (retireVanished_raises resource kind present roots))
        fun _ => Pass.Raises.pure _
  | cons name rest => exact chooseNamed_raises resource kind present [] _

/-- A refresh fails to take a guard only because the subtree is busy. -/
theorem acquireFor_refresh_raises (key : SubtreeKey) (names : List String) :
    (acquireFor key (.refresh names)).Raises ScanError.StopsRefresh := by
  unfold acquireFor
  refine Pass.Raises.bind Pass.Raises.getWorld fun w => ?_
  split
  · exact Pass.Raises.bind Pass.Raises.modifyWorld fun _ => Pass.Raises.pure _
  · rename_i e he
    unfold tryAcquire at he
    split at he
    · cases he
      exact Pass.Raises.throw (.inr ⟨_, rfl⟩)
    · cases he

/-- Under a refresh, a namespace's reconciliation passes on only an error that aborts the
resource; any other failure of it skips the namespace. -/
theorem reconcileGuarded_refresh_raises (key : SubtreeKey) (names : List String)
    (body : Step ScanCounts) :
    (reconcileGuarded key (.refresh names) body).Raises ScanError.StopsRefresh := by
  unfold reconcileGuarded
  refine Pass.Raises.bind (acquireFor_refresh_raises key names) fun acquired => ?_
  split
  · exact Pass.Raises.pure _
  refine Pass.Raises.bind (Pass.Raises.lift (Step.Raises.attempt fun _ hf =>
    .inl (ScanError.abortsResource_of_fatal hf))) fun result =>
      Pass.Raises.bind (Pass.Raises.lift Step.Raises.modify) fun _ => ?_
  rcases result with e | done <;> dsimp only
  · split
    · exact Pass.Raises.throw (.inl ‹_›)
    · exact Pass.Raises.skip
  · exact Pass.Raises.tally

theorem scanSchemas_refresh_raises (resource : ResourceRow) (kind : ResourceKind)
    (names targets : List String) :
    ∀ schemas, (scanSchemas resource kind (.refresh names) targets schemas).Raises
      ScanError.StopsRefresh
  | [] => Pass.Raises.pure _
  | schema :: rest => by
    unfold scanSchemas
    dsimp only
    split
    · exact Pass.Raises.bind (reconcileGuarded_refresh_raises _ names _) fun _ =>
        scanSchemas_refresh_raises resource kind names targets rest
    · exact scanSchemas_refresh_raises resource kind names targets rest

theorem scanPaths_refresh_raises (resource : ResourceRow) (names : List String) :
    ∀ paths, (scanPaths resource (.refresh names) paths).Raises ScanError.StopsRefresh
  | [] => Pass.Raises.pure _
  | path :: rest => by
    unfold scanPaths
    dsimp only
    split
    · exact Pass.Raises.bind Pass.Raises.skip fun _ => scanPaths_refresh_raises resource names rest
    · exact Pass.Raises.bind (reconcileGuarded_refresh_raises _ names _) fun _ =>
        scanPaths_refresh_raises resource names rest

/-- Once connected, a refresh of a relational resource passes on the failure of listing its
schemas, whatever it is, and otherwise only an error that stops a refresh. -/
theorem scanRelational_refresh_error (resource : ResourceRow) (kind : ResourceKind)
    (names : List String) {c c' : ScanCounts} {w w' : World} {e : ScanError}
    (h : (scanRelational resource kind (.refresh names)).runAlone c w = ((.error e, c'), w')) :
    e.StopsRefresh ∨
      ∃ ce, ((ExceptT.run listSchemas).run w.relational).1 = .error ce ∧ e = .ofConnector ce := by
  unfold scanRelational at h
  rw [Pass.runAlone_bind, Pass.runAlone_lift, Step.runAlone_inRelational] at h
  rcases hl : ((ExceptT.run listSchemas).run w.relational).1 with ce | schemas <;>
    rw [hl] at h <;> dsimp only [Except.mapError] at h
  · cases h
    exact .inr ⟨ce, rfl, rfl⟩
  · exact .inl ((Pass.Raises.bind (selectNamespaces_refresh_raises resource _ _ names)
      fun targets => scanSchemas_refresh_raises resource kind names targets schemas) _ _ _ _ _ h)

/-- Once connected, a refresh of an object-storage resource passes on the failure of listing its
buckets, whatever it is, and otherwise only an error that stops a refresh: a path outside the
allow-list among them. -/
theorem scanObjects_refresh_error (resource : ResourceRow) (names : List String)
    {c c' : ScanCounts} {w w' : World} {e : ScanError}
    (h : (scanObjects resource (.refresh names)).runAlone c w = ((.error e, c'), w')) :
    e.StopsRefresh ∨
      ∃ ce, ((ExceptT.run allowedBuckets).run ⟨w.connector, w.objects, w.mediaTypes⟩).1 = .error ce ∧
        e = .ofConnector ce := by
  unfold scanObjects at h
  rw [Pass.runAlone_bind, Pass.runAlone_lift, Step.runAlone_inObjects] at h
  rcases hl : ((ExceptT.run allowedBuckets).run ⟨w.connector, w.objects, w.mediaTypes⟩).1 with ce | buckets <;>
    rw [hl] at h <;> dsimp only [Except.mapError] at h
  · cases h
    exact .inr ⟨ce, rfl, rfl⟩
  refine .inl ?_
  -- named paths are checked against the allow-list; no name chooses the buckets
  rcases names with _ | ⟨path, rest⟩ <;> dsimp only at h
  · exact (Pass.Raises.bind (selectNamespaces_refresh_raises resource _ _ []) fun targets =>
      scanPaths_refresh_raises resource [] targets) _ _ _ _ _ h
  split at h
  · exact (Pass.Raises.bind (Pass.Raises.throw (.inl rfl)) fun targets =>
      scanPaths_refresh_raises resource _ targets) _ _ _ _ _ h
  · exact (Pass.Raises.bind (Pass.Raises.pure _) fun targets =>
      scanPaths_refresh_raises resource _ targets) _ _ _ _ _ h

end Refresh

/-! ## Manual-run bookkeeping -/

/-- Manual-run bookkeeping, from any world. A lookup is refused while the directory fails, for
an unknown external id, and for a resource of another tenant; a refused request returns that
error and changes nothing. Otherwise, from a catalog whose run ids are minted, a refresh of a
resource and a refresh of one table each open one manual run, targeting the requested
namespaces or `schema.table`: if the pass ends, the run closed with its counts, failed with its
error's text when it had one and successful otherwise, is returned and is the one run added; if
the pass fails with an error that ends the run, that error is returned and the run is left
running. Once connected, a refresh passes on the failure of listing the schemas or buckets, of
whatever kind, and otherwise only an error that aborts the resource or a busy subtree. -/
theorem manualRequests_book_one_run (w : World) :
    (∀ t e err, w.directory.lookup t e = .error err →
      (∃ m, w.directory.failure = some m ∧ err = .directory m) ∨
        (w.directory.find e = .ok none ∧ err = .resourceNotFound e.text) ∨
        ∃ r, w.directory.find e = .ok (some r) ∧ r.tenant ≠ t ∧
          err = .accessDenied ("resource " ++ e.text ++ " does not belong to tenant " ++
            t.text)) ∧
    (w.catalog.RunsMinted → ∀ t e namespaces,
      ManualRun t e namespaces (fun r => scanRegistered r (.refresh namespaces)) w
        ((scanResource t e namespaces).runAlone w).1
        ((scanResource t e namespaces).runAlone w).2) ∧
    (w.catalog.RunsMinted → ∀ t e schema table,
      ManualRun t e [schema ++ "." ++ table] (fun r => scanRegisteredTable r schema table) w
        ((scanTable t e schema table).runAlone w).1
        ((scanTable t e schema table).runAlone w).2) ∧
    (∀ resource kind names c c' (w' : World) e,
      (scanRelational resource kind (.refresh names)).runAlone c w = ((.error e, c'), w') →
        e.StopsRefresh ∨
          ∃ ce, ((ExceptT.run listSchemas).run w.relational).1 = .error ce ∧
            e = .ofConnector ce) ∧
    (∀ resource names c c' (w' : World) e,
      (scanObjects resource (.refresh names)).runAlone c w = ((.error e, c'), w') →
        e.StopsRefresh ∨
          ∃ ce, ((ExceptT.run allowedBuckets).run ⟨w.connector, w.objects, w.mediaTypes⟩).1 = .error ce ∧
            e = .ofConnector ce) :=
  ⟨fun _ _ _ h => Directory.lookup_error h,
    fun hw t e namespaces => manualScan_ends t e namespaces
      (fun r w => scanRegistered_runs r (.refresh namespaces) w) hw,
    fun hw t e schema table => manualScan_ends t e [schema ++ "." ++ table]
      (fun r w => scanRegisteredTable_runs r schema table w) hw,
    fun resource kind names _ _ _ _ h => scanRelational_refresh_error resource kind names h,
    fun resource names _ _ _ _ h => scanObjects_refresh_error resource names h⟩

/-- A warehouse registered to tenant 1 whose schema listing fails. -/
def failingWarehouse : World where
  directory := { entries := [⟨⟨1⟩, ⟨7⟩, "warehouse", "postgres", true,
    [("host", .string "db"), ("port", .string "5432"), ("username", .string "reader"),
      ("password", .string "secret"), ("database", .string "warehouse")]⟩] }
  relational := { schemas := [{ name := "sales" }],
                  failures := [("schemas", .enumeration "warehouse" "catalog unavailable")] }

/-- A refresh of every namespace of the failing warehouse is booked as one manual run. -/
theorem failingWarehouse_refresh_booked :
    failingWarehouse.catalog.RunsMinted ∧
      ManualRun ⟨1⟩ ⟨7⟩ [] (fun r => scanRegistered r (.refresh [])) failingWarehouse
        ((scanResource ⟨1⟩ ⟨7⟩ []).runAlone failingWarehouse).1
        ((scanResource ⟨1⟩ ⟨7⟩ []).runAlone failingWarehouse).2 := by
  have hw : failingWarehouse.catalog.RunsMinted := fun _ hr => by cases hr
  exact ⟨hw, (manualRequests_book_one_run failingWarehouse).2.1 hw ⟨1⟩ ⟨7⟩ []⟩

/-- The enumeration failure of listing the schemas reaches the run: a refresh of every
namespace of the failing warehouse is closed as failed with that failure's text. -/
theorem refresh_fails_on_listing_enumeration :
    ((scanResource ⟨1⟩ ⟨7⟩ []).runAlone failingWarehouse).1.toOption.map
        (fun run => (run.status, run.errorMessage)) =
      some (.failed,
        some "Enumeration error: Failed to enumerate warehouse: catalog unavailable") := by
  decide +kernel

end DataCatalog.Scan
