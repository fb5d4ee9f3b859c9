import Mathlib
import DataCatalog.Proofs.Scan.ManualRuns
import DataCatalog.Proofs.Scan.Sessions
/-!
# The life of a scan run

A run is opened running and closed once, as a success or a failure. A close is refused for a
status that is not terminal and for a run that is not running, and a refused close changes
nothing; a close that succeeds rewrites the status, the message, the counters, the completion
time and the duration of that one run. Run ids are minted fresh, so no two runs share one
(`Tables.RunLedger`); along any sequence of catalog writes each run therefore either stays as it
is or is closed once (`Tables.RunsFollow`), and a finished run never changes again.

Every request the orchestrator serves opens at most one run, running, and closes at most that
run, once (`RunsBooked`); requests served side by side keep every run to the same life.
-/

namespace DataCatalog.Catalog

open DataCatalog.Ident

/-! ## Closing a run -/

section Close

variable {c c' : Tables} {t : TenantId} {id : RunId} {st : RunStatus} {msg : Option String}
  {n : ScanCounts} {row old : RunRow}

/-- A close finds the tenant's run under the id while it is running. -/
theorem find_running_isSome_iff :
    (c.runs.find? fun r => r.isRun t id && r.status == .running).isSome ↔
      ∃ r ∈ c.runs, r.tenant = t ∧ r.id = id ∧ r.status = .running := by
  simp [List.find?_isSome, RunRow.isRun, and_assoc]

/-- A close of a running run with a terminal status rewrites that run, closed at the clock. -/
theorem finishRun_of_found (hst : st.isTerminal = true)
    (hf : c.runs.find? (fun r => r.isRun t id && r.status == .running) = some old) :
    finishRun t id st msg n c =
      .ok (old.closedAt st msg n (Time.Instant.ofMillis c.clock),
        { c with clock := c.clock + 1,
                 runs := replaceWhere (·.isRun t id)
                   (fun _ => old.closedAt st msg n (Time.Instant.ofMillis c.clock)) c.runs }) := by
  unfold finishRun
  simp only [hst, Bool.not_true, Bool.false_eq_true, if_false, bind, StateT.bind, Tables.now,
    get, getThe, MonadStateOf.get, StateT.get, Except.bind, hf, set, StateT.set, pure,
    StateT.pure, Except.pure]
  rfl

/-- What a successful close did: the status was terminal, a running run of the tenant was
found under the id, and it was rewritten closed at the clock, which moved on. -/
theorem finishRun_ok (h : finishRun t id st msg n c = .ok (row, c')) :
    st.isTerminal = true ∧ ∃ old,
      c.runs.find? (fun r => r.isRun t id && r.status == .running) = some old ∧
      row = old.closedAt st msg n (Time.Instant.ofMillis c.clock) ∧
      c' = { c with clock := c.clock + 1, runs := replaceWhere (·.isRun t id) (fun _ => row) c.runs } := by
  cases hst : st.isTerminal with
  | false =>
    unfold finishRun at h
    simp [hst, Store.fail] at h
  | true =>
    cases hf : c.runs.find? (fun r => r.isRun t id && r.status == .running) with
    | none =>
      unfold finishRun at h
      simp only [hst, Bool.not_true, Bool.false_eq_true, if_false, bind, StateT.bind, Tables.now,
        get, getThe, MonadStateOf.get, StateT.get, pure, Except.pure, Except.bind] at h
      simp [hf, Store.fail] at h
    | some old =>
      rw [finishRun_of_found hst hf, Except.ok.injEq, Prod.mk.injEq] at h
      obtain ⟨rfl, rfl⟩ := h
      exact ⟨rfl, old, rfl, rfl, rfl⟩

/-- A close succeeds exactly when the status is terminal and the tenant has a running run under
the id. -/
theorem finishRun_succeeds_iff :
    (∃ p, finishRun t id st msg n c = .ok p) ↔
      st.isTerminal = true ∧ ∃ r ∈ c.runs, r.tenant = t ∧ r.id = id ∧ r.status = .running := by
  constructor
  · rintro ⟨⟨row, c'⟩, h⟩
    obtain ⟨hst, old, hf, -⟩ := finishRun_ok h
    exact ⟨hst, find_running_isSome_iff.1 (by simp [hf])⟩
  · rintro ⟨hst, hr⟩
    obtain ⟨old, hf⟩ := Option.isSome_iff_exists.1 (find_running_isSome_iff.2 hr)
    exact ⟨_, finishRun_of_found hst hf⟩

end Close

/-! ## Run ids -/

section Ledger

variable {c c' : Tables}

/-- Every run id was minted by the catalog's counter, and no two runs share one. -/
structure Tables.RunLedger (c : Tables) : Prop where
  minted : c.RunsMinted
  distinct : (c.runs.map (·.id)).Nodup

theorem Tables.RunLedger.eq_of_id (h : c.RunLedger) {a b : RunRow} (ha : a ∈ c.runs)
    (hb : b ∈ c.runs) (hid : a.id = b.id) : a = b :=
  List.inj_on_of_nodup_map h.distinct ha hb hid

/-- Replacing the first row that satisfies `p` is replacing the first that satisfies `q`, when
the two agree on every row. -/
theorem replaceWhere_congr {α : Type} {p q : α → Bool} {f : α → α} :
    ∀ {l : List α}, (∀ x ∈ l, p x = q x) → replaceWhere p f l = replaceWhere q f l
  | [], _ => rfl
  | x :: xs, h => by
    simp only [replaceWhere, h x List.mem_cons_self,
      replaceWhere_congr fun y hy => h y (List.mem_cons_of_mem _ hy)]

/-- Replacing a row by a row of the same id keeps the ids. -/
theorem map_id_replaceWhere {p : RunRow → Bool} {f : RunRow → RunRow}
    (hf : ∀ r, p r = true → (f r).id = r.id) :
    ∀ l : List RunRow, (replaceWhere p f l).map (·.id) = l.map (·.id)
  | [] => rfl
  | x :: xs => by
    unfold replaceWhere
    split
    · simp [hf x ‹_›]
    · simp [map_id_replaceWhere hf xs]

/-- With distinct ids, a successful close rewrites the one run under the id and no other. -/
theorem Tables.RunLedger.finishRun_runs (h : c.RunLedger) {t : TenantId} {id : RunId}
    {st : RunStatus} {msg : Option String} {n : ScanCounts} {row : RunRow}
    (hok : finishRun t id st msg n c = .ok (row, c')) :
    ∃ old ∈ c.runs, old.tenant = t ∧ old.id = id ∧ old.status = .running ∧
      row = old.closedAt st msg n (Time.Instant.ofMillis c.clock) ∧
      c' = { c with clock := c.clock + 1, runs := c.runs.map fun r => if r.id = id then row else r } := by
  obtain ⟨-, old, hf, hrow, rfl⟩ := finishRun_ok hok
  have hmem := List.mem_of_find?_eq_some hf
  have hold := List.find?_some hf
  simp only [RunRow.isRun, Bool.and_eq_true, beq_iff_eq] at hold
  -- the only run under the id is the running one found, so the tenant test decides nothing
  have hsame : ∀ r ∈ c.runs, r.isRun t id = (r.id == id) := by
    intro r hr
    by_cases hid : r.id = id
    · have := h.eq_of_id hr hmem (hid.trans hold.1.2.symm)
      subst this
      simp [RunRow.isRun, hold.1.1, hid]
    · simp [RunRow.isRun, hid]
  refine ⟨old, hmem, hold.1.1, hold.1.2, hold.2, hrow, ?_⟩
  rw [replaceWhere_congr hsame, replaceWhere_eq_map (·.id) id _ c.runs h.distinct]

/-- Every write keeps run ids minted and distinct: a new run takes a fresh id, a close keeps
the id of the run it rewrites, and other writes leave the runs. -/
theorem StoreOp.run_runLedger (op : StoreOp) (h : c.RunLedger) (hrun : op.run c = .ok c') :
    c'.RunLedger := by
  refine ⟨op.run_runsMinted h.minted hrun, ?_⟩
  cases hb : op.booksRun
  · rw [op.run_runs hb hrun]
    exact h.distinct
  cases op with
  | createRun t e m ts =>
    simp only [StoreOp.run, createRun_run, Except.map, Except.ok.injEq] at hrun
    subst hrun
    rw [List.map_append, List.nodup_append]
    refine ⟨h.distinct, List.nodup_singleton _, ?_⟩
    simp only [List.map_cons, List.map_nil, List.mem_singleton, List.mem_map]
    rintro _ ⟨r, hr, rfl⟩ _ rfl
    exact h.minted.ne_nextRun hr t e m ts
  | finishRun t id st msg counts =>
    simp only [StoreOp.run] at hrun
    obtain ⟨_, hrun⟩ := Except.map_snd_eq_ok hrun
    obtain ⟨-, old, hf, rfl, rfl⟩ := finishRun_ok hrun
    have hold := List.find?_some hf
    simp only [RunRow.isRun, Bool.and_eq_true, beq_iff_eq] at hold
    -- the closed row keeps the id of the running row it rewrites
    rw [map_id_replaceWhere fun r hr => by
      simp only [RunRow.isRun, Bool.and_eq_true, beq_iff_eq] at hr
      exact hold.1.2.trans hr.2.symm]
    exact h.distinct
  | _ => simp [StoreOp.booksRun] at hb

theorem Reachable.runLedger (h : Reachable c) : c.RunLedger := by
  induction h with
  | empty => exact ⟨fun _ hr => (List.not_mem_nil hr).elim, List.nodup_nil⟩
  | step op _ hrun ih => exact op.run_runLedger ih hrun

end Ledger

/-! ## Each run closes once -/

section Follow

/-- A run `r` becomes `r'`: it stays as it is, or, running, it is closed with a terminal status,
which rewrites its status, message, counters, completion time and duration and nothing else. -/
inductive RunRow.Becomes : RunRow → RunRow → Prop
  | stays (r : RunRow) : RunRow.Becomes r r
  | closes {r : RunRow} (st : RunStatus) (msg : Option String) (n : ScanCounts)
      (now : Time.Instant) : r.status = .running → st.isTerminal = true →
      RunRow.Becomes r (r.closedAt st msg n now)

/-- A closed run is not running, so it cannot be closed again. -/
theorem RunRow.Becomes.trans {r r' r'' : RunRow} (h : r.Becomes r') (h' : r'.Becomes r'') :
    r.Becomes r'' := by
  cases h with
  | stays => exact h'
  | closes st msg n now hr hst =>
    cases h' with
    | stays => exact .closes st msg n now hr hst
    | closes _ _ _ _ hr' _ =>
      rw [show (r.closedAt st msg n now).status = st from rfl] at hr'
      subst hr'
      cases hst

/-- A finished run becomes only itself. -/
theorem RunRow.Becomes.eq_of_terminal {r r' : RunRow} (h : r.Becomes r')
    (ht : r.status.isTerminal = true) : r' = r := by
  cases h with
  | stays => rfl
  | closes _ _ _ _ hr _ => rw [hr] at ht; cases ht

/-- Every run of `c` is in `c'` under its id, as it was or closed once. -/
def Tables.RunsFollow (c c' : Tables) : Prop :=
  ∀ r ∈ c.runs, ∃ r' ∈ c'.runs, r'.id = r.id ∧ r.Becomes r'

variable {c c' c'' : Tables}

theorem Tables.RunsFollow.refl (c : Tables) : c.RunsFollow c :=
  fun r hr => ⟨r, hr, rfl, .stays r⟩

theorem Tables.RunsFollow.trans (h : c.RunsFollow c') (h' : c'.RunsFollow c'') :
    c.RunsFollow c'' := by
  intro r hr
  obtain ⟨r', hr', hid, hb⟩ := h r hr
  obtain ⟨r'', hr'', hid', hb'⟩ := h' r' hr'
  exact ⟨r'', hr'', hid'.trans hid, hb.trans hb'⟩

theorem Tables.RunsFollow.of_runs_eq (h : c'.runs = c.runs) : c.RunsFollow c' :=
  fun r hr => ⟨r, h ▸ hr, rfl, .stays r⟩

/-- A finished run of `c` is in `c'` as it was. -/
theorem Tables.RunsFollow.terminal_mem (h : c.RunsFollow c') {r : RunRow} (hr : r ∈ c.runs)
    (ht : r.status.isTerminal = true) : r ∈ c'.runs := by
  obtain ⟨r', hr', -, hb⟩ := h r hr
  rwa [← hb.eq_of_terminal ht]

/-- One write moves every run at most one step of its life. -/
theorem StoreOp.run_runsFollow (op : StoreOp) (h : c.RunLedger) (hrun : op.run c = .ok c') :
    c.RunsFollow c' := by
  cases hb : op.booksRun
  · exact .of_runs_eq (op.run_runs hb hrun)
  cases op with
  | createRun t e m ts =>
    simp only [StoreOp.run, createRun_run, Except.map, Except.ok.injEq] at hrun
    subst hrun
    exact fun r hr => ⟨r, List.mem_append_left _ hr, rfl, .stays r⟩
  | finishRun t id st msg counts =>
    simp only [StoreOp.run] at hrun
    obtain ⟨row, hrun⟩ := Except.map_snd_eq_ok hrun
    have hst := (finishRun_ok hrun).1
    obtain ⟨old, hold, -, hid, hrunning, rfl, rfl⟩ := h.finishRun_runs hrun
    intro r hr
    by_cases hr' : r.id = id
    · -- the run under the id is the running one found: it is closed
      obtain rfl := h.eq_of_id hr hold (hr'.trans hid.symm)
      refine ⟨_, List.mem_map.2 ⟨r, hr, if_pos hr'⟩, rfl, .closes _ _ _ _ hrunning hst⟩
    · exact ⟨r, List.mem_map.2 ⟨r, hr, if_neg hr'⟩, rfl, .stays r⟩
  | _ => simp [StoreOp.booksRun] at hb

/-- Along every run of writes from a catalog with a run ledger, each run stays or closes once. -/
theorem Tables.Writes.runsFollow {W : StoreOp → Tables → Prop} (h : c.Writes W c')
    (hc : c.RunLedger) : c.RunsFollow c' :=
  (h.keep (J := fun c₁ => c₁.RunLedger ∧ c.RunsFollow c₁)
    (fun op _ _ _ _ ⟨hl, hf⟩ hrun => ⟨op.run_runLedger hl hrun, hf.trans (op.run_runsFollow hl hrun)⟩)
    ⟨hc, .refl c⟩).2

end Follow

end DataCatalog.Catalog

namespace DataCatalog.Scan

open DataCatalog.Catalog DataCatalog.Ident

/-! ## The runs a request books -/

/-- How a request leaves the runs `R` it found: as they were; or followed by one more run, which
it opened running under an id no run of `R` bears, and left running or closed once. -/
inductive RunsBooked (R : List RunRow) : List RunRow → Prop
  | untouched : RunsBooked R R
  | opened {run run' : RunRow} : run.status = .running → (∀ r ∈ R, r.id ≠ run.id) →
      run.Becomes run' → RunsBooked R (R ++ [run'])

section Booked

variable {α : Type} {w : World}

theorem RunsBooked.of_eq {R R' : List RunRow} (h : R' = R) : RunsBooked R R' := h ▸ .untouched

/-- A step whose answer is dropped leaves the world the step leaves. -/
theorem Step.runAlone_bind_unit (x : Step α) (w : World) :
    ((x >>= fun _ => pure ()).runAlone w).2 = (x.runAlone w).2 := by
  rw [Step.runAlone_bind]
  rcases x.runAlone w with ⟨_ | _, _⟩ <;> rfl

theorem openRun_runAlone (t : TenantId) (e : Option ExternalId) (m : ScanMode)
    (ts : List String) (w : World) :
    (openRun t e m ts).runAlone w =
      (.ok (w.catalog.nextRun t e m ts), { w with catalog := { w.catalog with
        runs := w.catalog.runs ++ [w.catalog.nextRun t e m ts], serial := w.catalog.serial + 1,
        clock := w.catalog.clock + 1 } }) := by
  rw [openRun, Step.runAlone_inCatalogSpan, createRun_run]

/-- Closing, with a terminal status, the last run of the world, running and under an id no
earlier run bears. -/
theorem endRun_runAlone_last {R : List RunRow} {run : RunRow} {t : TenantId} {st : RunStatus}
    {msg : Option String} {n : ScanCounts} (hc : w.catalog.runs = R ++ [run])
    (hR : ∀ r ∈ R, r.id ≠ run.id) (ht : run.tenant = t) (hrun : run.status = .running)
    (hst : st.isTerminal = true) :
    (endRun t run.id st msg n).runAlone w =
      (.ok (run.closedAt st msg n (Time.Instant.ofMillis w.catalog.clock)),
        { w with catalog := { w.catalog with
          clock := w.catalog.clock + 1,
          runs := R ++ [run.closedAt st msg n (Time.Instant.ofMillis w.catalog.clock)] } }) := by
  rw [endRun, Step.runAlone_inCatalogSpan, finishRun_last hc hR ht hrun hst]

/-- A step that keeps the runs, run alone, leaves them. -/
theorem Step.runAlone_runs_of_keeps {x : Step α} {w' w'' : World} {r : Except ScanError α}
    {R : List RunRow} (hrun : x.runAlone w' = (r, w'')) (hw' : w'.catalog.runs = R)
    (hx : x.Keeps (fun c => c.runs = R) fun _ => True) : w''.catalog.runs = R := by
  have h := hx.runAlone_catalog (w := w') hw'
  rwa [hrun] at h

/-- A refused close leaves the world as it was. -/
theorem endRun_error_world {t : TenantId} {id : RunId} {st : RunStatus} {msg : Option String}
    {n : ScanCounts} {e : ScanError} {w' : World}
    (h : (endRun t id st msg n).runAlone w = (.error e, w')) : w' = w := by
  rw [endRun, Step.runAlone_inCatalogSpan] at h
  rcases hop : finishRun t id st msg n w.catalog with _ | ⟨row, c⟩ <;> rw [hop] at h
  · exact (Prod.mk.inj h).2.symm
  · cases h

/-- A manual request whose pass leaves the runs books one run at most, from a catalog whose run
ids are minted: the run it opens, left running when the pass fails fatally, closed otherwise. -/
theorem manualScan_books (t : TenantId) (e : ExternalId) (targets : List String)
    {pass : RegisteredResource → Pass Unit}
    (hpass : ∀ r w, ((pass r).run.runAlone w).2.catalog.runs = w.catalog.runs)
    (hw : w.catalog.RunsMinted) :
    RunsBooked w.catalog.runs ((manualScan t e targets pass).runAlone w).2.catalog.runs := by
  unfold manualScan
  rw [Step.runAlone_bind, lookupResource_runAlone]
  rcases w.directory.lookup t e with err | r
  · exact .untouched
  dsimp only
  rw [Step.runAlone_bind, openRun_runAlone]
  dsimp only
  rw [Step.runAlone_bind]
  have hfresh : ∀ r ∈ w.catalog.runs, r.id ≠ (w.catalog.nextRun t (some e) .manual targets).id :=
    fun r hr => hw.ne_nextRun hr _ _ _ _
  -- the pass leaves the runs of the world the run was opened in
  have hruns := hpass r { w with catalog := { w.catalog with
    runs := w.catalog.runs ++ [w.catalog.nextRun t (some e) .manual targets],
    serial := w.catalog.serial + 1, clock := w.catalog.clock + 1 } }
  rcases hp : (pass r).run.runAlone { w with catalog := { w.catalog with
      runs := w.catalog.runs ++ [w.catalog.nextRun t (some e) .manual targets],
      serial := w.catalog.serial + 1, clock := w.catalog.clock + 1 } } with ⟨err | outcome, w₂⟩ <;>
    rw [hp] at hruns <;> dsimp only
  · rw [hruns]
    exact .opened rfl hfresh (.stays _)
  · unfold closeRun
    rw [endRun_runAlone_last hruns hfresh rfl rfl (by split <;> rfl)]
    exact .opened rfl hfresh (.closes _ _ _ _ rfl (by split <;> rfl))

/-- A dispatch, from a catalog whose run ids are minted, books one run at most: nothing when the
directory cannot list the tenant's resources; otherwise the tenant's automatic run, opened
running under an id no earlier run bears, which it returns unless the permit limit is exceeded,
the last run of the catalog it leaves. -/
theorem dispatchUnscanned_books (t : TenantId) (hw : w.catalog.RunsMinted) :
    RunsBooked w.catalog.runs ((dispatchUnscanned t).runAlone w).2.catalog.runs ∧
      OnOk (fun d => ((dispatchUnscanned t).runAlone w).2.catalog.runs = w.catalog.runs ++ [d.2.1] ∧
        d.2.1.status = .running ∧ (∀ r ∈ w.catalog.runs, r.id ≠ d.2.1.id) ∧ d.2.1.tenant = t)
        ((dispatchUnscanned t).runAlone w).1 := by
  unfold dispatchUnscanned
  rw [Step.runAlone_bind, Step.runAlone_get]
  dsimp only
  rw [Step.runAlone_bind, Step.runAlone_ofExcept]
  rcases w.directory.listActive t with err | resources
  · exact ⟨.untouched, OnOk.error _⟩
  dsimp only
  rw [Step.runAlone_bind, openRun_runAlone]
  dsimp only
  have hfresh : ∀ r ∈ w.catalog.runs,
      r.id ≠ (w.catalog.nextRun t none .auto (resources.map (·.externalId.text))).id :=
    fun r hr => hw.ne_nextRun hr _ _ _ _
  rw [Step.runAlone_bind, Step.runAlone_get]
  dsimp only
  split
  · exact ⟨.opened rfl hfresh (.stays _), OnOk.error _⟩
  · exact ⟨.opened rfl hfresh (.stays _), fun _ hd => by cases hd; exact ⟨rfl, rfl, hfresh, rfl⟩⟩

/-- Discovery books one run at most, from a catalog whose run ids are minted: the run its
dispatch books, left running when the permit limit is exceeded, and closed once the passes,
side by side, have all ended. -/
theorem scanAllUnscanned_books (t : TenantId) (hw : w.catalog.RunsMinted) :
    RunsBooked w.catalog.runs ((scanAllUnscanned t).runAlone w).2.catalog.runs := by
  unfold scanAllUnscanned
  obtain ⟨hbooked, hopened⟩ := dispatchUnscanned_books t hw
  rw [Step.runAlone_bind]
  rcases hd : (dispatchUnscanned t).runAlone w with ⟨err | ⟨resources, run, slots⟩, w₁⟩ <;>
    rw [hd] at hbooked hopened
  · exact hbooked
  obtain ⟨hruns, hrun, hfresh, ht⟩ := hopened _ rfl
  dsimp only
  -- the passes side by side leave the runs as the dispatch left them
  rw [Step.runAlone_bind]
  rcases hi : (Step.interleaved _ _).runAlone _ with ⟨err | results, w₂⟩ <;> dsimp only <;>
    have h₂ := Step.runAlone_runs_of_keeps hi hruns (interleaved_keeps fun s hs => by
      obtain ⟨r, -, rfl⟩ := List.mem_map.1 hs
      exact Pass.Keeps.run (scanRegistered_keeps (passesKeep_runs r.tenant _) rfl _))
  · rw [h₂]
    exact .opened hrun hfresh (.stays _)
  unfold superviseUnscanned
  rw [Step.runAlone_bind, Step.runAlone_attempt,
    endRun_runAlone_last h₂ hfresh ht hrun (by split <;> rfl)]
  exact .opened hrun hfresh (.closes _ _ _ _ hrun (by split <;> rfl))

/-- Every request, served alone from a catalog whose run ids are minted, books one run at most:
refreshes and discovery open one and close it at most once, and reconciling a path opens none. -/
theorem ScanRequest.serve_books (req : ScanRequest) (hw : w.catalog.RunsMinted) :
    RunsBooked w.catalog.runs (req.serve.runAlone w).2.catalog.runs := by
  cases req with
  | scan t e ns =>
    rw [ScanRequest.serve, Step.runAlone_bind_unit, scanResource_eq_manualScan]
    exact manualScan_books t e ns (fun r w => scanRegistered_runs r _ w) hw
  | scanTable t e schema table =>
    rw [ScanRequest.serve, Step.runAlone_bind_unit, scanTable_eq_manualScan]
    exact manualScan_books t e _ (fun r w => scanRegisteredTable_runs r schema table w) hw
  | scanUnscanned t =>
    rw [ScanRequest.serve, Step.runAlone_bind_unit]
    exact scanAllUnscanned_books t hw
  | reconcilePath res p =>
    rw [ScanRequest.serve, Step.runAlone_bind_unit]
    exact .of_eq ((reconcileObjectPath_keeps (passesKeep_runs res.tenant w.catalog.runs) rfl
      p).runAlone_catalog rfl)

/-- However requests are served, one at a time or side by side, every run of a reachable
catalog stays as it is or is closed once. -/
theorem Served.runsFollow {P : ScanRequest → Prop} {w w' : World} (h : Served P w w')
    (hw : Reachable w.catalog) : w.catalog.RunsFollow w'.catalog :=
  (h.keeps (J := fun c => Reachable c ∧ w.catalog.RunsFollow c)
    (fun _ _ op _ _ _ ⟨hr, hf⟩ hrun =>
      ⟨.step op hr hrun, hf.trans (op.run_runsFollow hr.runLedger hrun)⟩) ⟨hw, .refl _⟩).2

end Booked

end DataCatalog.Scan

namespace DataCatalog.Scan

open DataCatalog.Catalog DataCatalog.Ident

/-! ## The life of a run -/

/-- The life of a scan run. A close succeeds exactly when its status is terminal and the tenant
has a running run under the id. In every catalog the store reaches, a successful close rewrites
that one run, setting its status, message, counters, completion time and duration, and changes
nothing else but the clock; a refused close changes nothing. Along every sequence of writes each
run stays as it is or is closed once, so a finished run never changes again. Every request the
orchestrator serves alone opens at most one run, running, and closes at most that one, once; and
however requests are served, side by side included, every run keeps that life. -/
theorem scanRun_lifecycle :
    (∀ (c : Tables) t id st msg n, (∃ p, finishRun t id st msg n c = .ok p) ↔
      st.isTerminal = true ∧ ∃ r ∈ c.runs, r.tenant = t ∧ r.id = id ∧ r.status = .running) ∧
    (∀ (c c' : Tables) t id st msg n row, Reachable c →
      finishRun t id st msg n c = .ok (row, c') →
      ∃ old ∈ c.runs, old.tenant = t ∧ old.id = id ∧ old.status = .running ∧
        row = old.closedAt st msg n (Time.Instant.ofMillis c.clock) ∧
        c' = { c with clock := c.clock + 1,
                      runs := c.runs.map fun r => if r.id = id then row else r }) ∧
    (∀ (w w' : World) t id st msg n e, (endRun t id st msg n).runAlone w = (.error e, w') →
      w' = w) ∧
    (∀ c c' : Tables, Reachable c → c.Writes (fun _ _ => True) c' →
      c.RunsFollow c' ∧ ∀ r ∈ c.runs, r.status.isTerminal = true → r ∈ c'.runs) ∧
    (∀ (req : ScanRequest) (w : World), Reachable w.catalog →
      RunsBooked w.catalog.runs (req.serve.runAlone w).2.catalog.runs) ∧
    (∀ (P : ScanRequest → Prop) (w w' : World), Reachable w.catalog → Served P w w' →
      w.catalog.RunsFollow w'.catalog) :=
  ⟨fun _ _ _ _ _ _ => finishRun_succeeds_iff,
    fun _ _ _ _ _ _ _ _ hc hok => hc.runLedger.finishRun_runs hok,
    fun _ _ _ _ _ _ _ _ h => endRun_error_world h,
    fun _ _ hc hw => ⟨hw.runsFollow hc.runLedger, fun _ hr ht =>
      (hw.runsFollow hc.runLedger).terminal_mem hr ht⟩,
    fun req _ hc => req.serve_books hc.runsMinted,
    fun _ _ _ hc hs => hs.runsFollow hc⟩

/-- A refresh of the failing warehouse, from its empty catalog, books one run. -/
theorem warehouse_refresh_books_one_run :
    Reachable failingWarehouse.catalog ∧
      RunsBooked failingWarehouse.catalog.runs
        ((ScanRequest.scan ⟨1⟩ ⟨7⟩ []).serve.runAlone failingWarehouse).2.catalog.runs :=
  ⟨.empty, scanRun_lifecycle.2.2.2.2.1 _ _ .empty⟩

end DataCatalog.Scan
