import Mathlib
import DataCatalog.Scan.World
/-!
# Successful runs of scan steps

Run alone, a scan step is a state-and-error computation over the world: its waits for the
catalog connection are served at once. This module gives the run of each building block as
an equation, and a Hoare-style judgement `Step.Ensures s P Q`: every successful run of `s`
from a world satisfying `P` ends in a world satisfying `Q` of its result. Sequencing,
branching and loops compose such judgements, so a reconciler's judgement is assembled from
those of the catalog, source and store calls it makes, without unfolding them again.
-/

namespace DataCatalog.Schedule

theorem Turns.run_bind {σ α β : Type} (t : Turns σ α) (f : α → Turns σ β) (s : σ) :
    (t >>= f).run s = (f (t.run s).1).run (t.run s).2 := by
  induction t generalizing s with
  | done a => rfl
  | step run next ih => exact ih _ _
  | wait next ih => exact ih s

@[simp] theorem Turns.run_get {σ : Type} (s : σ) : (get : Turns σ σ).run s = (s, s) := rfl

@[simp] theorem Turns.run_set {σ : Type} (s s' : σ) : (set s' : Turns σ Unit).run s = ((), s') :=
  rfl

@[simp] theorem Turns.run_pure {σ α : Type} (a : α) (s : σ) : (pure a : Turns σ α).run s = (a, s) :=
  rfl

end DataCatalog.Schedule

namespace DataCatalog.Scan

open DataCatalog.Schedule DataCatalog.Catalog

section Runs

variable {α β : Type}

@[simp] theorem Step.runAlone_pure (a : α) (w : World) :
    (pure a : Step α).runAlone w = (.ok a, w) := rfl

@[simp] theorem Step.runAlone_throw (e : ScanError) (w : World) :
    (throw e : Step α).runAlone w = (.error e, w) := rfl

@[simp] theorem Step.runAlone_get (w : World) : (get : Step World).runAlone w = (.ok w, w) := rfl

@[simp] theorem Step.runAlone_modify (f : World → World) (w : World) :
    (modify f : Step Unit).runAlone w = (.ok (), f w) := rfl

theorem Step.runAlone_bind (x : Step α) (f : α → Step β) (w : World) :
    (x >>= f).runAlone w = match x.runAlone w with
      | (.ok a, w') => (f a).runAlone w'
      | (.error e, w') => (.error e, w') := by
  show ((ExceptT.run x) >>= ExceptT.bindCont f : Turns World _).run w = _
  rw [Turns.run_bind]
  unfold Step.runAlone ExceptT.run
  rcases Turns.run x w with ⟨_ | a, w'⟩ <;> rfl

theorem Step.runAlone_map (f : α → β) (x : Step α) (w : World) :
    (f <$> x).runAlone w = match x.runAlone w with
      | (.ok a, w') => (.ok (f a), w')
      | (.error e, w') => (.error e, w') := by
  unfold Step.runAlone ExceptT.run
  simp only [Functor.map, ExceptT.map, ExceptT.mk]
  rw [Turns.run_bind]
  rcases Turns.run x w with ⟨_ | a, w'⟩ <;> rfl

/-- A successful sequence is a successful first step followed by a successful rest. -/
theorem Step.runAlone_bind_ok {x : Step α} {f : α → Step β} {w w'' : World} {b : β}
    (h : (x >>= f).runAlone w = (.ok b, w'')) :
    ∃ a w', x.runAlone w = (.ok a, w') ∧ (f a).runAlone w' = (.ok b, w'') := by
  rw [Step.runAlone_bind] at h
  rcases hx : x.runAlone w with ⟨e | a, w'⟩
  · rw [hx] at h
    cases h
  · rw [hx] at h
    exact ⟨a, w', rfl, h⟩

theorem Step.runAlone_awaitCatalog (n : Nat) (w : World) :
    (awaitCatalog n).runAlone w = (.ok (), w) := by
  induction n with
  | zero => rfl
  | succ n ih =>
    show (_ >>= fun _ => awaitCatalog n).runAlone w = _
    rw [Step.runAlone_bind]
    exact ih

theorem Step.runAlone_inCatalogSpan (ahead behind : Nat) (op : Store α) (w : World) :
    (inCatalogSpan ahead behind op).runAlone w = match op w.catalog with
      | .ok (a, c) => (.ok a, { w with catalog := c })
      | .error e => (.error (.persistence e), w) := by
  unfold inCatalogSpan
  rw [Step.runAlone_bind, Step.runAlone_awaitCatalog]
  dsimp only
  rw [Step.runAlone_bind]
  rcases hop : op w.catalog with e | ⟨a, c⟩
  · simp only [Step.runAlone, ExceptT.run, ExceptT.mk, StateT.run, Turns.run_bind, Turns.run_get,
      hop, Turns.run_pure]
  · simp only [Step.runAlone, ExceptT.run, ExceptT.mk, StateT.run, Turns.run_bind, Turns.run_get,
      hop, Turns.run_pure, Turns.run_set]
    show Step.runAlone (awaitCatalog behind >>= fun _ => (pure a : Step α)) _ = _
    rw [Step.runAlone_bind, Step.runAlone_awaitCatalog]
    rfl

theorem Step.runAlone_readCatalog (f : Tables → α) (w : World) :
    (readCatalog f).runAlone w = (.ok (f w.catalog), w) := by
  unfold readCatalog inCatalog
  rw [Step.runAlone_inCatalogSpan]

theorem Step.runAlone_tryRelational (call : Source.RelationalCall α) (w : World) :
    (tryRelational call).runAlone w =
      (.ok ((ExceptT.run call).run w.relational).1,
        { w with relational := ((ExceptT.run call).run w.relational).2 }) := rfl

theorem Step.runAlone_tryObjects (call : Storage.ConnectorCall α) (w : World) :
    (tryObjects call).runAlone w =
      (.ok ((ExceptT.run call).run ⟨w.connector, w.objects, w.mediaTypes⟩).1,
        { w with connector := ((ExceptT.run call).run ⟨w.connector, w.objects, w.mediaTypes⟩).2.connector,
                 objects := ((ExceptT.run call).run ⟨w.connector, w.objects, w.mediaTypes⟩).2.store }) := rfl

theorem Step.runAlone_ofExcept (r : Except ScanError α) (w : World) :
    (Step.ofExcept r).runAlone w = (r, w) := by
  cases r <;> rfl

theorem Step.runAlone_tryCatch (body : Step α) (handler : ScanError → Step α) (w : World) :
    (tryCatch body handler).runAlone w = match body.runAlone w with
      | (.ok a, w') => (.ok a, w')
      | (.error e, w') => (handler e).runAlone w' := by
  show Turns.run (ExceptT.tryCatch _ _) w = _
  simp only [ExceptT.tryCatch, ExceptT.mk]
  rw [Turns.run_bind]
  unfold Step.runAlone ExceptT.run
  rcases Turns.run body w with ⟨e | a, w'⟩ <;> rfl

theorem Step.runAlone_attempt (body : Step α) (w : World) :
    (Step.attempt body).runAlone w = match body.runAlone w with
      | (.ok a, w') => (.ok (.ok a), w')
      | (.error e, w') => if e.fatal then (.error e, w') else (.ok (.error e), w') := by
  unfold Step.attempt
  rw [Step.runAlone_tryCatch, Step.runAlone_map]
  rcases body.runAlone w with ⟨e | a, w'⟩
  · by_cases hf : e.fatal
    · simp only [hf, if_true]
      rfl
    · simp only [hf, Bool.false_eq_true, if_false]
      rfl
  · rfl

/-! ### Inversion of successful runs -/

theorem Step.pure_ok {x a : α} {w w' : World} (h : (pure x : Step α).runAlone w = (.ok a, w')) :
    a = x ∧ w' = w := by
  simp only [Step.runAlone_pure, Prod.mk.injEq, Except.ok.injEq] at h
  exact ⟨h.1.symm, h.2.symm⟩

theorem Step.throw_ok {e : ScanError} {a : α} {w w' : World} :
    (throw e : Step α).runAlone w ≠ (.ok a, w') := by
  simp

theorem Step.inCatalogSpan_ok {ahead behind : Nat} {op : Store α} {a : α} {w w' : World}
    (h : (inCatalogSpan ahead behind op).runAlone w = (.ok a, w')) :
    op w.catalog = .ok (a, w'.catalog) ∧ w' = { w with catalog := w'.catalog } := by
  rw [Step.runAlone_inCatalogSpan] at h
  rcases hop : op w.catalog with e | ⟨b, c⟩
  · rw [hop] at h
    cases h
  · rw [hop, Prod.mk.injEq, Except.ok.injEq] at h
    obtain ⟨rfl, rfl⟩ := h
    exact ⟨rfl, rfl⟩

theorem Step.readCatalog_ok {f : Tables → α} {a : α} {w w' : World}
    (h : (readCatalog f).runAlone w = (.ok a, w')) : a = f w.catalog ∧ w' = w := by
  rw [Step.runAlone_readCatalog, Prod.mk.injEq, Except.ok.injEq] at h
  exact ⟨h.1.symm, h.2.symm⟩

theorem Step.tryRelational_ok {call : Source.RelationalCall α} {r : Except Connect.ConnectorError α}
    {w w' : World} (h : (tryRelational call).runAlone w = (.ok r, w')) :
    r = ((ExceptT.run call).run w.relational).1 ∧
      w' = { w with relational := ((ExceptT.run call).run w.relational).2 } := by
  rw [Step.runAlone_tryRelational, Prod.mk.injEq, Except.ok.injEq] at h
  exact ⟨h.1.symm, h.2.symm⟩

theorem Step.inRelational_ok {call : Source.RelationalCall α} {a : α} {w w' : World}
    (h : (inRelational call).runAlone w = (.ok a, w')) :
    ((ExceptT.run call).run w.relational).1 = .ok a ∧
      w' = { w with relational := ((ExceptT.run call).run w.relational).2 } := by
  obtain ⟨r, w₁, h₁, h₂⟩ := Step.runAlone_bind_ok h
  obtain ⟨rfl, rfl⟩ := Step.tryRelational_ok h₁
  rw [Step.runAlone_ofExcept, Prod.mk.injEq] at h₂
  obtain ⟨hr, rfl⟩ := h₂
  refine ⟨?_, rfl⟩
  rcases hc : ((ExceptT.run call).run w.relational).1 with e | b
  · rw [hc] at hr
    cases hr
  · rw [hc] at hr
    simp only [Except.mapError, Except.ok.injEq] at hr
    rw [hr]

theorem Step.tryObjects_ok {call : Storage.ConnectorCall α} {r : Except Connect.ConnectorError α}
    {w w' : World} (h : (tryObjects call).runAlone w = (.ok r, w')) :
    r = ((ExceptT.run call).run ⟨w.connector, w.objects, w.mediaTypes⟩).1 ∧
      w' = { w with connector := ((ExceptT.run call).run ⟨w.connector, w.objects, w.mediaTypes⟩).2.connector,
                    objects := ((ExceptT.run call).run ⟨w.connector, w.objects, w.mediaTypes⟩).2.store } := by
  rw [Step.runAlone_tryObjects, Prod.mk.injEq, Except.ok.injEq] at h
  exact ⟨h.1.symm, h.2.symm⟩

theorem Step.inObjects_ok {call : Storage.ConnectorCall α} {a : α} {w w' : World}
    (h : (inObjects call).runAlone w = (.ok a, w')) :
    ((ExceptT.run call).run ⟨w.connector, w.objects, w.mediaTypes⟩).1 = .ok a ∧
      w' = { w with connector := ((ExceptT.run call).run ⟨w.connector, w.objects, w.mediaTypes⟩).2.connector,
                    objects := ((ExceptT.run call).run ⟨w.connector, w.objects, w.mediaTypes⟩).2.store } := by
  obtain ⟨r, w₁, h₁, h₂⟩ := Step.runAlone_bind_ok h
  obtain ⟨rfl, rfl⟩ := Step.tryObjects_ok h₁
  rw [Step.runAlone_ofExcept, Prod.mk.injEq] at h₂
  obtain ⟨hr, rfl⟩ := h₂
  refine ⟨?_, rfl⟩
  rcases hc : ((ExceptT.run call).run ⟨w.connector, w.objects, w.mediaTypes⟩).1 with e | b
  · rw [hc] at hr
    cases hr
  · rw [hc] at hr
    simp only [Except.mapError, Except.ok.injEq] at hr
    rw [hr]

/-- A catalog step moves only the catalog. -/
theorem Step.inCatalogSpan_catalog {ahead behind : Nat} {op : Store α} {a : α} {w w' : World}
    (h : (inCatalogSpan ahead behind op).runAlone w = (.ok a, w')) :
    op w.catalog = .ok (a, w'.catalog) :=
  (Step.inCatalogSpan_ok h).1

theorem Step.inCatalogSpan_relational {ahead behind : Nat} {op : Store α} {a : α} {w w' : World}
    (h : (inCatalogSpan ahead behind op).runAlone w = (.ok a, w')) :
    w'.relational = w.relational := by
  rw [(Step.inCatalogSpan_ok h).2]

/-- A source call leaves the catalog alone. -/
theorem Step.tryRelational_catalog {call : Source.RelationalCall α}
    {r : Except Connect.ConnectorError α} {w w' : World}
    (h : (tryRelational call).runAlone w = (.ok r, w')) : w'.catalog = w.catalog := by
  rw [(Step.tryRelational_ok h).2]

theorem Step.inRelational_catalog {call : Source.RelationalCall α} {a : α} {w w' : World}
    (h : (inRelational call).runAlone w = (.ok a, w')) : w'.catalog = w.catalog := by
  rw [(Step.inRelational_ok h).2]

/-- An attempt that succeeds with a success ran its body successfully. -/
theorem Step.attempt_ok {body : Step α} {a : α} {w w' : World}
    (h : (Step.attempt body).runAlone w = (.ok (.ok a), w')) : body.runAlone w = (.ok a, w') := by
  rw [Step.runAlone_attempt] at h
  rcases hb : body.runAlone w with ⟨e | b, w₁⟩
  · rw [hb] at h
    by_cases hf : e.fatal
    · simp [hf] at h
    · simp [hf] at h
  · rw [hb, Prod.mk.injEq, Except.ok.injEq, Except.ok.injEq] at h
    obtain ⟨rfl, rfl⟩ := h
    rfl

/-- A guarded body that succeeds ran between taking and dropping its guard, which touch only
the held guards. -/
theorem Step.guarded_ok {k : SubtreeKey} {body : Step α} {a : α} {w w' : World}
    (h : (guarded k body).runAlone w = (.ok a, w')) :
    ∃ w₁ w₂, body.runAlone w₁ = (.ok a, w₂) ∧ w₁.catalog = w.catalog ∧ w'.catalog = w₂.catalog := by
  obtain ⟨u, w₁, h₁, h₂⟩ := Step.runAlone_bind_ok h
  obtain ⟨w₀, w₀', hget, h₁'⟩ := Step.runAlone_bind_ok h₁
  rw [Step.runAlone_get, Prod.mk.injEq, Except.ok.injEq] at hget
  obtain ⟨rfl, rfl⟩ := hget
  obtain ⟨held, w₀, h₀, h₀'⟩ := Step.runAlone_bind_ok h₁'
  rw [Step.runAlone_ofExcept] at h₀
  rcases hacq : tryAcquire w.held k with e | hs
  · rw [hacq] at h₀
    cases h₀
  · rw [hacq, Prod.mk.injEq, Except.ok.injEq] at h₀
    obtain ⟨rfl, rfl⟩ := h₀
    rw [Step.runAlone_modify, Prod.mk.injEq] at h₀'
    obtain ⟨-, rfl⟩ := h₀'
    obtain ⟨r, w₂, h₃, h₄⟩ := Step.runAlone_bind_ok h₂
    rw [Step.runAlone_tryCatch] at h₃
    rcases hb : body.runAlone { w with held := hs } with ⟨e | b, w₃⟩
    · rw [hb] at h₃
      dsimp only at h₃
      obtain ⟨_, _, _, hthrow⟩ := Step.runAlone_bind_ok h₃
      exact absurd hthrow Step.throw_ok
    · rw [hb, Prod.mk.injEq, Except.ok.injEq] at h₃
      obtain ⟨rfl, rfl⟩ := h₃
      obtain ⟨_, w₄, h₆, h₇⟩ := Step.runAlone_bind_ok h₄
      rw [Step.runAlone_pure, Prod.mk.injEq, Except.ok.injEq] at h₇
      obtain ⟨rfl, rfl⟩ := h₇
      unfold releaseGuard at h₆
      rw [Step.runAlone_modify, Prod.mk.injEq] at h₆
      obtain ⟨-, rfl⟩ := h₆
      exact ⟨_, w₃, hb, rfl, rfl⟩

end Runs

/-! ## The judgement -/

/-- Every successful run of `s` from a world satisfying `P` ends in a world satisfying `Q` of
its result. -/
def Step.Ensures {α : Type} (s : Step α) (P : World → Prop) (Q : α → World → Prop) : Prop :=
  ∀ ⦃w a w'⦄, P w → s.runAlone w = (.ok a, w') → Q a w'

namespace Step.Ensures

variable {α β : Type} {s : Step α} {P P' : World → Prop} {Q Q' : α → World → Prop}

theorem mono (h : s.Ensures P Q) (hP : ∀ w, P' w → P w) (hQ : ∀ a w, Q a w → Q' a w) :
    s.Ensures P' Q' :=
  fun _ _ _ hp hr => hQ _ _ (h (hP _ hp) hr)

theorem pure {a : α} (h : ∀ w, P w → Q a w) : (Pure.pure a : Step α).Ensures P Q := by
  intro w b w' hp hr
  simp only [Step.runAlone_pure, Prod.mk.injEq, Except.ok.injEq] at hr
  obtain ⟨rfl, rfl⟩ := hr
  exact h w hp

theorem throw {e : ScanError} : (MonadExcept.throw e : Step α).Ensures P Q := by
  intro w b w' _ hr
  cases hr

theorem bind {f : α → Step β} {R : β → World → Prop} (h : s.Ensures P Q)
    (hf : ∀ a, (f a).Ensures (Q a) R) : (s >>= f).Ensures P R := by
  intro w b w'' hp hr
  obtain ⟨a, w', hs, hfa⟩ := Step.runAlone_bind_ok hr
  exact hf a (h hp hs) hfa

/-- A loop over a list, with an invariant indexed by what remains of it. -/
theorem forM {l : List β} {f : β → Step PUnit} {I : List β → World → Prop}
    (h : ∀ x rest, (f x).Ensures (I (x :: rest)) fun _ => I rest) :
    (l.forM f).Ensures (I l) fun _ => I [] := by
  induction l with
  | nil => exact pure fun _ hw => hw
  | cons x rest ih =>
    show (f x >>= fun _ => rest.forM f).Ensures _ _
    exact bind (h x rest) fun _ => ih

end Step.Ensures

end DataCatalog.Scan
