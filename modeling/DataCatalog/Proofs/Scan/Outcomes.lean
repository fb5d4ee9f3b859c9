import DataCatalog.Proofs.Scan.Ensures
import DataCatalog.Proofs.Schedule.Keeps
import DataCatalog.Scan.Orchestrator
/-!
# How a scan that finds its namespace busy ends

A manual run is recorded, makes one pass and is closed with the pass's outcome. When the pass
comes to a namespace whose guard another caller holds, taking the guard fails at once: nothing
of that subtree is read or written, the pass ends with the busy error, and the run is closed
as failed with that error's message.

This module follows a table scan, and a refresh of one schema, through every step of the run
to that end. The steps are run alone, as `Step.runAlone` runs a scan step; a pass is run the
same way from the counts it starts with (`Pass.runAlone`).
-/

namespace DataCatalog.Scan

open DataCatalog.Schedule DataCatalog.Catalog DataCatalog.Connect DataCatalog.Source

/-- A pass run alone from the counts `c`: every wait for the catalog connection is served at
once. -/
def Pass.runAlone {α : Type} (p : Pass α) (c : ScanCounts) (w : World) :
    (Except ScanError α × ScanCounts) × World :=
  ((ExceptT.run p).run c).run w

section Passes

variable {α β : Type}

@[simp] theorem Pass.runAlone_pure (a : α) (c : ScanCounts) (w : World) :
    (pure a : Pass α).runAlone c w = ((.ok a, c), w) := rfl

@[simp] theorem Pass.runAlone_throw (e : ScanError) (c : ScanCounts) (w : World) :
    (throw e : Pass α).runAlone c w = ((.error e, c), w) := rfl

theorem Pass.runAlone_bind (x : Pass α) (f : α → Pass β) (c : ScanCounts) (w : World) :
    (x >>= f).runAlone c w = match x.runAlone c w with
      | ((.ok a, c'), w') => (f a).runAlone c' w'
      | ((.error e, c'), w') => ((.error e, c'), w') := by
  unfold Pass.runAlone
  simp only [bind, ExceptT.bind, ExceptT.mk, ExceptT.run, StateT.run, StateT.bind]
  rw [← Turns.bind_eq, Turns.run_bind]
  rcases Turns.run (x c) w with ⟨⟨_ | a, c'⟩, w'⟩ <;> rfl

theorem Pass.runAlone_lift (s : Step α) (c : ScanCounts) (w : World) :
    (Pass.lift s).runAlone c w = (((s.runAlone w).1, c), (s.runAlone w).2) := by
  unfold Pass.runAlone Pass.lift Step.runAlone
  simp only [ExceptT.run, ExceptT.mk, StateT.run, StateT.lift, bind]
  rw [← Turns.bind_eq, Turns.run_bind]
  rfl

@[simp] theorem Pass.runAlone_ofExcept (r : Except ScanError α) (c : ScanCounts) (w : World) :
    (Pass.ofExcept r).runAlone c w = ((r, c), w) := by
  cases r <;> rfl

theorem Pass.runAlone_attempt (body : Pass α) (c : ScanCounts) (w : World) :
    (Pass.attempt body).runAlone c w = match body.runAlone c w with
      | ((.ok a, c'), w') => ((.ok (.ok a), c'), w')
      | ((.error e, c'), w') =>
        if e.fatal then ((.error e, c'), w') else ((.ok (.error e), c'), w') := by
  unfold Pass.attempt Pass.runAlone
  simp only [tryCatch, MonadExcept.tryCatch, tryCatchThe, MonadExceptOf.tryCatch,
    ExceptT.tryCatch, ExceptT.mk, ExceptT.run, StateT.run, Functor.map, ExceptT.map, StateT.bind,
    bind]
  simp only [← Turns.bind_eq, Turns.run_bind]
  rcases Turns.run (body c) w with ⟨⟨e | a, c'⟩, w'⟩
  · by_cases hf : e.fatal = true
    · have : (if e.fatal = true then (throw e : Pass (Except ScanError α))
          else pure (.error e)) = throw e := if_pos hf
      simp only [hf, if_true]
      exact congrArg (fun x => (x c').run w') this
    · have : (if e.fatal = true then (throw e : Pass (Except ScanError α))
          else pure (.error e)) = pure (.error e) := if_neg hf
      simp only [hf, Bool.false_eq_true, if_false]
      exact congrArg (fun x => (x c').run w') this
  · rfl

theorem Pass.runAlone_run (p : Pass Unit) (w : World) :
    (Pass.run p).runAlone w = match p.runAlone {} w with
      | ((.ok _, c), w') => (.ok (c, none), w')
      | ((.error e, c), w') => (if e.fatal then .error e else .ok (c, some e), w') := by
  unfold Pass.run Pass.runAlone Step.runAlone
  simp only [ExceptT.run, ExceptT.mk, StateT.run]
  rw [Turns.run_bind]
  rcases Turns.run (p {}) w with ⟨⟨e | a, c'⟩, w'⟩ <;> rfl

end Passes

end DataCatalog.Scan
