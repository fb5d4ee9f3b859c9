/-!
# Computations that wait for their turn

A `Turns σ α` computes an `α` over a state `σ` in segments. Between two segments it waits for
its turn at a shared resource, such as a connection that serves one caller at a time.
Computations that run side by side interleave only at these waits, so each segment is atomic
with respect to the others.

Run alone, a computation takes every turn as soon as it asks: `Turns.run` passes over the
waits, and the result is what the same computation gives without them. `Turns.advance` runs a
computation up to its next wait, which is how a scheduler steps it.
-/

namespace DataCatalog.Schedule

/-- A computation over a state `σ` with a result of type `α`, in segments separated by waits. -/
inductive Turns (σ : Type) (α : Type) : Type 1 where
  /-- Finished with a result. -/
  | done (a : α)
  /-- Changes the state, then goes on with what it read. -/
  | step {β : Type} (run : σ → β × σ) (next : β → Turns σ α)
  /-- Waits for its turn, then goes on. -/
  | wait (next : Turns σ α)

namespace Turns

variable {σ : Type}

/-- Runs `t`, then the computation its result chooses. -/
def bind {α β : Type} : Turns σ α → (α → Turns σ β) → Turns σ β
  | done a, f => f a
  | step run next, f => step run fun b => (next b).bind f
  | wait next, f => wait (next.bind f)

instance : Monad (Turns σ) where
  pure := done
  bind := bind

instance : MonadStateOf σ (Turns σ) where
  get := step (fun s => (s, s)) done
  set s := step (fun _ => ((), s)) done
  modifyGet f := step f done

/-- A single wait. -/
def pause : Turns σ Unit := wait (done ())

/-- Runs a computation alone: every wait is served at once. -/
def run {α : Type} : Turns σ α → σ → α × σ
  | done a, s => (a, s)
  | step f next, s => (next (f s).1).run (f s).2
  | wait next, s => next.run s

/-- How far a computation got: it waits for its next turn with what remains, or it finished. -/
inductive Progress (σ : Type) (α : Type) : Type 1 where
  | waiting (rest : Turns σ α)
  | finished (a : α)

/-- Runs a computation up to its next wait, or to its end. -/
def advance {α : Type} : Turns σ α → σ → Progress σ α × σ
  | done a, s => (.finished a, s)
  | step f next, s => (next (f s).1).advance (f s).2
  | wait next, s => (.waiting next, s)

@[simp] theorem run_done {α : Type} (a : α) (s : σ) : (done a : Turns σ α).run s = (a, s) := rfl

@[simp] theorem run_wait {α : Type} (t : Turns σ α) (s : σ) : (wait t).run s = t.run s := rfl

@[simp] theorem run_pause (s : σ) : (pause : Turns σ Unit).run s = ((), s) := rfl

end Turns

end DataCatalog.Schedule
