import Mathlib.Logic.Relation
import DataCatalog.Schedule.Interleave
/-!
# Threads that fork tasks and join them

A runtime serves threads over one shared state. Each thread runs a computation in a context of
its own, and at each of its waits any thread or task may take the next turn: a run of the
runtime is any sequence of its steps (`Runtime.Step`), so every interleaving of its threads and
tasks at their waits is one of its runs.

A thread's computation may finish with a result that forks tasks (`Runtime.fork`). The thread
then waits while its tasks run beside every other thread and task, at most `permits` of them
started and unfinished at a time, each in a context made from its parent's (`Runtime.spawn`).
Once every task has finished, the thread goes on with their results, in the order the tasks
were forked. Tasks do not fork in turn.
-/

namespace DataCatalog.Schedule

/-- Tasks to fork: how many may run at once, the tasks, and how their parent goes on with their
results. -/
structure Fork (σ α : Type) : Type 1 where
  permits : Nat
  tasks : List (Turns σ α)
  join : List α → Turns σ α

/-- A forked task: not started, waiting for its next turn in its context, or finished. -/
inductive Task (γ σ α : Type) : Type 1 where
  | pending (t : Turns σ α)
  | running (rest : Turns σ α) (context : γ)
  | finished (a : α)

/-- A thread: waiting for its next turn in its context, waiting for the tasks it forked, or
finished. -/
inductive Thread (γ σ α : Type) : Type 1 where
  | running (rest : Turns σ α) (context : γ)
  | joining (context : γ) (permits : Nat) (tasks : List (Task γ σ α))
      (join : List α → Turns σ α)
  | finished (a : α)

/-- How a runtime runs computations: how a context enters the shared state and is read back,
the context a task starts with given its parent's, and the tasks a result forks. -/
structure Runtime (γ σ α : Type) : Type 1 where
  switch : Switch γ σ
  spawn : γ → γ
  fork : α → Option (Fork σ α)

/-- The threads of a runtime and the shared state. -/
structure Config (γ σ α : Type) : Type 1 where
  threads : List (Thread γ σ α)
  state : σ

variable {γ σ α : Type}

namespace Task

/-- Whether the task has started and not finished. -/
def isRunning : Task γ σ α → Bool
  | .running .. => true
  | _ => false

/-- The results of tasks that have all finished, in order. -/
def collect : List (Task γ σ α) → Option (List α)
  | [] => some []
  | .finished a :: ks => (collect ks).map (a :: ·)
  | _ :: _ => none

end Task

/-- Threads that each wait for their first turn in the context `g`, over the state `s`. -/
def Config.launch (ts : List (Turns σ α)) (g : γ) (s : σ) : Config γ σ α :=
  ⟨ts.map fun t => .running t g, s⟩

namespace Runtime

variable (rt : Runtime γ σ α)

/-- One turn of a task: it runs up to its next wait and waits again in the context it leaves,
or it finishes. -/
def taskTurn (rest : Turns σ α) (g : γ) (s : σ) : Task γ σ α × σ :=
  match rest.advance (rt.switch.enter g s) with
  | (.waiting r, s') => (.running r (rt.switch.leave s'), s')
  | (.finished a, s') => (.finished a, s')

/-- One turn of a thread: as a task's, except that a result that forks leaves the thread
waiting for its tasks, none of them started. -/
def turn (rest : Turns σ α) (g : γ) (s : σ) : Thread γ σ α × σ :=
  match rest.advance (rt.switch.enter g s) with
  | (.waiting r, s') => (.running r (rt.switch.leave s'), s')
  | (.finished a, s') =>
    match rt.fork a with
    | none => (.finished a, s')
    | some f => (.joining (rt.switch.leave s') f.permits (f.tasks.map .pending) f.join, s')

/-- One step of a runtime: a thread takes a turn; a task starts while fewer than its fork's
permits are running; a task takes a turn; or a thread whose tasks have all finished goes on
with their results. -/
inductive Step : Config γ σ α → Config γ σ α → Prop
  | serve {ts₁ ts₂ : List (Thread γ σ α)} {rest : Turns σ α} {g : γ} {s : σ} :
      Step ⟨ts₁ ++ .running rest g :: ts₂, s⟩
        ⟨ts₁ ++ (rt.turn rest g s).1 :: ts₂, (rt.turn rest g s).2⟩
  | start {ts₁ ts₂ : List (Thread γ σ α)} {g : γ} {n : Nat} {ks₁ ks₂ : List (Task γ σ α)}
      {t : Turns σ α} {j : List α → Turns σ α} {s : σ} :
      (ks₁ ++ ks₂).countP Task.isRunning < n →
      Step ⟨ts₁ ++ .joining g n (ks₁ ++ .pending t :: ks₂) j :: ts₂, s⟩
        ⟨ts₁ ++ .joining g n (ks₁ ++ .running t (rt.spawn g) :: ks₂) j :: ts₂, s⟩
  | serveTask {ts₁ ts₂ : List (Thread γ σ α)} {g : γ} {n : Nat} {ks₁ ks₂ : List (Task γ σ α)}
      {rest : Turns σ α} {c : γ} {j : List α → Turns σ α} {s : σ} :
      Step ⟨ts₁ ++ .joining g n (ks₁ ++ .running rest c :: ks₂) j :: ts₂, s⟩
        ⟨ts₁ ++ .joining g n (ks₁ ++ (rt.taskTurn rest c s).1 :: ks₂) j :: ts₂,
          (rt.taskTurn rest c s).2⟩
  | join {ts₁ ts₂ : List (Thread γ σ α)} {g : γ} {n : Nat} {ks : List (Task γ σ α)}
      {j : List α → Turns σ α} {as : List α} {s : σ} :
      Task.collect ks = some as →
      Step ⟨ts₁ ++ .joining g n ks j :: ts₂, s⟩ ⟨ts₁ ++ .running (j as) g :: ts₂, s⟩

/-- The configurations a runtime reaches by any sequence of steps. -/
def Runs : Config γ σ α → Config γ σ α → Prop := Relation.ReflTransGen rt.Step

end Runtime

end DataCatalog.Schedule
