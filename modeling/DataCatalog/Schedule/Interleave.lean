import DataCatalog.Schedule.Turns
/-!
# Running computations side by side

`interleave` runs several computations over one shared state. At most `slots` of them are
started at once; the others wait in the order given and start one by one as running ones
finish and free their slots. A started computation runs up to its first wait and then queues
for its turn. The policy picks which queued computation takes the next turn: it runs up to its
next wait and queues again at the back, or it finishes and frees its slot. The first-come
first-served policy `Policy.fifo` serves the queue in order of arrival, as a connection shared
fairly between its callers does.

Each computation keeps a context of its own, such as an open connector: the context is put
into the shared state when the computation takes a turn and read back when it waits again.
-/

namespace DataCatalog.Schedule

/-- How a computation's own context enters the shared state, and is read back from it. -/
structure Switch (γ σ : Type) where
  enter : γ → σ → σ
  leave : σ → γ

/-- Chooses, out of the number of queued computations, the position of the one served next;
positions are taken modulo the length of the queue. -/
abbrev Policy := Nat → Nat

/-- Serves the queue in order of arrival. -/
def Policy.fifo : Policy := fun _ => 0

/-- A started computation: its position among all of them, what remains of it, and its
context. -/
structure Running (γ σ α : Type) : Type 1 where
  index : Nat
  rest : Turns σ α
  context : γ

/-- Computations running side by side: the started ones queued for their turn, the ones not
started yet, the number of free slots, the results so far by position, and the shared
state. -/
structure Pool (γ σ α : Type) : Type 1 where
  queue : List (Running γ σ α)
  unstarted : List (Nat × Turns σ α)
  free : Nat
  results : List (Nat × α)
  state : σ

universe u

variable {γ σ α : Type}

/-- The element at position `n` of a list and the others in order. -/
def pickAt {β : Type u} : Nat → List β → Option (β × List β)
  | _, [] => none
  | 0, x :: xs => some (x, xs)
  | n + 1, x :: xs => (pickAt n xs).map fun (y, ys) => (y, x :: ys)

/-- Starts computations of `pending`, in order, while a slot is free, each with the context
`fresh`. A computation that finishes before its first wait gives its slot back at once. -/
def Pool.launch (sw : Switch γ σ) (fresh : γ) :
    List (Nat × Turns σ α) → Pool γ σ α → Pool γ σ α
  | [], p => { p with unstarted := [] }
  | (i, t) :: rest, p =>
    if p.free = 0 then { p with unstarted := (i, t) :: rest }
    else
      match t.advance (sw.enter fresh p.state) with
      | (.waiting r, s) =>
        Pool.launch sw fresh rest
          { p with queue := p.queue ++ [⟨i, r, sw.leave s⟩], free := p.free - 1, state := s }
      | (.finished a, s) =>
        Pool.launch sw fresh rest { p with results := p.results ++ [(i, a)], state := s }

/-- Serves turns until every started computation has finished, or `fuel` turns were served. -/
def Pool.serve (sw : Switch γ σ) (fresh : γ) (policy : Policy) : Nat → Pool γ σ α → Pool γ σ α
  | 0, p => p
  | fuel + 1, p =>
    match pickAt (policy p.queue.length % p.queue.length) p.queue with
    | none => p
    | some (c, others) =>
      match c.rest.advance (sw.enter c.context p.state) with
      | (.waiting r, s) =>
        Pool.serve sw fresh policy fuel
          { p with queue := others ++ [⟨c.index, r, sw.leave s⟩], state := s }
      | (.finished a, s) =>
        Pool.serve sw fresh policy fuel
          (Pool.launch sw fresh p.unstarted
            { p with queue := others, free := p.free + 1, results := p.results ++ [(c.index, a)],
                     state := s })

/-- Runs computations side by side from the state `s`, at most `slots` at a time: the result
of each, in the order given (`none` for one still unfinished when `fuel` turns were served),
and the final state. -/
def interleave (sw : Switch γ σ) (fresh : γ) (policy : Policy) (slots fuel : Nat)
    (ts : List (Turns σ α)) (s : σ) : List (Option α) × σ :=
  let p := Pool.launch sw fresh (ts.zipIdx.map fun (t, i) => (i, t)) ⟨[], [], slots, [], s⟩
  let p := p.serve sw fresh policy fuel
  ((List.range ts.length).map fun i => List.lookup i p.results, p.state)

end DataCatalog.Schedule
