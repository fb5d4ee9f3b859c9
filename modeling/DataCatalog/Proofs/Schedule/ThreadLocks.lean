import Mathlib
import DataCatalog.Proofs.Schedule.Locks
import DataCatalog.Proofs.Schedule.Threads
/-!
# Keys held by threads and tasks

`Runtime.track` runs the computations of a runtime tracked (`Turns.track`): a context carries
its computation's credit, the keys it took and still holds, and a forked task starts with none.
A tracked configuration follows a configuration of the runtime (`Config.Tracks`) when it runs
the same computations at the same places, with the same contexts, results and shared state;
every run of the runtime is followed by a run of the tracked runtime (`Config.Tracks.runs`).

Along a tracked run the credits of the threads in progress, of the threads waiting for their
tasks and of the running tasks stay pairwise disjoint and held, and apart from the keys held
when the run began, which stay held (`Config.Credited.runs`), provided every computation holds
(`Turns.Holds`): the threads and the tasks from no credit, and a join from its parent's credit.
So no key is ever credited to two of them (`Runtime.Holds.exclusive`).
-/

namespace DataCatalog.Schedule

variable {γ σ α κ : Type} {hd : σ → Set κ}

/-! ## Tracked runtimes -/

/-- A fork whose tasks and join run tracked; the join reads the tasks' results. -/
def Fork.track (hd : σ → Set κ) (f : Fork σ α) : Fork (σ × Set κ) (α × Set κ) :=
  ⟨f.permits, f.tasks.map (Turns.track hd), fun as => Turns.track hd (f.join (as.map Prod.fst))⟩

/-- The runtime that runs computations tracked: a context carries its computation's credit, and
a task starts with none. -/
def Runtime.track (hd : σ → Set κ) (rt : Runtime γ σ α) :
    Runtime (γ × Set κ) (σ × Set κ) (α × Set κ) :=
  ⟨rt.switch.track, fun g => (rt.spawn g.1, ∅), fun x => (rt.fork x.1).map (Fork.track hd)⟩

/-- A task run tracked, with the credit `H` in its context or beside its result. -/
def Task.track (hd : σ → Set κ) (H : Set κ) : Task γ σ α → Task (γ × Set κ) (σ × Set κ) (α × Set κ)
  | .pending t => .pending (Turns.track hd t)
  | .running rest g => .running (Turns.track hd rest) (g, H)
  | .finished a => .finished (a, H)

/-- A thread run tracked, with the credit `H`; the tasks it waits for are tracked with none. -/
def Thread.track (hd : σ → Set κ) (H : Set κ) :
    Thread γ σ α → Thread (γ × Set κ) (σ × Set κ) (α × Set κ)
  | .running rest g => .running (Turns.track hd rest) (g, H)
  | .joining g n tasks join => .joining (g, H) n (tasks.map (Task.track hd ∅))
      fun as => Turns.track hd (join (as.map Prod.fst))
  | .finished a => .finished (a, H)

section Turn

variable (rt : Runtime γ σ α) {r : Turns σ α} {g : γ} {H H' H₀ : Set κ} {s : σ}

/-- A tracked thread's turn is the thread's turn, with the credit it leaves beside the state and
in the thread. -/
theorem Runtime.track_turn
    (hadv : (Turns.track hd r).advance (rt.switch.enter g s, H) =
      (Turns.Progress.track hd H' (r.advance (rt.switch.enter g s)).1,
        ((r.advance (rt.switch.enter g s)).2, H'))) :
    (rt.track hd).turn (Turns.track hd r) (g, H) (s, H₀) =
      ((rt.turn r g s).1.track hd H', ((rt.turn r g s).2, H')) := by
  have hadv' : (Turns.track hd r).advance ((rt.track hd).switch.enter (g, H) (s, H₀)) =
      (Turns.Progress.track hd H' (r.advance (rt.switch.enter g s)).1,
        ((r.advance (rt.switch.enter g s)).2, H')) := hadv
  have hfork : ∀ a : α, (rt.track hd).fork (a, H') = (rt.fork a).map (Fork.track hd) :=
    fun _ => rfl
  rcases rt.turn_cases r g s with ⟨r', s', hr, heq⟩ | ⟨a, s', hr, hf, heq⟩ |
      ⟨a, s', f, hr, hf, heq⟩ <;> rw [hr] at hadv' <;> rw [heq, Runtime.turn, hadv']
  · rfl
  · simp only [Turns.Progress.track, hfork, hf, Option.map_none]
    rfl
  · simp only [Turns.Progress.track, hfork, hf, Option.map_some, Fork.track, Thread.track,
      List.map_map]
    rfl

/-- A tracked task's turn is the task's turn, with the credit it leaves. -/
theorem Runtime.track_taskTurn
    (hadv : (Turns.track hd r).advance (rt.switch.enter g s, H) =
      (Turns.Progress.track hd H' (r.advance (rt.switch.enter g s)).1,
        ((r.advance (rt.switch.enter g s)).2, H'))) :
    (rt.track hd).taskTurn (Turns.track hd r) (g, H) (s, H₀) =
      ((rt.taskTurn r g s).1.track hd H', ((rt.taskTurn r g s).2, H')) := by
  have hadv' : (Turns.track hd r).advance ((rt.track hd).switch.enter (g, H) (s, H₀)) =
      (Turns.Progress.track hd H' (r.advance (rt.switch.enter g s)).1,
        ((r.advance (rt.switch.enter g s)).2, H')) := hadv
  rcases rt.taskTurn_cases r g s with ⟨r', s', hr, heq⟩ | ⟨a, s', hr, heq⟩ <;>
    rw [hr] at hadv' <;> rw [heq, Runtime.taskTurn, hadv'] <;> rfl

end Turn

/-! ## Tracked runs follow runs -/

/-- A tracked task runs a task: the same computation, context and result. -/
inductive Task.Tracks (hd : σ → Set κ) :
    Task (γ × Set κ) (σ × Set κ) (α × Set κ) → Task γ σ α → Prop
  | pending (t : Turns σ α) : Task.Tracks hd (.pending (Turns.track hd t)) (.pending t)
  | running (rest : Turns σ α) (g : γ) (H : Set κ) :
      Task.Tracks hd (.running (Turns.track hd rest) (g, H)) (.running rest g)
  | finished (a : α) (H : Set κ) : Task.Tracks hd (.finished (a, H)) (.finished a)

/-- A tracked thread runs a thread: the same computation, context, tasks, join and result. -/
inductive Thread.Tracks (hd : σ → Set κ) :
    Thread (γ × Set κ) (σ × Set κ) (α × Set κ) → Thread γ σ α → Prop
  | running (rest : Turns σ α) (g : γ) (H : Set κ) :
      Thread.Tracks hd (.running (Turns.track hd rest) (g, H)) (.running rest g)
  | joining (g : γ) (H : Set κ) (n : Nat) {tks : List (Task (γ × Set κ) (σ × Set κ) (α × Set κ))}
      {ks : List (Task γ σ α)} (join : List α → Turns σ α) :
      List.Forall₂ (Task.Tracks hd) tks ks →
      Thread.Tracks hd (.joining (g, H) n tks fun as => Turns.track hd (join (as.map Prod.fst)))
        (.joining g n ks join)
  | finished (a : α) (H : Set κ) : Thread.Tracks hd (.finished (a, H)) (.finished a)

/-- A tracked configuration runs a configuration: its threads run the threads, over the same
state. -/
structure Config.Tracks (hd : σ → Set κ) (tc : Config (γ × Set κ) (σ × Set κ) (α × Set κ))
    (c : Config γ σ α) : Prop where
  threads : List.Forall₂ (Thread.Tracks hd) tc.threads c.threads
  state : tc.state.1 = c.state

theorem Task.tracks_track (H : Set κ) : ∀ k : Task γ σ α, Task.Tracks hd (k.track hd H) k
  | .pending t => .pending t
  | .running rest g => .running rest g H
  | .finished a => .finished a H

theorem Thread.tracks_track (H : Set κ) : ∀ th : Thread γ σ α, Thread.Tracks hd (th.track hd H) th
  | .running rest g => .running rest g H
  | .joining g n _ j =>
    .joining g H n j (List.forall₂_map_left_iff.2 (List.forall₂_same.2 fun k _ => k.tracks_track ∅))
  | .finished a => .finished a H

/-- A list related to one with a member in the middle splits around a member related to it. -/
theorem forall₂_middle {β β' : Type 1} {R : β → β' → Prop} {l₂ : List β'} {b : β'} :
    ∀ {l : List β} {l₁ : List β'}, List.Forall₂ R l (l₁ ++ b :: l₂) →
      ∃ m₁ a m₂, l = m₁ ++ a :: m₂ ∧ List.Forall₂ R m₁ l₁ ∧ R a b ∧ List.Forall₂ R m₂ l₂
  | _, [], h => by
    obtain ⟨a, m₂, hab, hrest, rfl⟩ := List.forall₂_cons_right_iff.1 h
    exact ⟨[], a, m₂, rfl, .nil, hab, hrest⟩
  | _, _ :: _, h => by
    obtain ⟨a, m, hac, hrest, rfl⟩ := List.forall₂_cons_right_iff.1 h
    obtain ⟨m₁, a', m₂, rfl, h₁, hb, h₂⟩ := forall₂_middle hrest
    exact ⟨a :: m₁, a', m₂, rfl, .cons hac h₁, hb, h₂⟩

theorem Task.Tracks.countP_running :
    ∀ {tks : List (Task (γ × Set κ) (σ × Set κ) (α × Set κ))} {ks : List (Task γ σ α)},
      List.Forall₂ (Task.Tracks hd) tks ks →
        tks.countP Task.isRunning = ks.countP Task.isRunning
  | _, _, .nil => rfl
  | _, _, .cons h rest => by
    rw [List.countP_cons, List.countP_cons, Task.Tracks.countP_running rest]
    cases h <;> rfl

theorem Task.Tracks.collect :
    ∀ {tks : List (Task (γ × Set κ) (σ × Set κ) (α × Set κ))} {ks : List (Task γ σ α)}
      {as : List α}, List.Forall₂ (Task.Tracks hd) tks ks → Task.collect ks = some as →
        ∃ tas, Task.collect tks = some tas ∧ tas.map Prod.fst = as
  | _, _, _, .nil, h => by
    cases h
    exact ⟨[], rfl, rfl⟩
  | _, _, as, .cons hk rest, h => by
    cases hk with
    | finished a H =>
      obtain ⟨bs, hbs, rfl⟩ := Option.map_eq_some_iff.1 h
      obtain ⟨tbs, htbs, rfl⟩ := Task.Tracks.collect rest hbs
      exact ⟨(a, H) :: tbs, by simp only [Task.collect, htbs, Option.map_some], rfl⟩
    | pending t => cases h
    | running rest g H => cases h

section Follow

variable {rt : Runtime γ σ α}

/-- Every step of a runtime is followed by a step of the tracked runtime. -/
theorem Config.Tracks.step {c d : Config γ σ α} {tc : Config (γ × Set κ) (σ × Set κ) (α × Set κ)}
    (h : rt.Step c d) (ht : tc.Tracks hd c) :
    ∃ td, (rt.track hd).Step tc td ∧ td.Tracks hd d := by
  obtain ⟨tthreads, ⟨s₀, H₀⟩⟩ := tc
  obtain ⟨hth, hs⟩ := ht
  cases h with
  | @serve ts₁ ts₂ rest g s =>
    dsimp only at hth hs
    subst s
    obtain ⟨m₁, _, m₂, rfl, h₁, hmid, h₂⟩ := forall₂_middle hth
    cases hmid with
    | running _ _ H =>
      obtain ⟨H', hadv⟩ := Turns.advance_track hd rest (rt.switch.enter g s₀) H
      -- the tracked turn is the turn, with the credit it leaves; the state is the turn's
      refine ⟨_, .serve, List.rel_append h₁ (.cons ?_ h₂), ?_⟩ <;> rw [rt.track_turn hadv]
      exact Thread.tracks_track H' _
  | @start ts₁ ts₂ g n ks₁ ks₂ t j s hn =>
    dsimp only at hth hs
    subst s
    obtain ⟨m₁, _, m₂, rfl, h₁, hmid, h₂⟩ := forall₂_middle hth
    cases hmid with
    | joining _ H _ _ hks =>
      obtain ⟨k₁, _, k₂, rfl, hk₁, hkmid, hk₂⟩ := forall₂_middle hks
      cases hkmid with
      | pending _ =>
        have hcount : (k₁ ++ k₂).countP Task.isRunning < n := by
          rw [Task.Tracks.countP_running (List.rel_append hk₁ hk₂)]
          exact hn
        exact ⟨_, .start hcount, List.rel_append h₁ (.cons (.joining g H n j
          (List.rel_append hk₁ (.cons (.running t (rt.spawn g) ∅) hk₂))) h₂), rfl⟩
  | @serveTask ts₁ ts₂ g n ks₁ ks₂ rest c j s =>
    dsimp only at hth hs
    subst s
    obtain ⟨m₁, _, m₂, rfl, h₁, hmid, h₂⟩ := forall₂_middle hth
    cases hmid with
    | joining _ H _ _ hks =>
      obtain ⟨k₁, _, k₂, rfl, hk₁, hkmid, hk₂⟩ := forall₂_middle hks
      cases hkmid with
      | running _ _ Hc =>
        obtain ⟨H', hadv⟩ := Turns.advance_track hd rest (rt.switch.enter c s₀) Hc
        refine ⟨_, .serveTask, List.rel_append h₁ (.cons (.joining g H n j
          (List.rel_append hk₁ (.cons ?_ hk₂))) h₂), ?_⟩ <;> rw [rt.track_taskTurn hadv]
        exact Task.tracks_track H' _
  | @join ts₁ ts₂ g n ks j as s hcol =>
    dsimp only at hth hs
    subst s
    obtain ⟨m₁, _, m₂, rfl, h₁, hmid, h₂⟩ := forall₂_middle hth
    cases hmid with
    | joining _ H _ _ hks =>
      obtain ⟨tas, htas, rfl⟩ := Task.Tracks.collect hks hcol
      exact ⟨_, .join htas, List.rel_append h₁ (.cons (.running _ g H) h₂), rfl⟩

/-- Every run of a runtime is followed by a run of the tracked runtime. -/
theorem Config.Tracks.runs {c d : Config γ σ α} {tc : Config (γ × Set κ) (σ × Set κ) (α × Set κ)}
    (h : rt.Runs c d) (ht : tc.Tracks hd c) :
    ∃ td, (rt.track hd).Runs tc td ∧ td.Tracks hd d := by
  induction h with
  | refl => exact ⟨tc, .refl, ht⟩
  | tail _ hstep ih =>
    obtain ⟨td, hrun, htd⟩ := ih
    obtain ⟨te, hstep', hte⟩ := htd.step hstep
    exact ⟨te, hrun.tail hstep', hte⟩

theorem Config.tracks_launch (ts : List (Turns σ α)) (g : γ) (s : σ) :
    (Config.launch (ts.map (Turns.track hd)) ((g, ∅) : γ × Set κ) (s, ∅)).Tracks hd
      (Config.launch ts g s) := by
  refine ⟨?_, rfl⟩
  simp only [Config.launch, List.map_map]
  exact List.forall₂_map_left_iff.2 (List.forall₂_map_right_iff.2
    (List.forall₂_same.2 fun t _ => .running t g ∅))

end Follow

/-! ## Credits -/

section Credits

variable {τ β : Type}

/-- The credit of a started task. -/
def Task.credits : Task (γ × Set κ) τ β → List (Set κ)
  | .running _ g => [g.2]
  | _ => []

/-- The credits of a thread in progress: its own, and those of its started tasks. -/
def Thread.credits : Thread (γ × Set κ) τ β → List (Set κ)
  | .running _ g => [g.2]
  | .joining g _ tasks _ => g.2 :: tasks.flatMap Task.credits
  | .finished _ => []

/-- The credits of the threads and tasks of a tracked configuration. -/
def Config.credits (c : Config (γ × Set κ) τ β) : List (Set κ) :=
  c.threads.flatMap Thread.credits

/-- Credits pairwise disjoint and held at `s`, and apart from the keys `E`, which are held. -/
structure CreditsApart (hd : σ → Set κ) (E : Set κ) (s : σ) (L : List (Set κ)) : Prop where
  spared : E ⊆ hd s
  held : ∀ H ∈ L, H ⊆ hd s
  apart : ∀ H ∈ L, Disjoint H E
  pairwise : L.Pairwise Disjoint

variable {E H H' : Set κ} {s s' : σ} {L L' O M : List (Set κ)}

theorem CreditsApart.perm (h : CreditsApart hd E s L) (hp : L.Perm L') : CreditsApart hd E s L' :=
  ⟨h.spared, fun H hH => h.held H (hp.mem_iff.2 hH), fun H hH => h.apart H (hp.mem_iff.2 hH),
    (hp.pairwise_iff fun h => Disjoint.symm h).1 h.pairwise⟩

theorem CreditsApart.congr {t : σ} (h : CreditsApart hd E s L) (ht : hd t = hd s) :
    CreditsApart hd E t L :=
  ⟨ht ▸ h.spared, fun H hH => ht ▸ h.held H hH, h.apart, h.pairwise⟩

/-- Adding an empty credit keeps credits apart. -/
theorem CreditsApart.cons_empty (h : CreditsApart hd E s L) : CreditsApart hd E s (∅ :: L) := by
  refine ⟨h.spared, fun H hH => ?_, fun H hH => ?_, List.Pairwise.cons
    (fun _ _ => Set.empty_disjoint _) h.pairwise⟩
  · rcases List.mem_cons.1 hH with rfl | hH
    · exact Set.empty_subset _
    · exact h.held H hH
  · rcases List.mem_cons.1 hH with rfl | hH
    · exact Set.empty_disjoint _
    · exact h.apart H hH

/-- A move of one credit that spares the keys of the others keeps the credits apart. -/
theorem CreditsApart.move (h : CreditsApart hd E s (H :: O)) (hm : Takes hd H s H' s') :
    CreditsApart hd E s' (H' :: O) := by
  have hpw := List.pairwise_cons.1 h.pairwise
  have hE := hm.others h.spared (h.apart H List.mem_cons_self).symm
  have hothers : ∀ D ∈ O, D ⊆ hd s' ∧ Disjoint D H' := fun D hD =>
    hm.others (h.held D (List.mem_cons_of_mem _ hD)) (hpw.1 D hD).symm
  refine ⟨hE.1, fun D hD => ?_, fun D hD => ?_, List.Pairwise.cons (fun D hD => ?_) hpw.2⟩
  · rcases List.mem_cons.1 hD with rfl | hD
    · exact hm.held
    · exact (hothers D hD).1
  · rcases List.mem_cons.1 hD with rfl | hD
    · exact hE.2.symm
    · exact h.apart D (List.mem_cons_of_mem _ hD)
  · exact (hothers D hD).2.symm

/-- One credit moved, by a move that spares the others, to a credit that stays or is given up:
the credits stay apart. -/
theorem CreditsApart.replace (h : CreditsApart hd E s L) (hL : L.Perm (H :: O))
    (hm : Takes hd H s H' s') (hM : M = [H'] ∨ M = []) (hL' : L'.Perm (M ++ O)) :
    CreditsApart hd E s' L' := by
  have hmoved := (h.perm hL).move hm
  rcases hM with rfl | rfl
  · exact hmoved.perm hL'.symm
  · exact ⟨hmoved.spared, fun D hD => hmoved.held D (List.mem_cons_of_mem _ (hL'.subset hD)),
      fun D hD => hmoved.apart D (List.mem_cons_of_mem _ (hL'.subset hD)),
      (hL'.pairwise_iff fun h => Disjoint.symm h).2 (List.pairwise_cons.1 hmoved.pairwise).2⟩

theorem credits_middle {δ : Type 1} (f : δ → List (Set κ)) (l₁ l₂ : List δ) (x : δ) :
    ((l₁ ++ x :: l₂).flatMap f).Perm (f x ++ (l₁ ++ l₂).flatMap f) := by
  simp only [List.flatMap_append, List.flatMap_cons]
  exact List.perm_append_comm_assoc _ _ _

/-- The credits of a configuration with a task in the middle of a waiting thread are the task's
and those of the configuration without it. -/
theorem credits_task_middle (ts₁ ts₂ : List (Thread (γ × Set κ) τ β)) (g : γ × Set κ)
    (n : Nat) (ks₁ ks₂ : List (Task (γ × Set κ) τ β)) (k : Task (γ × Set κ) τ β)
    (j : List β → Turns τ β) :
    ((ts₁ ++ .joining g n (ks₁ ++ k :: ks₂) j :: ts₂).flatMap Thread.credits).Perm
      (k.credits ++ (ts₁ ++ .joining g n (ks₁ ++ ks₂) j :: ts₂).flatMap Thread.credits) := by
  refine (List.Perm.of_eq ?_).trans ((List.perm_append_comm_assoc
    (ts₁.flatMap Thread.credits ++ g.2 :: ks₁.flatMap Task.credits) k.credits
    (ks₂.flatMap Task.credits ++ ts₂.flatMap Thread.credits)).trans (List.Perm.of_eq ?_)) <;>
    simp [Thread.credits]

/-- Finished tasks hold no credit. -/
theorem Task.credits_of_collect : ∀ {ks : List (Task (γ × Set κ) τ β)} {as : List β},
    Task.collect ks = some as → ks.flatMap Task.credits = []
  | [], _, _ => rfl
  | .finished _ :: _, _, h => by
    obtain ⟨_, hbs, -⟩ := Option.map_eq_some_iff.1 h
    simpa [Task.credits] using Task.credits_of_collect hbs
  | .pending _ :: _, _, h => by cases h
  | .running .. :: _, _, h => by cases h

end Credits

/-! ## Credited configurations -/

section Credited

variable {Q : α → Set κ → Prop}

/-- The tracked computation `rest`, waiting in the context `g`, holds from `g`'s credit
wherever that credit is held. -/
def Turns.Resumes (hd : σ → Set κ) (Q : α → Set κ → Prop) (sw : Switch γ σ)
    (rest : Turns (σ × Set κ) (α × Set κ)) (g : γ × Set κ) : Prop :=
  ∃ r, rest = Turns.track hd r ∧ ∀ s, g.2 ⊆ hd s → Turns.Holds hd Q g.2 r (sw.enter g.1 s)

/-- A tracked task that holds: from no credit wherever it starts, from its credit wherever it
resumes; finished, its result and credit satisfy `Q`. -/
def Task.Obliged (hd : σ → Set κ) (Q : α → Set κ → Prop) (sw : Switch γ σ) :
    Task (γ × Set κ) (σ × Set κ) (α × Set κ) → Prop
  | .pending t => ∃ t₀, t = Turns.track hd t₀ ∧ ∀ s, Turns.Holds hd Q ∅ t₀ s
  | .running rest g => Turns.Resumes hd Q sw rest g
  | .finished x => Q x.1 x.2

/-- A tracked thread that holds, with its tasks and its join; finished, its result and credit
satisfy `Q`. -/
def Thread.Obliged (hd : σ → Set κ) (Q : α → Set κ → Prop) (sw : Switch γ σ) :
    Thread (γ × Set κ) (σ × Set κ) (α × Set κ) → Prop
  | .running rest g => Turns.Resumes hd Q sw rest g
  | .joining g _ tasks join => (∀ k ∈ tasks, k.Obliged hd Q sw) ∧
    ∃ j₀ : List α → Turns σ α, join = (fun as => Turns.track hd (j₀ (as.map Prod.fst))) ∧
      ∀ as s, g.2 ⊆ hd s → Turns.Holds hd Q g.2 (j₀ as) (sw.enter g.1 s)
  | .finished x => Q x.1 x.2

/-- A tracked configuration whose credits are apart from each other and from the keys `E`, and
whose threads and tasks hold. -/
structure Config.Credited (hd : σ → Set κ) (E : Set κ) (Q : α → Set κ → Prop) (sw : Switch γ σ)
    (c : Config (γ × Set κ) (σ × Set κ) (α × Set κ)) : Prop where
  apart : CreditsApart hd E c.state.1 c.credits
  threads : ∀ th ∈ c.threads, th.Obliged hd Q sw

/-- Entering a context keeps the held keys, and a result satisfying `Q` with its credit forks
tasks that hold from no credit and a join that holds from that credit. -/
structure Runtime.Holds (hd : σ → Set κ) (Q : α → Set κ → Prop) (rt : Runtime γ σ α) : Prop where
  enter : ∀ g s, hd (rt.switch.enter g s) = hd s
  fork : ∀ a H f, Q a H → rt.fork a = some f →
    (∀ t ∈ f.tasks, ∀ s, Turns.Holds hd Q ∅ t s) ∧
    ∀ as s, H ⊆ hd s → Turns.Holds hd Q H (f.join as) s

variable {rt : Runtime γ σ α} {E : Set κ}

/-- A thread's turn, tracked from a credit it holds from: it moves its credit by a move that
spares the others, to a credit it keeps or gives up, and the thread it leaves holds. -/
theorem Runtime.Holds.turn (hrt : rt.Holds hd Q) {r : Turns σ α} {g : γ} {H H₀ : Set κ} {s : σ}
    (hr : ∀ s, H ⊆ hd s → Turns.Holds hd Q H r (rt.switch.enter g s)) (hs : H ⊆ hd s) :
    ∃ H', Takes hd H s H' (rt.turn r g s).2 ∧
      (rt.track hd).turn (Turns.track hd r) (g, H) (s, H₀) =
        ((rt.turn r g s).1.track hd H', ((rt.turn r g s).2, H')) ∧
      (((rt.turn r g s).1.track hd H').credits = [H'] ∨
        ((rt.turn r g s).1.track hd H').credits = []) ∧
      ((rt.turn r g s).1.track hd H').Obliged hd Q rt.switch := by
  have hin : H ⊆ hd (rt.switch.enter g s) := by rw [hrt.enter]; exact hs
  obtain ⟨H', htakes, hadv, hfin, hwait⟩ := (hr s hs).advance_track hin
  refine ⟨H', ?_, rt.track_turn hadv, ?_⟩
  · have hturn : (rt.turn r g s).2 = (r.advance (rt.switch.enter g s)).2 := by
      rcases rt.turn_cases r g s with ⟨_, _, hr', heq⟩ | ⟨_, _, hr', -, heq⟩ |
          ⟨_, _, _, hr', -, heq⟩ <;> rw [heq, hr']
    rw [hturn]
    exact htakes.congr (hrt.enter g s).symm rfl
  rcases rt.turn_cases r g s with ⟨r', s', hr', heq⟩ | ⟨a, s', hr', -, heq⟩ |
      ⟨a, s', f, hr', hf, heq⟩ <;> rw [heq] <;> rw [hr'] at hfin hwait
  · -- it waits again, credited with what it holds, resumable wherever that is held
    refine ⟨.inl rfl, r', rfl, fun s'' hs'' => hwait r' rfl _ ?_⟩
    rw [hrt.enter]
    exact hs''
  · exact ⟨.inr rfl, hfin a rfl⟩
  · -- it forks: its tasks start from no credit and its join resumes from its credit
    obtain ⟨htasks, hjoin⟩ := hrt.fork a H' f (hfin a rfl) hf
    refine ⟨.inl ?_, fun k hk => ?_, f.join, rfl, fun as s'' hs'' =>
      hjoin as _ (by rw [hrt.enter]; exact hs'')⟩
    · simp [Thread.track, Thread.credits, Task.track, Task.credits]
    · simp only [List.map_map, List.mem_map, Function.comp_apply] at hk
      obtain ⟨t, ht, rfl⟩ := hk
      exact ⟨t, rfl, htasks t ht⟩

/-- A task's turn, tracked from a credit it holds from: it moves its credit by a move that
spares the others, to a credit it keeps or gives up, and the task it leaves holds. -/
theorem Runtime.Holds.taskTurn (hrt : rt.Holds hd Q) {r : Turns σ α} {g : γ} {H H₀ : Set κ}
    {s : σ} (hr : ∀ s, H ⊆ hd s → Turns.Holds hd Q H r (rt.switch.enter g s)) (hs : H ⊆ hd s) :
    ∃ H', Takes hd H s H' (rt.taskTurn r g s).2 ∧
      (rt.track hd).taskTurn (Turns.track hd r) (g, H) (s, H₀) =
        ((rt.taskTurn r g s).1.track hd H', ((rt.taskTurn r g s).2, H')) ∧
      (((rt.taskTurn r g s).1.track hd H').credits = [H'] ∨
        ((rt.taskTurn r g s).1.track hd H').credits = []) ∧
      ((rt.taskTurn r g s).1.track hd H').Obliged hd Q rt.switch := by
  have hin : H ⊆ hd (rt.switch.enter g s) := by rw [hrt.enter]; exact hs
  obtain ⟨H', htakes, hadv, hfin, hwait⟩ := (hr s hs).advance_track hin
  refine ⟨H', ?_, rt.track_taskTurn hadv, ?_⟩
  · have hturn : (rt.taskTurn r g s).2 = (r.advance (rt.switch.enter g s)).2 := by
      rcases rt.taskTurn_cases r g s with ⟨_, _, hr', heq⟩ | ⟨_, _, hr', heq⟩ <;> rw [heq, hr']
    rw [hturn]
    exact htakes.congr (hrt.enter g s).symm rfl
  rcases rt.taskTurn_cases r g s with ⟨r', s', hr', heq⟩ | ⟨a, s', hr', heq⟩ <;> rw [heq] <;>
    rw [hr'] at hfin hwait
  · refine ⟨.inl rfl, r', rfl, fun s'' hs'' => hwait r' rfl _ ?_⟩
    rw [hrt.enter]
    exact hs''
  · exact ⟨.inr rfl, hfin a rfl⟩

/-- Every step of the tracked runtime keeps a configuration credited. -/
theorem Config.Credited.step (hrt : rt.Holds hd Q)
    {c d : Config (γ × Set κ) (σ × Set κ) (α × Set κ)} (h : (rt.track hd).Step c d)
    (hc : c.Credited hd E Q rt.switch) : d.Credited hd E Q rt.switch := by
  obtain ⟨hap, hts⟩ := hc
  cases h with
  | @serve ts₁ ts₂ rest g s =>
    dsimp only [Config.credits] at hap hts ⊢
    obtain ⟨g, H⟩ := g
    obtain ⟨s, H₀⟩ := s
    have hth := of_forall_mem_middle hts
    obtain ⟨r, rfl, hr⟩ := hth
    have hold := credits_middle Thread.credits ts₁ ts₂ (.running (Turns.track hd r) (g, H))
    -- the thread resumes holding its credit, which the others left held
    obtain ⟨H', htakes, heq, hcredits, hob⟩ :=
      hrt.turn hr (hap.held H (hold.symm.subset List.mem_cons_self))
    rw [heq]
    exact ⟨hap.replace hold htakes hcredits (credits_middle _ _ _ _),
      forall_mem_middle hts (fun _ h => h) hob⟩
  | @start ts₁ ts₂ g n ks₁ ks₂ t j s hn =>
    dsimp only [Config.credits] at hap hts ⊢
    obtain ⟨hks, hj⟩ := of_forall_mem_middle hts
    have hk := of_forall_mem_middle hks
    obtain ⟨t₀, rfl, ht₀⟩ := hk
    -- the started task adds an empty credit
    have hperm := (credits_task_middle ts₁ ts₂ g n ks₁ ks₂
      (.running (Turns.track hd t₀) ((rt.track hd).spawn g)) j).trans
      (List.Perm.cons ∅ (credits_task_middle ts₁ ts₂ g n ks₁ ks₂ (.pending (Turns.track hd t₀)) j).symm)
    exact ⟨hap.cons_empty.perm hperm.symm, forall_mem_middle hts (fun _ h => h)
      ⟨forall_mem_middle hks (fun _ h => h) ⟨t₀, rfl, fun _ _ => ht₀ _⟩, hj⟩⟩
  | @serveTask ts₁ ts₂ g n ks₁ ks₂ rest c j s =>
    dsimp only [Config.credits] at hap hts ⊢
    obtain ⟨c, Hc⟩ := c
    obtain ⟨s, H₀⟩ := s
    obtain ⟨hks, hj⟩ := of_forall_mem_middle hts
    have hk := of_forall_mem_middle hks
    obtain ⟨r, rfl, hr⟩ := hk
    have hold := credits_task_middle ts₁ ts₂ g n ks₁ ks₂
      (.running (Turns.track hd r) (c, Hc)) j
    obtain ⟨H', htakes, heq, hcredits, hob⟩ :=
      hrt.taskTurn hr (hap.held Hc (hold.symm.subset List.mem_cons_self))
    rw [heq]
    exact ⟨hap.replace hold htakes hcredits (credits_task_middle _ _ _ _ _ _ _ _),
      forall_mem_middle hts (fun _ h => h) ⟨forall_mem_middle hks (fun _ h => h) hob, hj⟩⟩
  | @join ts₁ ts₂ g n ks j as s hcol =>
    dsimp only [Config.credits] at hap hts ⊢
    have hth := of_forall_mem_middle hts
    obtain ⟨-, j₀, rfl, hj₀⟩ := hth
    -- the tasks have all finished, so the thread's credit is its own alone, before and after
    have hperm : ((ts₁ ++ .joining g n ks (fun as => Turns.track hd (j₀ (as.map Prod.fst))) :: ts₂
        ).flatMap Thread.credits).Perm
        ((ts₁ ++ .running (Turns.track hd (j₀ (as.map Prod.fst))) g :: ts₂).flatMap
          Thread.credits) := by
      refine (credits_middle _ _ _ _).trans (List.Perm.trans ?_ (credits_middle _ _ _ _).symm)
      simp only [Thread.credits, Task.credits_of_collect hcol]
      rfl
    exact ⟨hap.perm hperm, forall_mem_middle hts (fun _ h => h)
      ⟨j₀ (as.map Prod.fst), rfl, fun s hs => hj₀ _ s hs⟩⟩

/-- Every run of the tracked runtime keeps a configuration credited. -/
theorem Config.Credited.runs (hrt : rt.Holds hd Q)
    {c d : Config (γ × Set κ) (σ × Set κ) (α × Set κ)} (h : (rt.track hd).Runs c d)
    (hc : c.Credited hd E Q rt.switch) : d.Credited hd E Q rt.switch := by
  induction h with
  | refl => exact hc
  | tail _ hstep ih => exact ih.step hrt hstep

theorem Config.credited_launch {ts : List (Turns σ α)} (hts : ∀ t ∈ ts, ∀ s, Turns.Holds hd Q ∅ t s)
    (g : γ) (s : σ) :
    (Config.launch (ts.map (Turns.track hd)) ((g, ∅) : γ × Set κ) (s, ∅)).Credited hd (hd s) Q
      rt.switch := by
  -- every thread starts with the empty credit
  have hempty : ∀ H ∈ (Config.launch (ts.map (Turns.track hd)) ((g, ∅) : γ × Set κ)
      (s, ∅)).credits, H = ∅ := by
    intro H hH
    simp [Config.credits, Config.launch, Thread.credits] at hH
    exact hH.2
  refine ⟨⟨subset_rfl, fun H hH => ?_, fun H hH => ?_, ?_⟩, fun th hth => ?_⟩
  · rw [hempty H hH]
    exact Set.empty_subset _
  · rw [hempty H hH]
    exact Set.empty_disjoint _
  · exact List.Pairwise.imp_of_mem (fun hx _ _ => by rw [hempty _ hx]; exact Set.empty_disjoint _)
      (List.pairwise_of_forall fun _ _ => trivial)
  · simp only [Config.launch, List.map_map, List.mem_map, Function.comp_apply] at hth
    obtain ⟨t, ht, rfl⟩ := hth
    exact ⟨t, rfl, fun s _ => hts t ht _⟩

/-- Computations that each hold from no credit, run as the threads of a runtime whose contexts
keep the held keys and whose forks hold, never credit one key to two threads or tasks in
progress: every run of the runtime is followed by a run of the tracked runtime, and every
configuration the tracked runtime reaches is credited. -/
theorem Runtime.Holds.exclusive (hrt : rt.Holds hd Q) {ts : List (Turns σ α)}
    (hts : ∀ t ∈ ts, ∀ s, Turns.Holds hd Q ∅ t s) (g : γ) (s : σ) {c : Config γ σ α}
    (h : rt.Runs (Config.launch ts g s) c) :
    ∃ tc, (rt.track hd).Runs (Config.launch (ts.map (Turns.track hd)) (g, ∅) (s, ∅)) tc ∧
      tc.Tracks hd c ∧ tc.Credited hd (hd s) Q rt.switch := by
  obtain ⟨tc, hrun, htc⟩ := (Config.tracks_launch ts g s).runs h
  exact ⟨tc, hrun, htc, (Config.credited_launch hts g s).runs hrt hrun⟩

end Credited

end DataCatalog.Schedule
