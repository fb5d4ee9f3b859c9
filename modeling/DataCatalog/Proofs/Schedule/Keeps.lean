import Mathlib
import DataCatalog.Schedule.Interleave
/-!
# Invariants kept at every turn

Computations that run side by side interleave only at their waits. A property of the shared
state that a computation restores before each of its waits therefore holds whenever any
computation waits, however they are scheduled. `Turns.Keeps I Q t` says that `t`, resumed in a
state satisfying `I`, satisfies `I` again at its next wait or at its end, finishes with a
result satisfying `Q`, and keeps doing so after each wait; between two waits it may do as it
likes. The judgement composes along `bind`, and `interleave` keeps `I` whenever every
computation it runs does and entering a computation's context keeps `I`.
-/

namespace DataCatalog.Schedule

namespace Turns

variable {σ α β : Type}

@[simp] theorem bind_eq (t : Turns σ α) (f : α → Turns σ β) : t >>= f = t.bind f := rfl

@[simp] theorem done_bind (a : α) (f : α → Turns σ β) : (done a).bind f = f a := rfl

@[simp] theorem advance_done (a : α) (s : σ) :
    (done a : Turns σ α).advance s = (.finished a, s) := rfl

@[simp] theorem advance_wait (t : Turns σ α) (s : σ) : (wait t).advance s = (.waiting t, s) := rfl

@[simp] theorem advance_step {β : Type} (run : σ → β × σ) (next : β → Turns σ α) (s : σ) :
    (step run next).advance s = (next (run s).1).advance (run s).2 := rfl

/-- Running a sequence up to its next wait runs the head up to its next wait first. -/
theorem advance_bind (t : Turns σ α) (f : α → Turns σ β) (s : σ) :
    (t >>= f).advance s = match t.advance s with
      | (.finished a, s') => (f a).advance s'
      | (.waiting r, s') => (.waiting (r >>= f), s') := by
  induction t generalizing s with
  | done a => rfl
  | step run next ih => exact ih _ _
  | wait next => rfl

/-- Run alone, a computation runs up to its next wait and then on from there. -/
theorem run_eq_advance (t : Turns σ α) (s : σ) :
    t.run s = match t.advance s with
      | (.finished a, s') => (a, s')
      | (.waiting r, s') => r.run s' := by
  induction t generalizing s with
  | done a => rfl
  | step run next ih => exact ih _ _
  | wait next => rfl

/-- `t` keeps `I` at every turn: resumed in a state satisfying `I`, it reaches its next wait or
its end in such a state, finishes with a result satisfying `Q`, and what remains after the wait
keeps `I` in turn. -/
inductive Keeps (I : σ → Prop) (Q : α → Prop) : Turns σ α → Prop
  | intro {t : Turns σ α}
      (state : ∀ s, I s → I (t.advance s).2)
      (result : ∀ s a, I s → (t.advance s).1 = .finished a → Q a)
      (rest : ∀ s r, I s → (t.advance s).1 = .waiting r → Keeps I Q r) : Keeps I Q t

variable {I : σ → Prop} {Q : α → Prop} {R : β → Prop}

namespace Keeps

theorem state {t : Turns σ α} (h : Keeps I Q t) {s : σ} (hs : I s) : I (t.advance s).2 := by
  cases h with
  | intro state _ _ => exact state s hs

theorem result {t : Turns σ α} (h : Keeps I Q t) {s : σ} {a : α} (hs : I s)
    (ha : (t.advance s).1 = .finished a) : Q a := by
  cases h with
  | intro _ result _ => exact result s a hs ha

theorem rest {t r : Turns σ α} (h : Keeps I Q t) {s : σ} (hs : I s)
    (hr : (t.advance s).1 = .waiting r) : Keeps I Q r := by
  cases h with
  | intro _ _ rest => exact rest s r hs hr

theorem pure {a : α} (h : Q a) : Keeps I Q (Pure.pure a : Turns σ α) :=
  .intro (fun _ hs => hs) (fun _ _ _ ha => by cases ha; exact h) (fun _ _ _ hr => by cases hr)

theorem mono {Q' : α → Prop} {t : Turns σ α} (h : Keeps I Q t) (hQ : ∀ a, Q a → Q' a) :
    Keeps I Q' t := by
  induction h with
  | intro state result _ ih =>
    exact .intro state (fun s a hs ha => hQ a (result s a hs ha)) ih

theorem bind {t : Turns σ α} {f : α → Turns σ β} (h : Keeps I Q t)
    (hf : ∀ a, Q a → Keeps I R (f a)) : Keeps I R (t >>= f) := by
  induction h with
  | @intro t state result _ ih =>
    -- where the head's segment ends decides whose segment the sequence is in
    have seg : ∀ s, I s →
        (∃ a s', (t >>= f).advance s = (f a).advance s' ∧ I s' ∧ Keeps I R (f a)) ∨
        (∃ r s', (t >>= f).advance s = (.waiting (r >>= f), s') ∧ I s' ∧
          Keeps I R (r >>= f)) := by
      intro s hs
      have hs' := state s hs
      rw [advance_bind]
      rcases ht : t.advance s with ⟨⟨r⟩ | ⟨a⟩, s'⟩ <;> rw [ht] at hs'
      · exact .inr ⟨r, s', rfl, hs', ih s r hs (by rw [ht])⟩
      · exact .inl ⟨a, s', rfl, hs', hf a (result s a hs (by rw [ht]))⟩
    refine .intro (fun s hs => ?_) (fun s b hs hb => ?_) (fun s r hs hr => ?_)
    · rcases seg s hs with ⟨a, s', he, hs', hk⟩ | ⟨r, s', he, hs', -⟩ <;> rw [he]
      · exact hk.state hs'
      · exact hs'
    · rcases seg s hs with ⟨a, s', he, hs', hk⟩ | ⟨r, s', he, -, -⟩ <;> rw [he] at hb
      · exact hk.result hs' hb
      · cases hb
    · rcases seg s hs with ⟨a, s', he, hs', hk⟩ | ⟨r', s', he, -, hk⟩ <;> rw [he] at hr
      · exact hk.rest hs' hr
      · cases hr
        exact hk

/-- A single change of state that keeps `I`, with its result. -/
theorem step {run : σ → β × σ} {next : β → Turns σ α}
    (h : ∀ s, I s → I (run s).2 ∧ Keeps I Q (next (run s).1)) : Keeps I Q (Turns.step run next) :=
  .intro (fun s hs => (h s hs).2.state (h s hs).1)
    (fun s _ hs ha => (h s hs).2.result (h s hs).1 ha)
    (fun s _ hs hr => (h s hs).2.rest (h s hs).1 hr)

theorem wait {t : Turns σ α} (h : Keeps I Q t) : Keeps I Q (Turns.wait t) :=
  .intro (fun _ hs => hs) (fun _ _ _ ha => by cases ha) (fun _ _ _ hr => by cases hr; exact h)

/-- Run alone from a state satisfying `I`, a computation that keeps `I` ends in such a state
with a result satisfying `Q`. -/
theorem run {t : Turns σ α} (h : Keeps I Q t) {s : σ} (hs : I s) :
    I (t.run s).2 ∧ Q (t.run s).1 := by
  induction h generalizing s with
  | @intro t state result _ ih =>
    have hs' := state s hs
    rw [run_eq_advance]
    rcases ht : t.advance s with ⟨⟨r⟩ | ⟨a⟩, s'⟩ <;> rw [ht] at hs'
    · exact ih s r hs (by rw [ht]) hs'
    · exact ⟨hs', result s a hs (by rw [ht])⟩

end Keeps

end Turns

/-! ## Running side by side -/

section Interleave

universe u

variable {γ σ α : Type} {I : σ → Prop} {Q : α → Prop}

theorem pickAt_mem {β : Type u} : ∀ {n : Nat} {l : List β} {x : β} {rest : List β},
    pickAt n l = some (x, rest) → x ∈ l ∧ ∀ y ∈ rest, y ∈ l
  | _, [], _, _, h => by simp [pickAt] at h
  | 0, y :: ys, x, rest, h => by
    simp only [pickAt, Option.some.injEq, Prod.mk.injEq] at h
    obtain ⟨rfl, rfl⟩ := h
    exact ⟨List.mem_cons_self, fun z hz => List.mem_cons_of_mem _ hz⟩
  | n + 1, y :: ys, x, rest, h => by
    simp only [pickAt, Option.map_eq_some_iff, Prod.exists, Prod.mk.injEq] at h
    obtain ⟨x', rest', hpick, rfl, rfl⟩ := h
    obtain ⟨hxm, hrm⟩ := pickAt_mem hpick
    refine ⟨List.mem_cons_of_mem _ hxm, fun z hz => ?_⟩
    rcases List.mem_cons.1 hz with rfl | hz
    · exact List.mem_cons_self
    · exact List.mem_cons_of_mem _ (hrm z hz)

/-- A pool whose shared state satisfies `I` and whose computations, started or not, keep it. -/
structure Pool.Keeps (I : σ → Prop) (Q : α → Prop) (p : Pool γ σ α) : Prop where
  state : I p.state
  queue : ∀ c ∈ p.queue, Turns.Keeps I Q c.rest
  unstarted : ∀ x ∈ p.unstarted, Turns.Keeps I Q x.2

variable {sw : Switch γ σ} {fresh : γ}

theorem Pool.Keeps.launch (hsw : ∀ g s, I s → I (sw.enter g s)) :
    ∀ (pending : List (Nat × Turns σ α)) (p : Pool γ σ α),
      (∀ x ∈ pending, Turns.Keeps I Q x.2) → I p.state → (∀ c ∈ p.queue, Turns.Keeps I Q c.rest) →
        (Pool.launch sw fresh pending p).Keeps I Q
  | [], p, _, hs, hq => ⟨hs, hq, fun _ h => by cases h⟩
  | (i, t) :: rest, p, hpend, hs, hq => by
    have ht := hpend (i, t) List.mem_cons_self
    have hrest : ∀ x ∈ rest, Turns.Keeps I Q x.2 := fun x hx => hpend x (List.mem_cons_of_mem _ hx)
    unfold Pool.launch
    split
    · exact ⟨hs, hq, hpend⟩
    · cases ht with
      | intro state _ restOk =>
        -- the new computation runs up to its first wait in its own fresh context
        have hin := hsw fresh p.state hs
        rcases hadv : t.advance (sw.enter fresh p.state) with ⟨⟨r⟩ | ⟨a⟩, s⟩
        · refine Pool.Keeps.launch hsw rest _ hrest (by simpa [hadv] using state _ hin) ?_
          intro c hc
          rcases List.mem_append.1 hc with hc | hc
          · exact hq c hc
          · rw [List.mem_singleton] at hc
            subst hc
            exact restOk _ r hin (by rw [hadv])
        · exact Pool.Keeps.launch hsw rest _ hrest (by simpa [hadv] using state _ hin) hq

theorem Pool.Keeps.serve (hsw : ∀ g s, I s → I (sw.enter g s)) (policy : Policy) :
    ∀ (fuel : Nat) (p : Pool γ σ α), p.Keeps I Q → (p.serve sw fresh policy fuel).Keeps I Q
  | 0, _, h => h
  | fuel + 1, p, h => by
    unfold Pool.serve
    split
    · exact h
    · rename_i c others hpick
      obtain ⟨hc, hothers⟩ := pickAt_mem hpick
      have hin := hsw c.context p.state h.state
      cases h.queue c hc with
      | intro state _ restOk =>
        -- the served computation runs up to its next wait, or to its end
        rcases hadv : c.rest.advance (sw.enter c.context p.state) with ⟨⟨r⟩ | ⟨a⟩, s⟩
        · refine Pool.Keeps.serve hsw policy fuel _ ⟨by simpa [hadv] using state _ hin, ?_,
            h.unstarted⟩
          intro c' hc'
          rcases List.mem_append.1 hc' with hc' | hc'
          · exact h.queue c' (hothers c' hc')
          · rw [List.mem_singleton] at hc'
            subst hc'
            exact restOk _ r hin (by rw [hadv])
        · refine Pool.Keeps.serve hsw policy fuel _ (Pool.Keeps.launch hsw _ _ h.unstarted ?_ ?_)
          · simpa [hadv] using state _ hin
          · exact fun c' hc' => h.queue c' (hothers c' hc')

/-- Computations that each keep `I` keep it when run side by side, however many at a time,
whichever policy serves them and however many turns are served. -/
theorem interleave_keeps (hsw : ∀ g s, I s → I (sw.enter g s)) (policy : Policy)
    (slots fuel : Nat) {ts : List (Turns σ α)} (hts : ∀ t ∈ ts, Turns.Keeps I Q t) {s : σ}
    (hs : I s) : I (interleave sw fresh policy slots fuel ts s).2 := by
  unfold interleave
  refine (Pool.Keeps.serve (Q := Q) hsw policy fuel _ (Pool.Keeps.launch hsw _ _ ?_ hs ?_)).state
  · intro x hx
    obtain ⟨⟨t, i⟩, ht, rfl⟩ := List.mem_map.1 hx
    exact hts t (List.fst_mem_of_mem_zipIdx ht)
  · intro c hc
    cases hc

end Interleave

end DataCatalog.Schedule
