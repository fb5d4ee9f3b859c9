import Mathlib
import DataCatalog.Proofs.Schedule.Keeps
/-!
# Moving along a relation, with what was learned kept across waits

`Turns.Keeps` resumes a computation in any state that satisfies its invariant, so whatever the
computation learned about the shared state before a wait is lost at the wait. Here the others
are assumed to move the shared state only along a preorder `G`, and each computation is shown to
do the same. `Turns.Moves G Q t s` says that `t`, resumed at `s`, reaches its next wait or its
end by a `G`-step, finishes with `Q` of its result and of the state it leaves, and, resumed
after a wait at any state that the others reached from there along `G`, does so again. A fact
about the state that every `G`-step keeps therefore survives every wait.

The judgement composes along `bind`; run alone, a computation moves its state along `G`; and
computations that each move along `G`, run side by side, move the shared state along `G`.
-/

namespace DataCatalog.Schedule

namespace Turns

variable {σ α β : Type} {G : σ → σ → Prop}

/-- `t`, resumed at `s`, moves the state along `G` up to its next wait or its end, finishes
with a result and a state satisfying `Q`, and, resumed after a wait at a state reached from
there along `G`, does so again. -/
inductive Moves (G : σ → σ → Prop) (Q : α → σ → Prop) : Turns σ α → σ → Prop
  | intro {t : Turns σ α} {s : σ} (moves : G s (t.advance s).2)
      (result : ∀ a, (t.advance s).1 = .finished a → Q a (t.advance s).2)
      (rest : ∀ r s', (t.advance s).1 = .waiting r → G (t.advance s).2 s' → Moves G Q r s') :
      Moves G Q t s

variable {Q : α → σ → Prop} {R : β → σ → Prop}

namespace Moves

theorem mono {Q' : α → σ → Prop} {t : Turns σ α} {s : σ} (h : Moves G Q t s)
    (hQ : ∀ a s, Q a s → Q' a s) : Moves G Q' t s := by
  induction h with
  | intro moves result _ ih => exact .intro moves (fun a ha => hQ _ _ (result a ha)) ih

/-- A fact about the state that every `G`-step keeps holds wherever the computation finishes. -/
theorem frame {F : σ → Prop} (hF : ∀ s s', G s s' → F s → F s') {t : Turns σ α} {s : σ}
    (h : Moves G Q t s) (hs : F s) : Moves G (fun a s' => F s' ∧ Q a s') t s := by
  induction h with
  | intro moves result _ ih =>
    -- the fact reaches the end of the segment, and from there every state the others reach
    have hseg := hF _ _ moves hs
    exact .intro moves (fun a ha => ⟨hseg, result a ha⟩)
      fun r s' hr hs' => ih r s' hr hs' (hF _ _ hs' hseg)

variable [IsPreorder σ G]

theorem pure {a : α} {s : σ} (h : Q a s) : Moves G Q (Pure.pure a : Turns σ α) s :=
  .intro (refl_of G s) (fun _ ha => by cases ha; exact h) (fun _ _ hr => by cases hr)

theorem bind {t : Turns σ α} {f : α → Turns σ β} {s : σ} (h : Moves G Q t s)
    (hf : ∀ a s', Q a s' → Moves G R (f a) s') : Moves G R (t >>= f) s := by
  induction h with
  | @intro t s moves result _ ih =>
    rcases ht : t.advance s with ⟨⟨r⟩ | ⟨a⟩, s₁⟩
    · -- the head waits: so does the sequence, with the rest of the head in front
      have hmoves : G s s₁ := by simpa [ht] using moves
      refine .intro ?_ ?_ ?_ <;> simp only [advance_bind, ht]
      · exact hmoves
      · intro b hb
        cases hb
      · intro r' s' hr' hs'
        cases hr'
        exact ih r s' (by rw [ht]) (by simpa [ht] using hs')
    · -- the head finishes: the continuation runs on in the same segment
      have hmoves : G s s₁ := by simpa [ht] using moves
      have hk := hf a s₁ (by simpa [ht] using result a (by rw [ht]))
      cases hk with
      | intro moves' result' rest' =>
        refine .intro ?_ ?_ ?_ <;> simp only [advance_bind, ht]
        · exact trans_of G hmoves moves'
        · exact result'
        · exact rest'

/-- A single change of state along `G`, then a computation that moves along `G`. -/
theorem step {run : σ → β × σ} {next : β → Turns σ α} {s : σ} (hrun : G s (run s).2)
    (h : Moves G Q (next (run s).1) (run s).2) : Moves G Q (Turns.step run next) s := by
  cases h with
  | intro moves result rest => exact .intro (trans_of G hrun moves) result rest

/-- A wait, after which the computation is resumed wherever the others moved the state. -/
theorem wait {t : Turns σ α} {s : σ} (h : ∀ s', G s s' → Moves G Q t s') :
    Moves G Q (Turns.wait t) s :=
  .intro (refl_of G s) (fun _ ha => by cases ha) fun r s' hr hs' => by
    cases hr
    exact h s' hs'

/-- Run alone, a computation that moves along `G` moves its state along `G` and ends with a
result and a state satisfying `Q`. -/
theorem run {t : Turns σ α} {s : σ} (h : Moves G Q t s) :
    G s (t.run s).2 ∧ Q (t.run s).1 (t.run s).2 := by
  induction h with
  | @intro t s moves result _ ih =>
    rw [run_eq_advance]
    rcases ht : t.advance s with ⟨⟨r⟩ | ⟨a⟩, s₁⟩
    · -- alone, a computation is resumed where it waited
      have hmoves : G s s₁ := by simpa [ht] using moves
      obtain ⟨h₁, h₂⟩ := ih r s₁ (by rw [ht]) (by simpa [ht] using refl_of G s₁)
      exact ⟨trans_of G hmoves h₁, h₂⟩
    · exact ⟨by simpa [ht] using moves, by simpa [ht] using result a (by rw [ht])⟩

end Moves

end Turns

/-! ## Moving side by side -/

section Interleave

variable {γ σ α : Type} {G : σ → σ → Prop} [IsPreorder σ G] {Q : α → σ → Prop}
  {sw : Switch γ σ} {fresh : γ}

/-- A pool whose shared state was reached from `s₀` along `G`, whose queued computations move
along `G` wherever they are resumed after the current state, and whose unstarted ones move
along `G` from any state reached from `s₀`. -/
structure Pool.Moves (G : σ → σ → Prop) (Q : α → σ → Prop) (sw : Switch γ σ) (s₀ : σ)
    (p : Pool γ σ α) : Prop where
  state : G s₀ p.state
  queue : ∀ c ∈ p.queue, ∀ s, G p.state s → Turns.Moves G Q c.rest (sw.enter c.context s)
  unstarted : ∀ x ∈ p.unstarted, ∀ s, G s₀ s → Turns.Moves G Q x.2 s

/-- A queue whose computations may be resumed after `s` may also be resumed after any state
reached from `s`. -/
theorem queue_after {q : List (Running γ σ α)} {s s' : σ} (hs : G s s')
    (hq : ∀ c ∈ q, ∀ s'', G s s'' → Turns.Moves G Q c.rest (sw.enter c.context s'')) :
    ∀ c ∈ q, ∀ s'', G s' s'' → Turns.Moves G Q c.rest (sw.enter c.context s'') :=
  fun c hc s'' hs'' => hq c hc s'' (trans_of G hs hs'')

/-- A computation that waits at `s` with `rest` may be queued with the context it leaves. -/
theorem queued_rest (hsw : ∀ g s, G s (sw.enter g s)) {t r : Turns σ α} {e s : σ}
    (h : Turns.Moves G Q t e) (hadv : t.advance e = (.waiting r, s)) :
    ∀ s', G s s' → Turns.Moves G Q r (sw.enter (sw.leave s) s') := by
  intro s' hs'
  cases h with
  | intro _ _ rest =>
    refine rest r _ (by rw [hadv]) ?_
    rw [hadv]
    exact trans_of G hs' (hsw _ s')

theorem Pool.Moves.launch (hsw : ∀ g s, G s (sw.enter g s)) {s₀ : σ} :
    ∀ (pending : List (Nat × Turns σ α)) (p : Pool γ σ α),
      (∀ x ∈ pending, ∀ s, G s₀ s → Turns.Moves G Q x.2 s) → G s₀ p.state →
      (∀ c ∈ p.queue, ∀ s, G p.state s → Turns.Moves G Q c.rest (sw.enter c.context s)) →
        (Pool.launch sw fresh pending p).Moves G Q sw s₀
  | [], p, _, hs, hq => ⟨hs, hq, fun _ h => by cases h⟩
  | (i, t) :: rest, p, hpend, hs, hq => by
    have hrest : ∀ x ∈ rest, ∀ s, G s₀ s → Turns.Moves G Q x.2 s :=
      fun x hx => hpend x (List.mem_cons_of_mem _ hx)
    unfold Pool.launch
    split
    · exact ⟨hs, hq, hpend⟩
    · -- the new computation runs up to its first wait in its own fresh context
      have hin : G s₀ (sw.enter fresh p.state) := trans_of G hs (hsw fresh p.state)
      have ht := hpend (i, t) List.mem_cons_self _ hin
      have hseg : G p.state (t.advance (sw.enter fresh p.state)).2 := by
        cases ht with
        | intro moves _ _ => exact trans_of G (hsw fresh p.state) moves
      rcases hadv : t.advance (sw.enter fresh p.state) with ⟨⟨r⟩ | ⟨a⟩, s⟩ <;>
        rw [hadv] at hseg
      · refine Pool.Moves.launch hsw rest _ hrest (trans_of G hs hseg) ?_
        intro c hc
        rcases List.mem_append.1 hc with hc | hc
        · exact queue_after hseg hq c hc
        · rw [List.mem_singleton] at hc
          subst hc
          exact queued_rest hsw ht hadv
      · exact Pool.Moves.launch hsw rest _ hrest (trans_of G hs hseg) (queue_after hseg hq)

theorem Pool.Moves.serve (hsw : ∀ g s, G s (sw.enter g s)) (policy : Policy) {s₀ : σ} :
    ∀ (fuel : Nat) (p : Pool γ σ α), p.Moves G Q sw s₀ →
      (p.serve sw fresh policy fuel).Moves G Q sw s₀
  | 0, _, h => h
  | fuel + 1, p, h => by
    unfold Pool.serve
    split
    · exact h
    · rename_i c others hpick
      obtain ⟨hc, hothers⟩ := pickAt_mem hpick
      have hc' := h.queue c hc p.state (refl_of G _)
      have hseg : G p.state (c.rest.advance (sw.enter c.context p.state)).2 := by
        cases hc' with
        | intro moves _ _ => exact trans_of G (hsw c.context p.state) moves
      have hq : ∀ c' ∈ others, ∀ s, G p.state s →
          Turns.Moves G Q c'.rest (sw.enter c'.context s) :=
        fun c' hc'' => h.queue c' (hothers c' hc'')
      -- the served computation runs up to its next wait, or to its end
      rcases hadv : c.rest.advance (sw.enter c.context p.state) with ⟨⟨r⟩ | ⟨a⟩, s⟩ <;>
        rw [hadv] at hseg
      · refine Pool.Moves.serve hsw policy fuel _ ⟨trans_of G h.state hseg, ?_, h.unstarted⟩
        intro c' hc''
        rcases List.mem_append.1 hc'' with hc'' | hc''
        · exact queue_after hseg hq c' hc''
        · rw [List.mem_singleton] at hc''
          subst hc''
          exact queued_rest hsw hc' hadv
      · exact Pool.Moves.serve hsw policy fuel _
          (Pool.Moves.launch hsw _ _ h.unstarted (trans_of G h.state hseg) (queue_after hseg hq))

/-- Computations that each move along `G`, from any state reached from `s₀`, move the shared
state along `G` when run side by side, however many at a time, whichever policy serves them
and however many turns are served. -/
theorem interleave_moves (hsw : ∀ g s, G s (sw.enter g s)) (policy : Policy) (slots fuel : Nat)
    {ts : List (Turns σ α)} {s₀ : σ} (hts : ∀ t ∈ ts, ∀ s, G s₀ s → Turns.Moves G Q t s) :
    G s₀ (interleave sw fresh policy slots fuel ts s₀).2 := by
  unfold interleave
  refine (Pool.Moves.serve (Q := Q) hsw policy fuel _
    (Pool.Moves.launch hsw _ _ ?_ (refl_of G s₀) ?_)).state
  · intro x hx
    obtain ⟨⟨t, i⟩, ht, rfl⟩ := List.mem_map.1 hx
    exact hts t (List.fst_mem_of_mem_zipIdx ht)
  · intro c hc
    cases hc

end Interleave

end DataCatalog.Schedule
