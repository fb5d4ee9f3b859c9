import Mathlib
import DataCatalog.Proofs.Schedule.Keeps
/-!
# Keys taken and given back

Computations that run side by side may take keys from a shared set of held keys and give them
back. Each computation is credited with the keys it holds: those its own steps added to the held
set and that are held still (`taken`). A step spares the keys of others when it removes no held
key that is not credited to it (`Spares`).

`Turns.Holds hd Q H t s` says that `t`, resumed at `s` credited with `H`, spares the keys of
others at each of its steps, finishes with `Q` of its result and of its credit, and after each
wait goes on so from any state that left its credit held. The judgement composes along `bind`,
and a computation none of whose steps changes the held set (`Turns.Fixed`) keeps its credit.

`Turns.track` runs a computation with its credit beside the state, and `Switch.track` carries
each computation's credit in its context, so that a tracked computation reports the credit it
finishes with beside its result.
-/

namespace DataCatalog.Schedule

/-! ## Credits -/

section Credit

variable {σ κ : Type}

/-- The keys credited after a step from `s` to `s'` to a computation credited with `H` before:
those of `H` still held, and those the step added. -/
def taken (hd : σ → Set κ) (H : Set κ) (s s' : σ) : Set κ := {k | k ∈ hd s' ∧ (k ∈ H ∨ k ∉ hd s)}

/-- A step from `s` to `s'` by a computation credited with `H` keeps every key held by others. -/
def Spares (hd : σ → Set κ) (H : Set κ) (s s' : σ) : Prop := ∀ k ∈ hd s, k ∉ H → k ∈ hd s'

/-- A move from `s`, credited with `H`, to `s'`, credited with `H'`, that keeps every key held
by others and is credited only with held keys that were its own or free. -/
structure Takes (hd : σ → Set κ) (H : Set κ) (s : σ) (H' : Set κ) (s' : σ) : Prop where
  spares : Spares hd H s s'
  held : H' ⊆ hd s'
  fresh : ∀ k ∈ H', k ∈ H ∨ k ∉ hd s

variable {hd : σ → Set κ} {H H' H'' D : Set κ} {s s' s'' : σ}

theorem Takes.refl (hH : H ⊆ hd s) : Takes hd H s H s :=
  ⟨fun _ hk _ => hk, hH, fun _ hk => .inl hk⟩

theorem Takes.taken (h : Spares hd H s s') : Takes hd H s (taken hd H s s') s' :=
  ⟨h, fun _ hk => hk.1, fun _ hk => hk.2⟩

theorem Takes.trans (h₁ : Takes hd H s H' s') (h₂ : Takes hd H' s' H'' s'') :
    Takes hd H s H'' s'' := by
  refine ⟨fun k hk hH => ?_, h₂.held, fun k hk => ?_⟩
  · -- a key of others before the first move is still theirs after it
    exact h₂.spares k (h₁.spares k hk hH) fun hk' => (h₁.fresh k hk').elim hH (· hk)
  · rcases h₂.fresh k hk with hk' | hk'
    · exact h₁.fresh k hk'
    · by_cases hH : k ∈ H
      · exact .inl hH
      · exact .inr fun hks => hk' (h₁.spares k hks hH)

/-- Only the held set counts in a move: moves between states with the same held keys agree. -/
theorem Takes.congr {t t' : σ} (h : Takes hd H s H' s') (hs : hd t = hd s) (hs' : hd t' = hd s') :
    Takes hd H t H' t' :=
  ⟨fun k hk hH => hs' ▸ h.spares k (hs ▸ hk) hH, hs' ▸ h.held, fun k hk => hs ▸ h.fresh k hk⟩

/-- Keys held by others before a move stay held after it, and are credited to none of them. -/
theorem Takes.others (h : Takes hd H s H' s') (hD : D ⊆ hd s) (hDH : Disjoint D H) :
    D ⊆ hd s' ∧ Disjoint D H' := by
  refine ⟨fun k hk => h.spares k (hD hk) (Set.disjoint_left.1 hDH hk), ?_⟩
  refine Set.disjoint_left.2 fun k hk hk' => ?_
  rcases h.fresh k hk' with hH | hs
  · exact Set.disjoint_left.1 hDH hk hH
  · exact hs (hD hk)

/-- A step that changes no held key keeps the credit. -/
theorem taken_of_held_eq (h : hd s' = hd s) (hH : H ⊆ hd s) : taken hd H s s' = H := by
  ext k
  constructor
  · rintro ⟨hk, hH' | hn⟩
    · exact hH'
    · exact absurd (h ▸ hk) hn
  · exact fun hk => ⟨h ▸ hH hk, .inl hk⟩

/-- A step that makes a free key held credits it to the mover. -/
theorem taken_of_held_insert {k : κ} (h : hd s' = insert k (hd s)) (hH : H ⊆ hd s)
    (hk : k ∉ hd s) : taken hd H s s' = insert k H := by
  ext j
  constructor
  · rintro ⟨hj, hH' | hn⟩
    · exact .inr hH'
    · rw [h] at hj
      rcases hj with rfl | hj
      · exact .inl rfl
      · exact absurd hj hn
  · rintro (rfl | hj)
    · exact ⟨h ▸ .inl rfl, .inr hk⟩
    · exact ⟨h ▸ .inr (hH hj), .inl hj⟩

/-- A step that drops a held key takes it from the mover's credit. -/
theorem taken_of_held_diff {k : κ} (h : hd s' = hd s \ {k}) (hH : H ⊆ hd s) :
    taken hd H s s' = H \ {k} := by
  ext j
  constructor
  · rintro ⟨hj, hH' | hn⟩
    · rw [h] at hj
      exact ⟨hH', hj.2⟩
    · rw [h] at hj
      exact absurd hj.1 hn
  · rintro ⟨hj, hjk⟩
    exact ⟨h ▸ ⟨hH hj, hjk⟩, .inl hj⟩

theorem spares_of_subset (h : hd s ⊆ hd s') : Spares hd H s s' := fun _ hk _ => h hk

/-- Dropping a key of one's own credit spares the keys of others. -/
theorem spares_of_held_diff {k : κ} (h : hd s' = hd s \ {k}) (hk : k ∈ H) : Spares hd H s s' :=
  fun _ hj hjH => h ▸ ⟨hj, fun hjk => hjH (Set.mem_singleton_iff.1 hjk ▸ hk)⟩

end Credit

/-! ## Computations that give back only their own keys -/

variable {σ κ α β : Type}

/-- `t`, resumed at `s` credited with `H`, spares the keys of others at each of its steps,
finishes with `Q` of its result and its credit, and after each wait goes on so from any state
that left its credit held. -/
inductive Turns.Holds (hd : σ → Set κ) (Q : α → Set κ → Prop) : Set κ → Turns σ α → σ → Prop
  | done {H : Set κ} {a : α} {s : σ} : Q a H → Turns.Holds hd Q H (.done a) s
  | step {H : Set κ} {β : Type} {run : σ → β × σ} {next : β → Turns σ α} {s : σ} :
      Spares hd H s (run s).2 →
      Turns.Holds hd Q (taken hd H s (run s).2) (next (run s).1) (run s).2 →
      Turns.Holds hd Q H (.step run next) s
  | wait {H : Set κ} {next : Turns σ α} {s : σ} :
      (∀ s', H ⊆ hd s' → Turns.Holds hd Q H next s') → Turns.Holds hd Q H (.wait next) s

/-- None of the steps of `t`, resumed at `s` or after a wait anywhere, changes the held keys. -/
inductive Turns.Fixed (hd : σ → Set κ) : Turns σ α → σ → Prop
  | done {a : α} {s : σ} : Turns.Fixed hd (.done a) s
  | step {β : Type} {run : σ → β × σ} {next : β → Turns σ α} {s : σ} :
      hd (run s).2 = hd s → Turns.Fixed hd (next (run s).1) (run s).2 →
      Turns.Fixed hd (.step run next) s
  | wait {next : Turns σ α} {s : σ} : (∀ s', Turns.Fixed hd next s') → Turns.Fixed hd (.wait next) s

namespace Turns.Holds

variable {hd : σ → Set κ} {Q Q' : α → Set κ → Prop} {R : β → Set κ → Prop} {H : Set κ} {s : σ}

theorem mono {t : Turns σ α} (h : Turns.Holds hd Q H t s) (hQ : ∀ a H, Q a H → Q' a H) :
    Turns.Holds hd Q' H t s := by
  induction h with
  | done hq => exact .done (hQ _ _ hq)
  | step hsp _ ih => exact .step hsp ih
  | wait _ ih => exact .wait ih

/-- A sequence holds when its head does, from a credit within the held set, and the rest
holds from wherever the head finished, with the head's final credit. -/
theorem bind {t : Turns σ α} {f : α → Turns σ β} (h : Turns.Holds hd Q H t s) (hs : H ⊆ hd s)
    (hf : ∀ a H' s', Q a H' → H' ⊆ hd s' → Turns.Holds hd R H' (f a) s') :
    Turns.Holds hd R H (t >>= f) s := by
  induction h with
  | done hq => exact hf _ _ _ hq hs
  | step hsp _ ih => exact .step hsp (ih fun _ hk => hk.1)
  | wait _ ih => exact .wait fun s' hs' => ih s' hs' hs'

end Turns.Holds

theorem Turns.Fixed.bind {hd : σ → Set κ} {t : Turns σ α} {f : α → Turns σ β} {s : σ}
    (h : Turns.Fixed hd t s) (hf : ∀ a s', Turns.Fixed hd (f a) s') :
    Turns.Fixed hd (t >>= f) s := by
  induction h with
  | done => exact hf _ _
  | step heq _ ih => exact .step heq ih
  | wait _ ih => exact .wait ih

/-- A computation that never changes the held keys keeps its credit. -/
theorem Turns.Fixed.holds {hd : σ → Set κ} {t : Turns σ α} {H : Set κ} {s : σ}
    (h : Turns.Fixed hd t s) (hH : H ⊆ hd s) : Turns.Holds hd (fun _ H' => H' = H) H t s := by
  induction h with
  | done => exact .done rfl
  | step heq _ ih =>
    refine .step (fun k hk _ => heq ▸ hk) ?_
    rw [taken_of_held_eq heq hH]
    exact ih (heq ▸ hH)
  | wait _ ih => exact .wait fun s' hs' => ih s' hs'

/-! ## Tracked computations -/

/-- `t` with its credit kept beside the state; it reports its credit with its result. -/
def Turns.track (hd : σ → Set κ) : Turns σ α → Turns (σ × Set κ) (α × Set κ)
  | .done a => .step (fun p => ((a, p.2), p)) .done
  | .step run next =>
    .step (fun p => ((run p.1).1, ((run p.1).2, taken hd p.2 p.1 (run p.1).2)))
      fun b => Turns.track hd (next b)
  | .wait next => .wait (Turns.track hd next)

/-- How far a tracked computation got, with the credit it finished with. -/
def Turns.Progress.track (hd : σ → Set κ) (H : Set κ) :
    Turns.Progress σ α → Turns.Progress (σ × Set κ) (α × Set κ)
  | .waiting r => .waiting (Turns.track hd r)
  | .finished a => .finished (a, H)

/-- A tracked computation runs up to its next wait as the computation does, with some credit
beside the state. -/
theorem Turns.advance_track (hd : σ → Set κ) (t : Turns σ α) (s : σ) (H : Set κ) :
    ∃ H', (Turns.track hd t).advance (s, H) =
      (Turns.Progress.track hd H' (t.advance s).1, ((t.advance s).2, H')) := by
  induction t generalizing s H with
  | done a => exact ⟨H, rfl⟩
  | step run next ih => exact ih _ _ _
  | wait next => exact ⟨H, rfl⟩

/-- A computation that holds, tracked from a credit within the held set, moves its credit by
a move that spares others, finishes with `Q` of its result and its credit, and what remains
after its wait holds from there. -/
theorem Turns.Holds.advance_track {hd : σ → Set κ} {Q : α → Set κ → Prop} {H : Set κ} {s : σ}
    {t : Turns σ α} (h : Turns.Holds hd Q H t s) (hs : H ⊆ hd s) :
    ∃ H', Takes hd H s H' (t.advance s).2 ∧
      (Turns.track hd t).advance (s, H) =
        (Turns.Progress.track hd H' (t.advance s).1, ((t.advance s).2, H')) ∧
      (∀ a, (t.advance s).1 = .finished a → Q a H') ∧
      (∀ r, (t.advance s).1 = .waiting r → ∀ s', H' ⊆ hd s' → Turns.Holds hd Q H' r s') := by
  induction h with
  | done hq => exact ⟨_, .refl hs, rfl, fun _ ha => by cases ha; exact hq, fun _ hr => by cases hr⟩
  | step hsp _ ih =>
    obtain ⟨H', htakes, heq, hfin, hwait⟩ := ih fun _ hk => hk.1
    exact ⟨H', (Takes.taken hsp).trans htakes, heq, hfin, hwait⟩
  | wait hnext =>
    refine ⟨_, .refl hs, rfl, fun _ ha => ?_, fun _ hr => ?_⟩
    · simp only [Turns.advance_wait] at ha
      cases ha
    · simp only [Turns.advance_wait, Turns.Progress.waiting.injEq] at hr
      exact hr ▸ hnext

/-! ## Tracked switches -/

section Switch

variable {γ : Type}

/-- The switch of tracked computations: each computation's credit travels with its context. -/
def Switch.track (sw : Switch γ σ) : Switch (γ × Set κ) (σ × Set κ) :=
  ⟨fun g p => (sw.enter g.1 p.1, g.2), fun p => (sw.leave p.1, p.2)⟩

end Switch

end DataCatalog.Schedule
