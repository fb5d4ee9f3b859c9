import Mathlib
import DataCatalog.Proofs.Schedule.Moves
import DataCatalog.Schedule.Runtime
/-!
# What every run of a runtime keeps

A run of a runtime is any sequence of its steps, so a property of configurations holds all
along every run once it holds at the start and every step keeps it. The properties here are
`Turns.Keeps` and `Turns.Moves` lifted from one computation to all threads and tasks: if
every computation of a runtime keeps an invariant of the shared state, so does every run
(`Config.Keeps.runs`), and if every computation moves the state along a preorder, so does every
run (`Config.Moves.runs`). What a result forks counts among the computations: its tasks and its
join must keep or move the state too (`Runtime.Keeps`, `Runtime.Moves`).

Each step replaces one thread, or one task of a thread, and the lemmas say what a turn of a
thread and of a task can do (`Runtime.turn_cases`, `Runtime.taskTurn_cases`).
-/

namespace DataCatalog.Schedule

variable {γ σ α : Type}

/-! ## One member replaced -/

section Middle

universe u

variable {β : Type u}

/-- A property of every member of a list holds after one member is replaced by one that has it,
when the others keep it. -/
theorem forall_mem_middle {P P' : β → Prop} {l₁ l₂ : List β} {a b : β}
    (h : ∀ x ∈ l₁ ++ a :: l₂, P x) (hP : ∀ x, P x → P' x) (hb : P' b) :
    ∀ x ∈ l₁ ++ b :: l₂, P' x := by
  intro x hx
  rcases List.mem_append.1 hx with hx | hx
  · exact hP x (h x (List.mem_append_left _ hx))
  rcases List.mem_cons.1 hx with rfl | hx
  · exact hb
  · exact hP x (h x (List.mem_append_right _ (List.mem_cons_of_mem _ hx)))

theorem of_forall_mem_middle {P : β → Prop} {l₁ l₂ : List β} {a : β}
    (h : ∀ x ∈ l₁ ++ a :: l₂, P x) : P a :=
  h a (List.mem_append_right _ List.mem_cons_self)

end Middle

/-! ## Turns -/

namespace Runtime

variable (rt : Runtime γ σ α)

/-- A thread's turn waits again in the context it leaves, finishes, or finishes by forking. -/
theorem turn_cases (rest : Turns σ α) (g : γ) (s : σ) :
    (∃ r s', rest.advance (rt.switch.enter g s) = (.waiting r, s') ∧
      rt.turn rest g s = (.running r (rt.switch.leave s'), s')) ∨
    (∃ a s', rest.advance (rt.switch.enter g s) = (.finished a, s') ∧ rt.fork a = none ∧
      rt.turn rest g s = (.finished a, s')) ∨
    (∃ a s' f, rest.advance (rt.switch.enter g s) = (.finished a, s') ∧ rt.fork a = some f ∧
      rt.turn rest g s =
        (.joining (rt.switch.leave s') f.permits (f.tasks.map .pending) f.join, s')) := by
  rcases hadv : rest.advance (rt.switch.enter g s) with ⟨r | a, s'⟩
  · exact .inl ⟨r, s', rfl, by simp only [turn, hadv]⟩
  rcases hf : rt.fork a with _ | f
  · exact .inr (.inl ⟨a, s', rfl, hf, by simp only [turn, hadv, hf]⟩)
  · exact .inr (.inr ⟨a, s', f, rfl, hf, by simp only [turn, hadv, hf]⟩)

/-- A task's turn waits again in the context it leaves, or finishes. -/
theorem taskTurn_cases (rest : Turns σ α) (g : γ) (s : σ) :
    (∃ r s', rest.advance (rt.switch.enter g s) = (.waiting r, s') ∧
      rt.taskTurn rest g s = (.running r (rt.switch.leave s'), s')) ∨
    (∃ a s', rest.advance (rt.switch.enter g s) = (.finished a, s') ∧
      rt.taskTurn rest g s = (.finished a, s')) := by
  rcases hadv : rest.advance (rt.switch.enter g s) with ⟨r | a, s'⟩
  · exact .inl ⟨r, s', rfl, by simp only [taskTurn, hadv]⟩
  · exact .inr ⟨a, s', rfl, by simp only [taskTurn, hadv]⟩

end Runtime

/-! ## Invariants kept at every turn -/

section Keeps

variable {I : σ → Prop} {Q : α → Prop} {rt : Runtime γ σ α}

/-- The task keeps `I` at every turn it may still take; finished, it satisfies `Q`. -/
def Task.Keeps (I : σ → Prop) (Q : α → Prop) : Task γ σ α → Prop
  | .pending t => Turns.Keeps I Q t
  | .running rest _ => Turns.Keeps I Q rest
  | .finished a => Q a

/-- The thread keeps `I` at every turn it, its tasks or its join may still take; finished, it
satisfies `Q`. -/
def Thread.Keeps (I : σ → Prop) (Q : α → Prop) : Thread γ σ α → Prop
  | .running rest _ => Turns.Keeps I Q rest
  | .joining _ _ tasks join =>
    (∀ k ∈ tasks, k.Keeps I Q) ∧ ∀ as, (∀ a ∈ as, Q a) → Turns.Keeps I Q (join as)
  | .finished a => Q a

/-- A configuration whose state satisfies `I` and whose threads keep it. -/
structure Config.Keeps (I : σ → Prop) (Q : α → Prop) (c : Config γ σ α) : Prop where
  state : I c.state
  threads : ∀ th ∈ c.threads, th.Keeps I Q

/-- Entering a context keeps `I`, and a result satisfying `Q` forks tasks and a join that keep
`I`, the join from any results satisfying `Q`. -/
structure Runtime.Keeps (I : σ → Prop) (Q : α → Prop) (rt : Runtime γ σ α) : Prop where
  enter : ∀ g s, I s → I (rt.switch.enter g s)
  fork : ∀ a f, Q a → rt.fork a = some f →
    (∀ t ∈ f.tasks, Turns.Keeps I Q t) ∧ ∀ as, (∀ b ∈ as, Q b) → Turns.Keeps I Q (f.join as)

theorem Task.collect_keeps : ∀ {ks : List (Task γ σ α)} {as : List α},
    Task.collect ks = some as → (∀ k ∈ ks, k.Keeps I Q) → ∀ a ∈ as, Q a
  | [], _, h, _ => by
    cases h
    exact fun _ ha => absurd ha List.not_mem_nil
  | .finished b :: ks, as, h, hks => by
    obtain ⟨bs, hbs, rfl⟩ := Option.map_eq_some_iff.1 h
    intro a ha
    rcases List.mem_cons.1 ha with rfl | ha
    · exact hks _ List.mem_cons_self
    · exact Task.collect_keeps hbs (fun k hk => hks k (List.mem_cons_of_mem _ hk)) a ha
  | .pending _ :: _, _, h, _ => by cases h
  | .running .. :: _, _, h, _ => by cases h

theorem Runtime.Keeps.turn (hrt : rt.Keeps I Q) {rest : Turns σ α} {g : γ} {s : σ}
    (h : Turns.Keeps I Q rest) (hs : I s) :
    I (rt.turn rest g s).2 ∧ (rt.turn rest g s).1.Keeps I Q := by
  have hin := hrt.enter g s hs
  have hseg := h.state hin
  rcases rt.turn_cases rest g s with ⟨r, s', hadv, heq⟩ | ⟨a, s', hadv, -, heq⟩ |
      ⟨a, s', f, hadv, hf, heq⟩ <;> rw [hadv] at hseg <;> rw [heq]
  · exact ⟨hseg, h.rest hin (by rw [hadv])⟩
  · exact ⟨hseg, h.result hin (by rw [hadv])⟩
  · -- the forked tasks and the join keep `I`, as the fork of a result satisfying `Q` does
    obtain ⟨htasks, hjoin⟩ := hrt.fork a f (h.result hin (by rw [hadv])) hf
    refine ⟨hseg, fun k hk => ?_, hjoin⟩
    obtain ⟨t, ht, rfl⟩ := List.mem_map.1 hk
    exact htasks t ht

theorem Runtime.Keeps.taskTurn (hrt : rt.Keeps I Q) {rest : Turns σ α} {g : γ} {s : σ}
    (h : Turns.Keeps I Q rest) (hs : I s) :
    I (rt.taskTurn rest g s).2 ∧ (rt.taskTurn rest g s).1.Keeps I Q := by
  have hin := hrt.enter g s hs
  have hseg := h.state hin
  rcases rt.taskTurn_cases rest g s with ⟨r, s', hadv, heq⟩ | ⟨a, s', hadv, heq⟩ <;>
    rw [hadv] at hseg <;> rw [heq]
  · exact ⟨hseg, h.rest hin (by rw [hadv])⟩
  · exact ⟨hseg, h.result hin (by rw [hadv])⟩

/-- Every step of a runtime that keeps `I` keeps a configuration that keeps `I`. -/
theorem Config.Keeps.step (hrt : rt.Keeps I Q) {c c' : Config γ σ α} (h : rt.Step c c')
    (hc : c.Keeps I Q) : c'.Keeps I Q := by
  obtain ⟨hs, hts⟩ := hc
  cases h with
  | serve =>
    dsimp only at hs hts
    have hth := of_forall_mem_middle hts
    obtain ⟨hs', hnew⟩ := hrt.turn hth hs
    exact ⟨hs', forall_mem_middle hts (fun _ h => h) hnew⟩
  | start _ =>
    dsimp only at hs hts
    obtain ⟨hks, hj⟩ := of_forall_mem_middle hts
    have hk := of_forall_mem_middle hks
    exact ⟨hs, forall_mem_middle hts (fun _ h => h) ⟨forall_mem_middle hks (fun _ h => h) hk, hj⟩⟩
  | serveTask =>
    dsimp only at hs hts
    obtain ⟨hks, hj⟩ := of_forall_mem_middle hts
    have hk := of_forall_mem_middle hks
    obtain ⟨hs', hnew⟩ := hrt.taskTurn hk hs
    exact ⟨hs', forall_mem_middle hts (fun _ h => h) ⟨forall_mem_middle hks (fun _ h => h) hnew, hj⟩⟩
  | join hcol =>
    dsimp only at hs hts
    obtain ⟨hks, hj⟩ := of_forall_mem_middle hts
    exact ⟨hs, forall_mem_middle hts (fun _ h => h) (hj _ (Task.collect_keeps hcol hks))⟩

/-- Every run of a runtime that keeps `I` keeps a configuration that keeps `I`. -/
theorem Config.Keeps.runs (hrt : rt.Keeps I Q) {c c' : Config γ σ α} (h : rt.Runs c c')
    (hc : c.Keeps I Q) : c'.Keeps I Q := by
  induction h with
  | refl => exact hc
  | tail _ hstep ih => exact ih.step hrt hstep

theorem Config.keeps_launch {ts : List (Turns σ α)} (hts : ∀ t ∈ ts, Turns.Keeps I Q t)
    (g : γ) {s : σ} (hs : I s) : (Config.launch ts g s).Keeps I Q := by
  refine ⟨hs, fun th hth => ?_⟩
  obtain ⟨t, ht, rfl⟩ := List.mem_map.1 hth
  exact hts t ht

end Keeps

/-! ## Moving along a relation -/

section Moves

variable {G : σ → σ → Prop} [IsPreorder σ G] {Q : α → Prop} {rt : Runtime γ σ α} {s₀ : σ}

/-- The task moves along `G`, from any state the others reached from `cur`, at every turn it
may still take, in the context its parent `parent` gives it or its own; finished, it satisfies
`Q`. -/
def Task.Moves (G : σ → σ → Prop) (Q : α → Prop) (rt : Runtime γ σ α) (parent : γ) (cur : σ) :
    Task γ σ α → Prop
  | .pending t => ∀ s, G cur s →
      Turns.Moves G (fun a _ => Q a) t (rt.switch.enter (rt.spawn parent) s)
  | .running rest g => ∀ s, G cur s → Turns.Moves G (fun a _ => Q a) rest (rt.switch.enter g s)
  | .finished a => Q a

/-- The thread, its tasks and its join move along `G` from any state the others reached from
`cur`; finished, the thread satisfies `Q`. -/
def Thread.Moves (G : σ → σ → Prop) (Q : α → Prop) (rt : Runtime γ σ α) (cur : σ) :
    Thread γ σ α → Prop
  | .running rest g => ∀ s, G cur s → Turns.Moves G (fun a _ => Q a) rest (rt.switch.enter g s)
  | .joining g _ tasks join => (∀ k ∈ tasks, k.Moves G Q rt g cur) ∧
    ∀ as s, (∀ a ∈ as, Q a) → G cur s →
      Turns.Moves G (fun a _ => Q a) (join as) (rt.switch.enter g s)
  | .finished a => Q a

/-- A configuration reached from `s₀` along `G`, whose threads move along `G` from its state. -/
structure Config.Moves (G : σ → σ → Prop) (Q : α → Prop) (rt : Runtime γ σ α) (s₀ : σ)
    (c : Config γ σ α) : Prop where
  state : G s₀ c.state
  threads : ∀ th ∈ c.threads, th.Moves G Q rt c.state

/-- Entering a context is a `G`-step, and a result satisfying `Q` forks tasks and a join that
move along `G` from every state reached from `s₀`, the join with any results satisfying `Q`. -/
structure Runtime.Moves (G : σ → σ → Prop) (Q : α → Prop) (rt : Runtime γ σ α) (s₀ : σ) :
    Prop where
  enter : ∀ g s, G s (rt.switch.enter g s)
  fork : ∀ a f s, Q a → rt.fork a = some f → G s₀ s →
    (∀ t ∈ f.tasks, Turns.Moves G (fun a _ => Q a) t s) ∧
    ∀ as, (∀ b ∈ as, Q b) → Turns.Moves G (fun a _ => Q a) (f.join as) s

theorem Task.Moves.mono {k : Task γ σ α} {g : γ} {s s' : σ} (h : k.Moves G Q rt g s)
    (hs : G s s') : k.Moves G Q rt g s' := by
  cases k with
  | pending t => exact fun s'' hs'' => h s'' (trans_of G hs hs'')
  | running rest c => exact fun s'' hs'' => h s'' (trans_of G hs hs'')
  | finished a => exact h

theorem Thread.Moves.mono {th : Thread γ σ α} {s s' : σ} (h : th.Moves G Q rt s)
    (hs : G s s') : th.Moves G Q rt s' := by
  cases th with
  | running rest g => exact fun s'' hs'' => h s'' (trans_of G hs hs'')
  | joining g n ks j =>
    exact ⟨fun k hk => (h.1 k hk).mono hs, fun as s'' has hs'' => h.2 as s'' has (trans_of G hs hs'')⟩
  | finished a => exact h

omit [IsPreorder σ G] in
theorem Task.collect_moves {g : γ} {s : σ} : ∀ {ks : List (Task γ σ α)} {as : List α},
    Task.collect ks = some as → (∀ k ∈ ks, k.Moves G Q rt g s) → ∀ a ∈ as, Q a
  | [], _, h, _ => by
    cases h
    exact fun _ ha => absurd ha List.not_mem_nil
  | .finished b :: ks, as, h, hks => by
    obtain ⟨bs, hbs, rfl⟩ := Option.map_eq_some_iff.1 h
    intro a ha
    rcases List.mem_cons.1 ha with rfl | ha
    · exact hks _ List.mem_cons_self
    · exact Task.collect_moves hbs (fun k hk => hks k (List.mem_cons_of_mem _ hk)) a ha
  | .pending _ :: _, _, h, _ => by cases h
  | .running .. :: _, _, h, _ => by cases h

theorem Runtime.Moves.turn (hrt : rt.Moves G Q s₀) {rest : Turns σ α} {g : γ} {s : σ}
    (h : ∀ s', G s s' → Turns.Moves G (fun a _ => Q a) rest (rt.switch.enter g s'))
    (hs : G s₀ s) :
    G s (rt.turn rest g s).2 ∧ (rt.turn rest g s).1.Moves G Q rt (rt.turn rest g s).2 := by
  have hm := h s (refl_of G s)
  have hseg : G s (rest.advance (rt.switch.enter g s)).2 := by
    cases hm with
    | intro moves _ _ => exact trans_of G (hrt.enter g s) moves
  rcases rt.turn_cases rest g s with ⟨r, s', hadv, heq⟩ | ⟨a, s', hadv, -, heq⟩ |
      ⟨a, s', f, hadv, hf, heq⟩ <;> rw [hadv] at hseg <;> rw [heq]
  · exact ⟨hseg, queued_rest hrt.enter hm hadv⟩
  · have ha : Q a := by
      cases hm with
      | intro _ result _ => simpa [hadv] using result a (by rw [hadv])
    exact ⟨hseg, ha⟩
  · -- the forked tasks and the join move from every state the others reach after the fork
    have ha : Q a := by
      cases hm with
      | intro _ result _ => simpa [hadv] using result a (by rw [hadv])
    have hafter : ∀ g' s'', G s' s'' → G s₀ (rt.switch.enter g' s'') := fun g' s'' hs'' =>
      trans_of G (trans_of G hs hseg) (trans_of G hs'' (hrt.enter g' s''))
    refine ⟨hseg, fun k hk => ?_, fun as s'' has hs'' =>
      (hrt.fork a f _ ha hf (hafter _ s'' hs'')).2 as has⟩
    obtain ⟨t, ht, rfl⟩ := List.mem_map.1 hk
    exact fun s'' hs'' => (hrt.fork a f _ ha hf (hafter _ s'' hs'')).1 t ht

theorem Runtime.Moves.taskTurn (hrt : rt.Moves G Q s₀) {rest : Turns σ α} {g : γ} {s : σ}
    (h : ∀ s', G s s' → Turns.Moves G (fun a _ => Q a) rest (rt.switch.enter g s')) :
    G s (rt.taskTurn rest g s).2 ∧ ∀ parent : γ,
      (rt.taskTurn rest g s).1.Moves G Q rt parent (rt.taskTurn rest g s).2 := by
  have hm := h s (refl_of G s)
  have hseg : G s (rest.advance (rt.switch.enter g s)).2 := by
    cases hm with
    | intro moves _ _ => exact trans_of G (hrt.enter g s) moves
  rcases rt.taskTurn_cases rest g s with ⟨r, s', hadv, heq⟩ | ⟨a, s', hadv, heq⟩ <;>
    rw [hadv] at hseg <;> rw [heq]
  · exact ⟨hseg, fun _ => queued_rest hrt.enter hm hadv⟩
  · have ha : Q a := by
      cases hm with
      | intro _ result _ => simpa [hadv] using result a (by rw [hadv])
    exact ⟨hseg, fun _ => ha⟩

/-- Every step of a runtime that moves along `G` keeps a configuration reached from `s₀` whose
threads move along `G`. -/
theorem Config.Moves.step (hrt : rt.Moves G Q s₀) {c c' : Config γ σ α} (h : rt.Step c c')
    (hc : c.Moves G Q rt s₀) : c'.Moves G Q rt s₀ := by
  obtain ⟨hs, hts⟩ := hc
  cases h with
  | serve =>
    dsimp only at hs hts
    have hth := of_forall_mem_middle hts
    obtain ⟨hseg, hnew⟩ := hrt.turn hth hs
    exact ⟨trans_of G hs hseg, forall_mem_middle hts (fun _ h => h.mono hseg) hnew⟩
  | start _ =>
    dsimp only at hs hts
    obtain ⟨hks, hj⟩ := of_forall_mem_middle hts
    have hk := of_forall_mem_middle hks
    exact ⟨hs, forall_mem_middle hts (fun _ h => h) ⟨forall_mem_middle hks (fun _ h => h) hk, hj⟩⟩
  | serveTask =>
    dsimp only at hs hts
    obtain ⟨hks, hj⟩ := of_forall_mem_middle hts
    -- the task's turn moves the state; its siblings and its parent's join resume after it
    have hk := of_forall_mem_middle hks
    obtain ⟨hseg, hnew⟩ := hrt.taskTurn hk
    exact ⟨trans_of G hs hseg, forall_mem_middle hts (fun _ h => h.mono hseg)
      ⟨forall_mem_middle hks (fun _ h => h.mono hseg) (hnew _), fun as s' has hs' =>
        hj as s' has (trans_of G hseg hs')⟩⟩
  | join hcol =>
    dsimp only at hs hts
    obtain ⟨hks, hj⟩ := of_forall_mem_middle hts
    exact ⟨hs, forall_mem_middle hts (fun _ h => h)
      (fun s' hs' => hj _ s' (Task.collect_moves hcol hks) hs')⟩

/-- Every run of a runtime that moves along `G` keeps a configuration reached from `s₀` whose
threads move along `G`. -/
theorem Config.Moves.runs (hrt : rt.Moves G Q s₀) {c c' : Config γ σ α} (h : rt.Runs c c')
    (hc : c.Moves G Q rt s₀) : c'.Moves G Q rt s₀ := by
  induction h with
  | refl => exact hc
  | tail _ hstep ih => exact ih.step hrt hstep

theorem Config.moves_launch {ts : List (Turns σ α)} {g : γ}
    (hts : ∀ t ∈ ts, ∀ s, G s₀ s → Turns.Moves G (fun a _ => Q a) t (rt.switch.enter g s)) :
    (Config.launch ts g s₀).Moves G Q rt s₀ := by
  refine ⟨refl_of G s₀, fun th hth => ?_⟩
  obtain ⟨t, ht, rfl⟩ := List.mem_map.1 hth
  exact hts t ht

end Moves

end DataCatalog.Schedule
