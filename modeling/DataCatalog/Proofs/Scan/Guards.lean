import Mathlib
import DataCatalog.Proofs.Schedule.Locks
import DataCatalog.Scan.Pass
/-!
# Subtree guards taken and given back

A scan is credited with the subtree guards it took and has not dropped. The guards of a world
are the keys its held list names exactly once (`World.guards`): taking a guard adds a key the
list lacks and dropping one erases one occurrence, so a key a scan takes is a guard until that
scan drops it.

`Step.Holds Q H x` says that the step `x`, resumed anywhere credited with held guards `H`,
drops no guard of others at any of its steps and finishes with `Q` of its outcome and its
credit; `Pass.Holds` says so of a pass from any counts. Most of a scan never touches the guards
(`Step.Fixed`). The steps that do are `acquire`, `releaseGuard` and what is built from them:
`guarded`, `acquireFor`, `reconcileGuarded` and `retireNamespace` each give back by the time
they return every guard they took (`Step.GivesBack`), and run their body credited with its
key. A fatal error stands for a panic: the call does not return, and nothing is said of the
guards it leaves.
-/

namespace DataCatalog.Scan

open DataCatalog.Schedule DataCatalog.Catalog DataCatalog.Connect DataCatalog.Storage

/-- The guards a world holds: the keys its held list names exactly once. -/
def World.guards (w : World) : Set SubtreeKey := {k | w.held.count k = 1}

@[simp] theorem World.mem_guards {w : World} {k : SubtreeKey} :
    k ∈ w.guards ↔ w.held.count k = 1 := Iff.rfl

/-- The outcome of a call that returned: a result, or an error that does not end the run. -/
def Returned {α : Type} (r : Except ScanError α) : Prop := ∀ e, r = .error e → e.fatal = false

theorem Returned.ok {α : Type} (a : α) : Returned (.ok a : Except ScanError α) :=
  fun _ h => by cases h

theorem returned_error {α : Type} {e : ScanError} :
    Returned (.error e : Except ScanError α) ↔ e.fatal = false :=
  ⟨fun h => h e rfl, fun h _ he => by cases he; exact h⟩

/-- What an attempt at a step or pass with post `Q` returns: an outcome of it that was no fatal
error, with its post; a failure the attempt passes on is fatal. -/
def Attempted {α : Type} (Q : Except ScanError α → Set SubtreeKey → Prop)
    (r : Except ScanError (Except ScanError α)) (H' : Set SubtreeKey) : Prop :=
  (∀ x, r = .ok x → Returned x ∧ Q x H') ∧ ∀ e, r = .error e → e.fatal = true ∧ Q (.error e) H'

variable {α β : Type}

/-- The step `x`, resumed anywhere credited with held guards `H`, drops no guard of others at
any of its steps and finishes with `Q` of its outcome and its credit. -/
def Step.Holds (Q : Except ScanError α → Set SubtreeKey → Prop) (H : Set SubtreeKey)
    (x : Step α) : Prop :=
  ∀ w : World, H ⊆ w.guards → Turns.Holds World.guards Q H (ExceptT.run x) w

/-- No step of `x` changes the guards. -/
def Step.Fixed (x : Step α) : Prop := ∀ w : World, Turns.Fixed World.guards (ExceptT.run x) w

/-- The step `x`, credited with `H`, gives back every guard it takes by the time it returns. -/
def Step.GivesBack (H : Set SubtreeKey) (x : Step α) : Prop :=
  x.Holds (fun r H' => Returned r → H' = H) H

/-- The pass `p`, started from any counts, does what `Step.Holds` says of a step. -/
def Pass.Holds (Q : Except ScanError α → Set SubtreeKey → Prop) (H : Set SubtreeKey)
    (p : Pass α) : Prop :=
  ∀ (counts : ScanCounts) (w : World), H ⊆ w.guards →
    Turns.Holds World.guards (fun r H' => Q r.1 H') H ((ExceptT.run p).run counts) w

/-- The pass `p`, credited with `H`, gives back every guard it takes by the time it returns. -/
def Pass.GivesBack (H : Set SubtreeKey) (p : Pass α) : Prop :=
  p.Holds (fun r H' => Returned r → H' = H) H

variable {Q Q' : Except ScanError α → Set SubtreeKey → Prop}
  {R : Except ScanError β → Set SubtreeKey → Prop} {H : Set SubtreeKey}

namespace Step.Fixed

theorem pure {a : α} : (Pure.pure a : Step α).Fixed := fun _ => .done

theorem throw {e : ScanError} : (MonadExcept.throw e : Step α).Fixed := fun _ => .done

theorem bind {x : Step α} {f : α → Step β} (h : x.Fixed) (hf : ∀ a, (f a).Fixed) :
    (x >>= f).Fixed := by
  intro w
  refine Turns.Fixed.bind (f := ExceptT.bindCont f) (h w) fun r w' => ?_
  cases r with
  | error e => exact .done
  | ok a => exact hf a w'

theorem map {x : Step α} {f : α → β} (h : x.Fixed) : (f <$> x).Fixed := by
  intro w
  refine Turns.Fixed.bind (h w) fun r _ => ?_
  cases r <;> exact .done

theorem tryCatch {body : Step α} {handler : ScanError → Step α} (h : body.Fixed)
    (hh : ∀ e, (handler e).Fixed) : (MonadExcept.tryCatch body handler).Fixed := by
  intro w
  refine Turns.Fixed.bind (h w) fun r w' => ?_
  cases r with
  | error e => exact hh e w'
  | ok a => exact .done

theorem attempt {body : Step α} (h : body.Fixed) : (Step.attempt body).Fixed := by
  refine tryCatch (map h) fun e => ?_
  split
  · exact throw
  · exact pure

theorem ofExcept {r : Except ScanError α} : (Step.ofExcept r).Fixed := by
  cases r with
  | error e => exact throw
  | ok a => exact pure

/-- A change of the world that keeps its held list. -/
theorem update {f : World → World} (hf : ∀ w, (f w).held = w.held) : (modify f : Step Unit).Fixed :=
  fun w => .step (by simp only [World.guards, hf]) .done

theorem forM {l : List β} {f : β → Step PUnit} (h : ∀ x ∈ l, (f x).Fixed) : (l.forM f).Fixed := by
  induction l with
  | nil => exact pure
  | cons x rest ih =>
    exact bind (h x List.mem_cons_self) fun _ => ih fun y hy => h y (List.mem_cons_of_mem _ hy)

end Step.Fixed

namespace Step.Holds

theorem mono {x : Step α} (h : x.Holds Q H) (hQ : ∀ r H', Q r H' → Q' r H') : x.Holds Q' H :=
  fun w hw => (h w hw).mono hQ

theorem pure {a : α} (h : Q (.ok a) H) : (Pure.pure a : Step α).Holds Q H := fun _ _ => .done h

theorem throw {e : ScanError} (h : Q (.error e) H) : (MonadExcept.throw e : Step α).Holds Q H :=
  fun _ _ => .done h

/-- A step that never touches the guards keeps its credit. -/
theorem of_fixed {x : Step α} (h : x.Fixed) (hQ : ∀ r, Q r H) : x.Holds Q H :=
  fun w hw => ((h w).holds hw).mono fun r _ hH => hH ▸ hQ r

theorem bind {x : Step α} {f : α → Step β} (h : x.Holds Q H)
    (hf : ∀ a H', Q (.ok a) H' → (f a).Holds R H') (he : ∀ e H', Q (.error e) H' → R (.error e) H') :
    (x >>= f).Holds R H := by
  intro w hw
  refine Turns.Holds.bind (f := ExceptT.bindCont f) (h w hw) hw fun r H' w' hr hw' => ?_
  cases r with
  | error e => exact .done (he e H' hr)
  | ok a => exact hf a H' hr w' hw'

theorem map {x : Step α} {f : α → β} (h : x.Holds Q H)
    (hok : ∀ a H', Q (.ok a) H' → R (.ok (f a)) H') (he : ∀ e H', Q (.error e) H' → R (.error e) H') :
    (f <$> x).Holds R H := by
  intro w hw
  refine Turns.Holds.bind (h w hw) hw fun r H' _ hr _ => ?_
  cases r with
  | error e => exact .done (he e H' hr)
  | ok a => exact .done (hok a H' hr)

theorem tryCatch {body : Step α} {handler : ScanError → Step α} (h : body.Holds Q H)
    (hok : ∀ a H', Q (.ok a) H' → Q' (.ok a) H') (hh : ∀ e H', Q (.error e) H' → (handler e).Holds Q' H') :
    (MonadExcept.tryCatch body handler).Holds Q' H := by
  intro w hw
  refine Turns.Holds.bind (h w hw) hw fun r H' w' hr hw' => ?_
  cases r with
  | error e => exact hh e H' hr w' hw'
  | ok a => exact .done (hok a H' hr)

theorem attempt {body : Step α} (h : body.Holds Q H) : (Step.attempt body).Holds (Attempted Q) H := by
  refine tryCatch (Q := fun r H' => (∀ x, r = .ok x → (∃ a, x = .ok a) ∧ Q x H') ∧
      ∀ e, r = .error e → Q (.error e) H')
    (map h (fun a _ hq => ⟨fun _ hx => by cases hx; exact ⟨⟨a, rfl⟩, hq⟩, fun _ he => by cases he⟩)
      fun e _ hq => ⟨fun _ hx => (by cases hx), fun _ he => by cases he; exact hq⟩)
    (fun x _ hq => ?_) fun e _ hq => ?_
  · obtain ⟨⟨a, rfl⟩, hx⟩ := hq.1 x rfl
    exact ⟨fun _ hy => by cases hy; exact ⟨Returned.ok a, hx⟩, fun _ he => by cases he⟩
  · have he := hq.2 e rfl
    split
    · exact throw ⟨fun _ hx => (by cases hx), fun _ he' => by cases he'; exact ⟨by assumption, he⟩⟩
    · rename_i hfatal
      refine pure ⟨fun _ hx => ?_, fun _ he' => by cases he'⟩
      cases hx
      exact ⟨returned_error.2 (by simpa using hfatal), he⟩

/-- Reading the world: what follows may rely on the world it read being the current one. -/
theorem get_bind {f : World → Step α}
    (h : ∀ w, H ⊆ w.guards → Turns.Holds World.guards Q H (ExceptT.run (f w)) w) :
    (MonadState.get >>= f : Step α).Holds Q H := by
  intro w hw
  refine .step (fun _ h _ => h) ?_
  rw [taken_of_held_eq rfl hw]
  exact h w hw

end Step.Holds

namespace Step.GivesBack

theorem of_fixed {x : Step α} (h : x.Fixed) : x.GivesBack H :=
  Step.Holds.of_fixed h fun _ _ => rfl

theorem bind {x : Step α} {f : α → Step β} (h : x.GivesBack H) (hf : ∀ a, (f a).GivesBack H) :
    (x >>= f).GivesBack H :=
  Step.Holds.bind h (fun a _ hH => hH (Returned.ok a) ▸ hf a) fun _ _ hH hr =>
    hH (returned_error.2 (returned_error.1 hr))

/-- A step that gives back its guards, run after one that keeps them. -/
theorem fixed_bind {x : Step α} {f : α → Step β} (h : x.Fixed) (hf : ∀ a, (f a).GivesBack H) :
    (x >>= f).GivesBack H :=
  bind (of_fixed h) hf

/-- An attempt gives back what its body does: a failure it passes on is fatal. -/
theorem attempt {body : Step α} (h : body.GivesBack H) : (Step.attempt body).GivesBack H := by
  refine (Step.Holds.attempt h).mono fun r H' hr hret => ?_
  cases r with
  | ok x => exact (hr.1 x rfl).2 (hr.1 x rfl).1
  | error e => exact absurd (returned_error.1 hret) (by simp [(hr.2 e rfl).1])

end Step.GivesBack

namespace Pass.Holds

theorem mono {p : Pass α} (h : p.Holds Q H) (hQ : ∀ r H', Q r H' → Q' r H') : p.Holds Q' H :=
  fun counts w hw => (h counts w hw).mono fun r H' => hQ r.1 H'

theorem pure {a : α} (h : Q (.ok a) H) : (Pure.pure a : Pass α).Holds Q H := fun _ _ _ => .done h

theorem throw {e : ScanError} (h : Q (.error e) H) : (MonadExcept.throw e : Pass α).Holds Q H :=
  fun _ _ _ => .done h

theorem bind {x : Pass α} {f : α → Pass β} (h : x.Holds Q H)
    (hf : ∀ a H', Q (.ok a) H' → (f a).Holds R H') (he : ∀ e H', Q (.error e) H' → R (.error e) H') :
    (x >>= f).Holds R H := by
  intro counts w hw
  refine Turns.Holds.bind (f := fun p => (ExceptT.bindCont f p.1).run p.2) (h counts w hw) hw
    fun ⟨r, c⟩ H' w' hr hw' => ?_
  cases r with
  | error e => exact .done (he e H' hr)
  | ok a => exact hf a H' hr c w' hw'

theorem map {x : Pass α} {f : α → β} (h : x.Holds Q H)
    (hok : ∀ a H', Q (.ok a) H' → R (.ok (f a)) H') (he : ∀ e H', Q (.error e) H' → R (.error e) H') :
    (f <$> x).Holds R H := by
  intro counts w hw
  refine Turns.Holds.bind (h counts w hw) hw fun ⟨r, _⟩ H' _ hr _ => ?_
  cases r with
  | error e => exact .done (he e H' hr)
  | ok a => exact .done (hok a H' hr)

theorem tryCatch {body : Pass α} {handler : ScanError → Pass α} (h : body.Holds Q H)
    (hok : ∀ a H', Q (.ok a) H' → Q' (.ok a) H') (hh : ∀ e H', Q (.error e) H' → (handler e).Holds Q' H') :
    (MonadExcept.tryCatch body handler).Holds Q' H := by
  intro counts w hw
  refine Turns.Holds.bind (h counts w hw) hw fun ⟨r, c⟩ H' w' hr hw' => ?_
  cases r with
  | error e => exact hh e H' hr c w' hw'
  | ok a => exact .done (hok a H' hr)

/-- A scan step inside a pass. -/
theorem lift {s : Step α} (h : s.Holds Q H) : (Pass.lift s).Holds Q H :=
  fun _ w hw => Turns.Holds.bind (h w hw) hw fun _ _ _ hr _ => .done hr

theorem tally {f : ScanCounts → ScanCounts} {P : Except ScanError Unit → Set SubtreeKey → Prop}
    (h : P (.ok ()) H) : (Pass.tally f).Holds P H :=
  fun _ _ _ => .done h

theorem attempt {body : Pass α} (h : body.Holds Q H) : (Pass.attempt body).Holds (Attempted Q) H := by
  refine tryCatch (Q := fun r H' => (∀ x, r = .ok x → (∃ a, x = .ok a) ∧ Q x H') ∧
      ∀ e, r = .error e → Q (.error e) H')
    (map h (fun a _ hq => ⟨fun _ hx => by cases hx; exact ⟨⟨a, rfl⟩, hq⟩, fun _ he => by cases he⟩)
      fun e _ hq => ⟨fun _ hx => (by cases hx), fun _ he => by cases he; exact hq⟩)
    (fun x _ hq => ?_) fun e _ hq => ?_
  · obtain ⟨⟨a, rfl⟩, hx⟩ := hq.1 x rfl
    exact ⟨fun _ hy => by cases hy; exact ⟨Returned.ok a, hx⟩, fun _ he => by cases he⟩
  · have he := hq.2 e rfl
    split
    · exact throw ⟨fun _ hx => (by cases hx), fun _ he' => by cases he'; exact ⟨by assumption, he⟩⟩
    · rename_i hfatal
      refine pure ⟨fun _ hx => ?_, fun _ he' => by cases he'⟩
      cases hx
      exact ⟨returned_error.2 (by simpa using hfatal), he⟩

/-- Reading the world inside a pass: what follows may rely on the world it read being the
current one. -/
theorem getWorld_bind {f : World → Pass α}
    (h : ∀ counts w, H ⊆ w.guards →
      Turns.Holds World.guards (fun r H' => Q r.1 H') H ((ExceptT.run (f w)).run counts) w) :
    (getThe World >>= f : Pass α).Holds Q H := by
  intro counts w hw
  refine .step (fun _ h _ => h) ?_
  rw [taken_of_held_eq rfl hw]
  exact h counts w hw

end Pass.Holds

namespace Pass.GivesBack

theorem pure {a : α} : (Pure.pure a : Pass α).GivesBack H := Pass.Holds.pure fun _ => rfl

theorem throw {e : ScanError} : (MonadExcept.throw e : Pass α).GivesBack H :=
  Pass.Holds.throw fun _ => rfl

theorem bind {x : Pass α} {f : α → Pass β} (h : x.GivesBack H) (hf : ∀ a, (f a).GivesBack H) :
    (x >>= f).GivesBack H :=
  Pass.Holds.bind h (fun a _ hH => hH (Returned.ok a) ▸ hf a) fun _ _ hH hr =>
    hH (returned_error.2 (returned_error.1 hr))

theorem lift {s : Step α} (h : s.GivesBack H) : (Pass.lift s).GivesBack H := Pass.Holds.lift h

theorem lift_fixed {s : Step α} (h : s.Fixed) : (Pass.lift s).GivesBack H :=
  lift (Step.GivesBack.of_fixed h)

theorem tally {f : ScanCounts → ScanCounts} : (Pass.tally f).GivesBack H :=
  Pass.Holds.tally fun _ => rfl

theorem skip : Pass.skip.GivesBack H := tally

theorem ofExcept {r : Except ScanError α} : (Pass.ofExcept r).GivesBack H := by
  cases r with
  | error e => exact throw
  | ok a => exact pure

/-- An attempt gives back what its body does: a failure it passes on is fatal. -/
theorem attempt {body : Pass α} (h : body.GivesBack H) : (Pass.attempt body).GivesBack H := by
  refine (Pass.Holds.attempt h).mono fun r H' hr hret => ?_
  cases r with
  | ok x => exact (hr.1 x rfl).2 (hr.1 x rfl).1
  | error e => exact absurd (returned_error.1 hret) (by simp [(hr.2 e rfl).1])

/-- A pass run from zero counts, with its failure folded into its outcome unless it is fatal. -/
theorem run {p : Pass Unit} (h : p.GivesBack H) : (Pass.run p).GivesBack H := by
  intro w hw
  refine Turns.Holds.bind (h {} w hw) hw fun ⟨r, c⟩ H' _ hr _ => .done fun hret => ?_
  cases r with
  | ok a => exact hr (Returned.ok a)
  | error e =>
    cases hfatal : e.fatal
    · exact hr (returned_error.2 hfatal)
    · simp [hfatal, returned_error] at hret

end Pass.GivesBack

/-! ## Steps that never touch the guards -/

theorem get_fixed : (MonadState.get : Step World).Fixed := fun _ => .step rfl .done

theorem awaitCatalog_fixed (n : Nat) : (awaitCatalog n).Fixed := by
  induction n with
  | zero => exact Step.Fixed.pure
  | succ n ih => exact Step.Fixed.bind (fun _ => .wait fun _ => .done) fun _ => ih

/-- Every catalog call keeps the guards: it changes only the catalog. -/
theorem inCatalogSpan_fixed {ahead behind : Nat} {op : Store α} :
    (inCatalogSpan ahead behind op).Fixed := by
  refine Step.Fixed.bind (awaitCatalog_fixed _) fun _ => Step.Fixed.bind ?_ fun _ =>
    Step.Fixed.bind (awaitCatalog_fixed _) fun _ => Step.Fixed.pure
  intro w
  refine .step rfl ?_
  rcases hop : op w.catalog with e | ⟨a, c⟩ <;> simp only [StateT.run, Turns.done_bind, hop]
  · exact .done
  · exact .step rfl .done

theorem inCatalog_fixed {op : Store α} : (inCatalog op).Fixed := inCatalogSpan_fixed

theorem readCatalog_fixed {f : Tables → α} : (readCatalog f).Fixed := inCatalog_fixed

theorem writeNode_fixed {i : NodeInput} : (writeNode i).Fixed := inCatalogSpan_fixed

theorem writeItem_fixed {i : ItemInput} : (writeItem i).Fixed := inCatalogSpan_fixed

theorem clearNode_fixed {t : Ident.TenantId} {id : Ident.NodeId} : (clearNode t id).Fixed :=
  inCatalogSpan_fixed

theorem retireCatalogNode_fixed {t : Ident.TenantId} {id : Ident.NodeId} :
    (retireCatalogNode t id).Fixed :=
  inCatalogSpan_fixed

theorem writeResource_fixed {i : ResourceInput} : (writeResource i).Fixed := inCatalogSpan_fixed

theorem openRun_fixed {t : Ident.TenantId} {e : Option Ident.ExternalId} {m : ScanMode}
    {ts : List String} : (openRun t e m ts).Fixed :=
  inCatalogSpan_fixed

theorem endRun_fixed {t : Ident.TenantId} {id : Ident.RunId} {st : RunStatus} {m : Option String}
    {n : ScanCounts} : (endRun t id st m n).Fixed :=
  inCatalogSpan_fixed

theorem tryRelational_fixed {call : Source.RelationalCall α} : (tryRelational call).Fixed :=
  fun _ => .step rfl (.step rfl .done)

theorem inRelational_fixed {call : Source.RelationalCall α} : (inRelational call).Fixed :=
  Step.Fixed.bind tryRelational_fixed fun _ => Step.Fixed.ofExcept

theorem tryObjects_fixed {call : Storage.ConnectorCall α} : (tryObjects call).Fixed :=
  fun _ => .step rfl (.step rfl .done)

theorem inObjects_fixed {call : Storage.ConnectorCall α} : (inObjects call).Fixed :=
  Step.Fixed.bind tryObjects_fixed fun _ => Step.Fixed.ofExcept

theorem connect_fixed {d : Connect.Descriptor} : (connect d).Fixed := by
  unfold connect
  refine Step.Fixed.bind (Step.Fixed.update fun _ => rfl) fun _ => ?_
  refine Step.Fixed.bind get_fixed fun w => ?_
  dsimp only
  split
  on_goal 1 => refine Step.Fixed.bind Step.Fixed.throw fun _ => ?_
  -- the checks of the descriptor read nothing of the world; opening a connector keeps the guards
  all_goals
    split
    · exact Step.Fixed.bind Step.Fixed.ofExcept fun _ => Step.Fixed.pure
    · exact Step.Fixed.bind Step.Fixed.ofExcept fun _ =>
        Step.Fixed.bind (Step.Fixed.update fun _ => rfl) fun _ => Step.Fixed.pure

theorem close_fixed {conn : Connection} : conn.close.Fixed := by
  cases conn with
  | relational k => exact Step.Fixed.update fun _ => rfl
  | objectStorage => exact Step.Fixed.pure

/-! ## Taking and dropping a guard -/

section Guard

variable {w : World} {k : SubtreeKey}

theorem count_eq_zero_of_free (hk : isHeld w.held k = false) : w.held.count k = 0 :=
  List.count_eq_zero.2 (by simpa [isHeld] using hk)

theorem not_mem_guards_of_free (hk : isHeld w.held k = false) : k ∉ w.guards := by
  simp [count_eq_zero_of_free hk]

/-- Taking a free key makes it a guard and keeps the others. -/
theorem guards_take (hk : isHeld w.held k = false) :
    ({ w with held := w.held ++ [k] } : World).guards = insert k w.guards := by
  ext j
  by_cases hj : j = k
  · subst hj
    simp [count_eq_zero_of_free hk]
  · simp [hj, Ne.symm hj]

/-- Taking a free key spares the guards of others and credits the key to the taker. -/
theorem take_spares (hk : isHeld w.held k = false) {H : Set SubtreeKey} :
    Spares World.guards H w { w with held := w.held ++ [k] } :=
  spares_of_subset (guards_take hk ▸ Set.subset_insert _ _)

theorem taken_take (hk : isHeld w.held k = false) {H : Set SubtreeKey} (hw : H ⊆ w.guards) :
    taken World.guards H w { w with held := w.held ++ [k] } = insert k H :=
  taken_of_held_insert (guards_take hk) hw (not_mem_guards_of_free hk)

/-- Dropping a guard erases its one occurrence and keeps the other guards. -/
theorem guards_drop (hk : k ∈ w.guards) :
    ({ w with held := release w.held k } : World).guards = w.guards \ {k} := by
  ext j
  by_cases hj : j = k
  · subst hj
    simp [release, World.mem_guards.1 hk]
  · simp [release, hj]

end Guard

theorem advance_get_bind {f : World → Step α} (w : World) :
    (ExceptT.run (get >>= f)).advance w = (ExceptT.run (f w)).advance w := rfl

theorem advance_getWorld_bind {f : World → Pass α} (counts : ScanCounts) (w : World) :
    ((ExceptT.run (getThe World >>= f)).run counts).advance w =
      ((ExceptT.run (f w)).run counts).advance w := rfl

/-- What taking the guard of `k` does to a credit `H`: on success `k` was free and joins the
credit, and a busy subtree fails with the credit as it was. -/
def Acquired (k : SubtreeKey) (H : Set SubtreeKey) (r : Except ScanError Unit)
    (H' : Set SubtreeKey) : Prop :=
  (r = .ok () ∧ k ∉ H ∧ H' = insert k H) ∨ (r = .error (.subtreeBusy k.text) ∧ H' = H)

theorem acquire_holds (k : SubtreeKey) (H : Set SubtreeKey) : (acquire k).Holds (Acquired k H) H := by
  -- the held list is read, and the key taken in the same turn when it is free
  refine Step.Holds.get_bind fun w hw => ?_
  cases hk : isHeld w.held k
  · have hfree : tryAcquire w.held k = .ok (w.held ++ [k]) := by simp [tryAcquire, hk]
    rw [hfree]
    exact .step (take_spares hk)
      (.done (.inl ⟨rfl, fun h => not_mem_guards_of_free hk (hw h), taken_take hk hw⟩))
  · have hbusy : tryAcquire w.held k = .error (.subtreeBusy k.text) := by simp [tryAcquire, hk]
    rw [hbusy]
    exact .done (.inr ⟨rfl, rfl⟩)

/-- A held key is not taken: the attempt fails with the subtree busy in the turn it is made,
and changes nothing. -/
theorem acquire_busy {k : SubtreeKey} {w : World} (hk : isHeld w.held k = true) :
    (ExceptT.run (acquire k)).advance w = (.finished (.error (.subtreeBusy k.text)), w) := by
  have hbusy : tryAcquire w.held k = .error (.subtreeBusy k.text) := by simp [tryAcquire, hk]
  unfold acquire
  rw [advance_get_bind, hbusy]
  rfl

/-- Dropping a guard of one's own credit takes it from the credit. -/
theorem releaseGuard_holds {k : SubtreeKey} {H : Set SubtreeKey} (hk : k ∈ H) :
    (releaseGuard k).Holds (fun r H' => r = .ok () ∧ H' = H \ {k}) H := by
  intro w hw
  have hdrop := guards_drop (hw hk)
  exact .step (spares_of_held_diff hdrop hk) (.done ⟨rfl, taken_of_held_diff hdrop hw⟩)

/-- A guarded body runs credited with its key, and the guard is dropped after it whether it
fails or not: `guarded` gives back what it took on every path when its body does. -/
theorem guarded_holds {k : SubtreeKey} {H : Set SubtreeKey} {body : Step α}
    (hb : k ∉ H → body.Holds (fun _ H' => H' = insert k H) (insert k H)) :
    (guarded k body).Holds (fun _ H' => H' = H) H := by
  unfold guarded
  refine Step.Holds.bind (acquire_holds k H) (fun _ H' hacq => ?_) fun e H' hacq => ?_
  · obtain ⟨-, hkH, rfl⟩ | ⟨hr, -⟩ := hacq
    · have hdrop : (releaseGuard k).Holds (fun _ H' => H' = H) (insert k H) :=
        (releaseGuard_holds (Set.mem_insert k H)).mono fun _ _ h =>
          h.2.trans (Set.insert_sdiff_self_of_notMem hkH)
      -- the guard is dropped once: in the handler when the body fails, after it otherwise
      have htry : (tryCatch body fun e => do releaseGuard k; throw e : Step α).Holds
          (fun r H' => (∀ a, r = .ok a → H' = insert k H) ∧ (∀ e, r = .error e → H' = H))
          (insert k H) := by
        refine Step.Holds.tryCatch (hb hkH) (fun _ _ h => ⟨fun _ _ => h, fun _ he => by cases he⟩)
          fun e _ hH => ?_
        subst hH
        exact Step.Holds.bind hdrop
          (fun _ _ h => Step.Holds.throw ⟨fun _ ha => (by cases ha), fun _ _ => h⟩) fun _ _ h =>
            ⟨fun _ ha => (by cases ha), fun _ _ => h⟩
      refine Step.Holds.bind htry (fun a _ hH => ?_) fun e _ hH => hH.2 e rfl
      rw [hH.1 a rfl]
      exact Step.Holds.bind hdrop (fun _ _ h => Step.Holds.pure h) fun _ _ h => h
    · cases hr
  · obtain ⟨hr, -⟩ | ⟨-, rfl⟩ := hacq
    · cases hr
    · rfl

/-- A guarded step whose key is held fails with the subtree busy in the turn it starts,
before its body, and changes nothing. -/
theorem guarded_busy {k : SubtreeKey} {body : Step α} {w : World} (hk : isHeld w.held k = true) :
    (ExceptT.run (guarded k body)).advance w = (.finished (.error (.subtreeBusy k.text)), w) := by
  show ((ExceptT.run (acquire k)) >>= ExceptT.bindCont _).advance w = _
  rw [Turns.advance_bind, acquire_busy hk]
  rfl

theorem guarded_givesBack {k : SubtreeKey} {H : Set SubtreeKey} {body : Step α} (hb : body.Fixed) :
    (guarded k body).GivesBack H :=
  (guarded_holds fun _ => Step.Holds.of_fixed hb fun _ => rfl).mono fun _ _ h _ => h

/-- What taking a namespace's guard does to a credit `H`: `true` when the key was free and
joined the credit; otherwise the credit is as it was. -/
def AcquiredFor (k : SubtreeKey) (H : Set SubtreeKey) (r : Except ScanError Bool)
    (H' : Set SubtreeKey) : Prop :=
  (r = .ok true ∧ k ∉ H ∧ H' = insert k H) ∨ (r ≠ .ok true ∧ H' = H)

theorem acquireFor_holds (key : SubtreeKey) (selection : Selection) (H : Set SubtreeKey) :
    (acquireFor key selection).Holds (AcquiredFor key H) H := by
  unfold acquireFor
  refine Pass.Holds.getWorld_bind fun counts w hw => ?_
  cases hk : isHeld w.held key
  · have hfree : tryAcquire w.held key = .ok (w.held ++ [key]) := by simp [tryAcquire, hk]
    rw [hfree]
    exact .step (take_spares hk)
      (.done (.inl ⟨rfl, fun h => not_mem_guards_of_free hk (hw h), taken_take hk hw⟩))
  · have hbusy : tryAcquire w.held key = .error (.subtreeBusy key.text) := by
      simp [tryAcquire, hk]
    rw [hbusy]
    -- a busy key is skipped by discovery and fails a refresh, in the same turn
    cases selection with
    | unscanned => exact .done (.inr ⟨by simp, rfl⟩)
    | refresh _ => exact .done (.inr ⟨by simp, rfl⟩)

/-- A held key fails a refresh and is counted as skipped by discovery, in the turn it is
met, changing nothing else. -/
theorem acquireFor_busy {key : SubtreeKey} {w : World} (selection : Selection)
    (counts : ScanCounts) (hk : isHeld w.held key = true) :
    ((ExceptT.run (acquireFor key selection)).run counts).advance w =
      match selection with
      | .refresh _ => (.finished (.error (.subtreeBusy key.text), counts), w)
      | .unscanned => (.finished (.ok false, { counts with skipped := counts.skipped + 1 }), w) := by
  have hbusy : tryAcquire w.held key = .error (.subtreeBusy key.text) := by simp [tryAcquire, hk]
  unfold acquireFor
  rw [advance_getWorld_bind, hbusy]
  cases selection <;> rfl

/-- A namespace whose key is held is not reconciled: a refresh fails with the subtree busy and
discovery counts it as skipped, in the turn the key is met, with the world unchanged. -/
theorem reconcileGuarded_busy {key : SubtreeKey} {body : Step ScanCounts} {w : World}
    (counts : ScanCounts) (hk : isHeld w.held key = true) :
    (∀ names, ((ExceptT.run (reconcileGuarded key (.refresh names) body)).run counts).advance w =
      (.finished (.error (.subtreeBusy key.text), counts), w)) ∧
    ((ExceptT.run (reconcileGuarded key .unscanned body)).run counts).advance w =
      (.finished (.ok (), { counts with skipped := counts.skipped + 1 }), w) := by
  refine ⟨fun names => ?_, ?_⟩
  · show (((ExceptT.run (acquireFor key (.refresh names))).run counts) >>= _).advance w = _
    rw [Turns.advance_bind, acquireFor_busy _ counts hk]
    rfl
  · show (((ExceptT.run (acquireFor key .unscanned)).run counts) >>= _).advance w = _
    rw [Turns.advance_bind, acquireFor_busy _ counts hk]
    rfl

/-- A namespace reconciled under its guard: the body runs credited with the key, and the guard
is dropped after it unless it failed fatally. -/
theorem reconcileGuarded_givesBack {key : SubtreeKey} {selection : Selection}
    {body : Step ScanCounts} {H : Set SubtreeKey} (hb : key ∉ H → body.GivesBack (insert key H)) :
    (reconcileGuarded key selection body).GivesBack H := by
  unfold reconcileGuarded
  refine Pass.Holds.bind (acquireFor_holds key selection H) (fun b H' hacq => ?_)
    fun e H' hacq _ => ?_
  · rcases hacq with ⟨hb', hkH, rfl⟩ | ⟨hb', rfl⟩
    · cases hb'
      simp only [Bool.not_true, Bool.false_eq_true, ↓reduceIte]
      -- a failure passed on by the attempt is fatal; otherwise the body gave back its credit
      refine Pass.Holds.bind (Pass.Holds.lift (Step.Holds.attempt (hb hkH))) (fun r H' hr => ?_)
        fun e _ hr hret => absurd (returned_error.1 hret) (by simp [(hr.2 e rfl).1])
      obtain ⟨hret, hH⟩ := hr.1 r rfl
      rw [hH hret]
      refine Pass.Holds.bind (Pass.Holds.lift (releaseGuard_holds (Set.mem_insert key H)))
        (fun _ H'' h => ?_) fun _ _ h => by cases h.1
      rw [h.2, Set.insert_sdiff_self_of_notMem hkH]
      cases r with
      | ok done => exact Pass.GivesBack.tally
      | error e =>
        dsimp only
        split
        · exact Pass.GivesBack.throw
        · exact Pass.GivesBack.skip
    · have hfalse : b = false := by simpa using hb'
      subst hfalse
      exact Pass.GivesBack.pure
  · rcases hacq with ⟨h, -⟩ | ⟨-, rfl⟩
    · cases h
    · rfl

/-- Retiring a vanished namespace takes its guard only when it is free, and gives it back on
every path. -/
theorem retireNamespace_holds (resource : ResourceRow) (kind : NodeKind) (name : String)
    (H : Set SubtreeKey) : (retireNamespace resource kind name).Holds (fun _ H' => H' = H) H := by
  unfold retireNamespace
  refine Step.Holds.bind (Step.Holds.of_fixed (Q := fun _ H' => H' = H) readCatalog_fixed
    fun _ => rfl) (fun node H' hH => ?_) fun _ _ h => h
  subst H'
  cases node with
  | none => exact Step.Holds.pure rfl
  | some node =>
    refine Step.Holds.bind (Step.Holds.of_fixed (Q := fun _ H' => H' = H) get_fixed fun _ => rfl)
      (fun w H' hH => ?_) fun _ _ h => h
    subst H'
    split
    · exact Step.Holds.pure rfl
    · exact guarded_holds fun _ => Step.Holds.of_fixed inCatalogSpan_fixed fun _ => rfl

theorem retireNamespace_givesBack (resource : ResourceRow) (kind : NodeKind) (name : String)
    (H : Set SubtreeKey) : (retireNamespace resource kind name).GivesBack H :=
  (retireNamespace_holds resource kind name H).mono fun _ _ h _ => h

end DataCatalog.Scan
