import Mathlib
import DataCatalog.Proofs.Schedule.Moves
import DataCatalog.Proofs.Catalog.FullNames
import DataCatalog.Proofs.Scan.Keeps
/-!
# What scans write, and what they know while others write

`Step.Keeps` judges a scan by an invariant of the catalog alone. Some facts a scan relies on are
about the rows it read: a bucket it wrote a moment ago is still a bucket when it writes a prefix
below it, although other scans ran in between. Here the others are assumed to change the
catalog only by runs of writes that `W` admits (`Tables.Writes W`), and each scan is shown to
change it only so. `Step.Moves W P Q x` says that `x`, started at a well-formed catalog
satisfying `P`, changes the catalog only by writes `W` admits, wherever the others moved it at
its waits, and succeeds only with a result `a` at a catalog satisfying `Q a`. A fact that every
run of such writes keeps (`Tables.Kept`) survives the waits; the kinds of node ids are such
facts.

The writes a scan of tenant `u` makes are called with `u`, name their buckets, prefixes and
objects by unreserved paths and place them below ids that name buckets and prefixes
(`AdmitsScans`). Each building block of a scan gets its rule here.
-/

namespace DataCatalog.Catalog

open DataCatalog.Ident DataCatalog.Storage

variable {W : StoreOp → Tables → Prop}

/-- What a scan of `u` knows of a bucket or prefix row it holds: the row is `u`'s, named by an
unreserved path, and its id and its parent's id name only buckets and prefixes. -/
structure NodeRow.Known (u : TenantId) (c : Tables) (n : NodeRow) : Prop where
  tenant : n.tenant = u
  storage : n.kind.Storage
  name : Unreserved n.name
  id : c.IdKind n.id NodeKind.Storage
  parent : ∀ p, n.parent = some p → c.IdKind p NodeKind.Storage

theorem NodeRow.kept_known (u : TenantId) (n : NodeRow) : Tables.Kept W fun c => n.Known u c :=
  fun _ _ h hn => ⟨hn.tenant, hn.storage, hn.name, Tables.kept_idKind _ _ _ _ h hn.id,
    fun p hp => Tables.kept_idKind _ _ _ _ h (hn.parent p hp)⟩

end DataCatalog.Catalog

namespace DataCatalog.Scan

open DataCatalog.Schedule DataCatalog.Catalog DataCatalog.Ident DataCatalog.Storage

/-- The catalog of `w'` is reached from that of `w` by writes that `W` admits. -/
def World.Writes (W : StoreOp → Tables → Prop) (w w' : World) : Prop :=
  w.catalog.Writes W w'.catalog

instance (W : StoreOp → Tables → Prop) : IsPreorder World (World.Writes W) where
  refl w := refl_of (Tables.Writes W) w.catalog
  trans _ _ _ h₁ h₂ := trans_of (Tables.Writes W) h₁ h₂

/-- `W` admits every write a scan of tenant `u` may make: one called with `u` that names its
buckets, prefixes and objects by unreserved paths and places them below buckets and prefixes. -/
def AdmitsScans (u : TenantId) (W : StoreOp → Tables → Prop) : Prop :=
  ∀ op c, op.tenant = u → op.Named → op.Placed c → W op c

variable {α β : Type} {W : StoreOp → Tables → Prop} {P F : Tables → Prop}
  {Q Q' : α → Tables → Prop} {S : β → Tables → Prop}

/-- The step `x`, started at a well-formed catalog satisfying `P`, changes the catalog only by
writes that `W` admits, when resumed after each wait wherever such writes of others took it,
and succeeds only with a result `a` at a catalog satisfying `Q a`. -/
def Step.Moves (W : StoreOp → Tables → Prop) (P : Tables → Prop) (Q : α → Tables → Prop)
    (x : Step α) : Prop :=
  ∀ w : World, w.catalog.Wf → P w.catalog →
    Turns.Moves (World.Writes W) (fun r w' => ∀ a, r = .ok a → Q a w'.catalog) (ExceptT.run x) w

/-- The pass `p`, started from any counts, does what `Step.Moves` says of a step. -/
def Pass.Moves (W : StoreOp → Tables → Prop) (P : Tables → Prop) (Q : α → Tables → Prop)
    (p : Pass α) : Prop :=
  ∀ (counts : ScanCounts) (w : World), w.catalog.Wf → P w.catalog →
    Turns.Moves (World.Writes W) (fun r w' => ∀ a, r.1 = .ok a → Q a w'.catalog)
      ((ExceptT.run p).run counts) w

/-- A fact every admitted run of writes keeps holds wherever a computation finishes. -/
theorem moves_kept {γ : Type} {Q : γ → World → Prop} {t : Turns World γ} {w : World}
    (hF : Tables.Kept W F) (h : Turns.Moves (World.Writes W) Q t w) (hw : w.catalog.Wf)
    (hf : F w.catalog) :
    Turns.Moves (World.Writes W) (fun a w' => (w'.catalog.Wf ∧ F w'.catalog) ∧ Q a w') t w :=
  h.frame (F := fun w : World => w.catalog.Wf ∧ F w.catalog)
    (fun _ _ hs ⟨hw, hf⟩ => ⟨hs.wf hw, hF _ _ hs hf⟩) ⟨hw, hf⟩

namespace Step.Moves

theorem pure {a : α} (h : ∀ c, P c → Q a c) : (Pure.pure a : Step α).Moves W P Q :=
  fun _ _ hp => Turns.Moves.pure fun b hb => by cases hb; exact h _ hp

theorem throw {e : ScanError} : (MonadExcept.throw e : Step α).Moves W P Q :=
  fun _ _ _ => Turns.Moves.pure fun _ h => by cases h

theorem mono {x : Step α} {P' : Tables → Prop} (h : x.Moves W P Q) (hP : ∀ c, P' c → P c)
    (hQ : ∀ a c, Q a c → Q' a c) : x.Moves W P' Q' :=
  fun w hw hp => (h w hw (hP _ hp)).mono fun _ _ hr a ha => hQ _ _ (hr a ha)

/-- Nothing is asked of a step that starts nowhere. -/
theorem of_false (x : Step α) : x.Moves W (fun _ => False) Q := fun _ _ h => h.elim

/-- A fact that the precondition implies may be assumed outright. -/
theorem assume {x : Step α} {p : Prop} (hp : ∀ c, P c → p) (h : p → x.Moves W P Q) :
    x.Moves W P Q :=
  fun w hw hP => h (hp _ hP) w hw hP

/-- A fact every admitted run of writes keeps holds where a step finishes. -/
theorem frame {x : Step α} (hF : Tables.Kept W F) (h : x.Moves W P Q) :
    x.Moves W (fun c => F c ∧ P c) fun a c => F c ∧ Q a c :=
  fun w hw ⟨hf, hp⟩ => (moves_kept hF (h w hw hp) hw hf).mono fun _ _ ⟨⟨_, hf'⟩, hr⟩ a ha =>
    ⟨hf', hr a ha⟩

theorem bind {x : Step α} {f : α → Step β} (h : x.Moves W P Q)
    (hf : ∀ a, (f a).Moves W (Q a) S) : (x >>= f).Moves W P S := by
  intro w hw hp
  refine Turns.Moves.bind (f := ExceptT.bindCont f)
    (moves_kept (Tables.kept_const True) (h w hw hp) hw trivial) fun r w' ⟨⟨hw', _⟩, hr⟩ => ?_
  cases r with
  | error e => exact Turns.Moves.pure fun _ h => by cases h
  | ok a => exact hf a w' hw' (hr a rfl)

/-- Sequencing that carries a fact every admitted run of writes keeps past the first step. -/
theorem bind_kept {x : Step α} {f : α → Step β} (hP : Tables.Kept W P) (h : x.Moves W P Q)
    (hf : ∀ a, (f a).Moves W (fun c => P c ∧ Q a c) S) : (x >>= f).Moves W P S :=
  (bind (frame hP h) hf).mono (fun _ hp => ⟨hp, hp⟩) fun _ _ h => h

/-- A step keeps every fact of its start that admitted writes keep. -/
theorem keeping {x : Step α} (hP : Tables.Kept W P) (h : x.Moves W P Q) :
    x.Moves W P fun _ => P :=
  (frame hP h).mono (fun _ hp => ⟨hp, hp⟩) fun _ _ h => h.1

theorem map {x : Step α} {f : α → β} (h : x.Moves W P Q) (hf : ∀ a c, Q a c → S (f a) c) :
    (f <$> x).Moves W P S := by
  intro w hw hp
  refine Turns.Moves.bind (h w hw hp) fun r w' hr => ?_
  cases r with
  | error e => exact Turns.Moves.pure fun _ h => by cases h
  | ok a => exact Turns.Moves.pure fun b hb => by cases hb; exact hf a _ (hr a rfl)

/-- A handler runs where the body failed, where every fact the writes keep still holds. -/
theorem tryCatch {body : Step α} {handler : ScanError → Step α} (hP : Tables.Kept W P)
    (h : body.Moves W P Q) (hh : ∀ e, (handler e).Moves W P Q) :
    (MonadExcept.tryCatch body handler).Moves W P Q := by
  intro w hw hp
  refine Turns.Moves.bind (moves_kept hP (h w hw hp) hw hp) fun r w' ⟨⟨hw', hp'⟩, hr⟩ => ?_
  cases r with
  | error e => exact hh e w' hw' hp'
  | ok a => exact Turns.Moves.pure fun b hb => by cases hb; exact hr a rfl

/-- An attempt moves as its body does, and a success it returns is one of the body's. -/
theorem attempt {body : Step α} (hP : Tables.Kept W P) (h : body.Moves W P Q) :
    (Step.attempt body).Moves W P fun r c => ∀ a, r = .ok a → Q a c := by
  refine tryCatch hP (map h fun a _ ha b hb => by cases hb; exact ha) fun e => ?_
  split
  · exact throw
  · exact pure fun _ _ _ h => by cases h

theorem ofExcept {r : Except ScanError α} (h : ∀ a, r = .ok a → ∀ c, P c → Q a c) :
    (Step.ofExcept r).Moves W P Q := by
  cases r with
  | error e => exact throw
  | ok a => exact pure (h a rfl)

/-- Reading the world returns the world whose catalog is the current one. -/
theorem get : (MonadState.get : Step World).Moves W P fun w c => w.catalog = c :=
  fun w _ _ => Turns.Moves.step (refl_of (World.Writes W) w)
    (Turns.Moves.pure fun _ h => by cases h; rfl)

theorem set {w' : World} {Q : PUnit → Tables → Prop}
    (h : ∀ c, P c → c.Writes W w'.catalog ∧ Q () w'.catalog) :
    (MonadState.set w' : Step PUnit).Moves W P Q :=
  fun w _ hp => Turns.Moves.step (h _ hp).1 (Turns.Moves.pure fun _ ha => by cases ha; exact (h _ hp).2)

/-- A change of the world outside the catalog moves nothing. -/
theorem update_off {f : World → World} (hf : ∀ w, (f w).catalog = w.catalog) :
    (modify f : Step Unit).Moves W P fun _ => P :=
  fun w _ hp => Turns.Moves.step (show w.catalog.Writes W (f w).catalog from hf w ▸ .refl)
    (Turns.Moves.pure fun _ ha => by cases ha; exact (hf w).symm ▸ hp)

theorem forM {l : List β} {f : β → Step PUnit} (h : ∀ x ∈ l, (f x).Moves W P fun _ => P) :
    (l.forM f).Moves W P fun _ => P := by
  induction l with
  | nil => exact pure fun _ h => h
  | cons x rest ih =>
    exact bind (h x List.mem_cons_self) fun _ => ih fun y hy => h y (List.mem_cons_of_mem _ hy)

/-- Run alone from a well-formed catalog, a step changes it only by writes that `W` admits, and
a success comes with what the step promises. -/
theorem run {x : Step α} (h : x.Moves W P Q) {w : World} (hw : w.catalog.Wf) (hp : P w.catalog) :
    w.catalog.Writes W (x.runAlone w).2.catalog ∧
      ∀ a, (x.runAlone w).1 = .ok a → Q a (x.runAlone w).2.catalog :=
  (h w hw hp).run

end Step.Moves

namespace Pass.Moves

theorem pure {a : α} (h : ∀ c, P c → Q a c) : (Pure.pure a : Pass α).Moves W P Q :=
  fun _ _ _ hp => Turns.Moves.pure fun b hb => by cases hb; exact h _ hp

theorem throw {e : ScanError} : (MonadExcept.throw e : Pass α).Moves W P Q :=
  fun _ _ _ _ => Turns.Moves.pure fun _ h => by cases h

theorem mono {p : Pass α} {P' : Tables → Prop} (h : p.Moves W P Q) (hP : ∀ c, P' c → P c)
    (hQ : ∀ a c, Q a c → Q' a c) : p.Moves W P' Q' :=
  fun counts w hw hp => (h counts w hw (hP _ hp)).mono fun _ _ hr a ha => hQ _ _ (hr a ha)

theorem of_false (p : Pass α) : p.Moves W (fun _ => False) Q := fun _ _ _ h => h.elim

theorem assume {x : Pass α} {p : Prop} (hp : ∀ c, P c → p) (h : p → x.Moves W P Q) :
    x.Moves W P Q :=
  fun counts w hw hP => h (hp _ hP) counts w hw hP

theorem frame {p : Pass α} (hF : Tables.Kept W F) (h : p.Moves W P Q) :
    p.Moves W (fun c => F c ∧ P c) fun a c => F c ∧ Q a c :=
  fun counts w hw ⟨hf, hp⟩ => (moves_kept hF (h counts w hw hp) hw hf).mono
    fun _ _ ⟨⟨_, hf'⟩, hr⟩ a ha => ⟨hf', hr a ha⟩

theorem bind {x : Pass α} {f : α → Pass β} (h : x.Moves W P Q)
    (hf : ∀ a, (f a).Moves W (Q a) S) : (x >>= f).Moves W P S := by
  intro counts w hw hp
  refine Turns.Moves.bind (f := fun p => (ExceptT.bindCont f p.1).run p.2)
    (moves_kept (Tables.kept_const True) (h counts w hw hp) hw trivial)
    fun ⟨r, c⟩ w' ⟨⟨hw', _⟩, hr⟩ => ?_
  cases r with
  | error e => exact Turns.Moves.pure fun _ h => by cases h
  | ok a => exact hf a c w' hw' (hr a rfl)

theorem bind_kept {x : Pass α} {f : α → Pass β} (hP : Tables.Kept W P) (h : x.Moves W P Q)
    (hf : ∀ a, (f a).Moves W (fun c => P c ∧ Q a c) S) : (x >>= f).Moves W P S :=
  (bind (frame hP h) hf).mono (fun _ hp => ⟨hp, hp⟩) fun _ _ h => h

theorem keeping {p : Pass α} (hP : Tables.Kept W P) (h : p.Moves W P Q) :
    p.Moves W P fun _ => P :=
  (frame hP h).mono (fun _ hp => ⟨hp, hp⟩) fun _ _ h => h.1

/-- A scan step inside a pass. -/
theorem lift {s : Step α} (h : s.Moves W P Q) : (Pass.lift s).Moves W P Q :=
  fun _ w hw hp => Turns.Moves.bind (h w hw hp) fun _ _ hr => Turns.Moves.pure hr

theorem tally {f : ScanCounts → ScanCounts} : (Pass.tally f).Moves W P fun _ => P :=
  fun _ _ _ hp => Turns.Moves.pure fun _ _ => hp

theorem skip : Pass.skip.Moves W P fun _ => P := tally

theorem tryCatch {body : Pass α} {handler : ScanError → Pass α} (hP : Tables.Kept W P)
    (h : body.Moves W P Q) (hh : ∀ e, (handler e).Moves W P Q) :
    (MonadExcept.tryCatch body handler).Moves W P Q := by
  intro counts w hw hp
  refine Turns.Moves.bind (moves_kept hP (h counts w hw hp) hw hp) fun ⟨r, c⟩ w' ⟨⟨hw', hp'⟩, hr⟩ => ?_
  cases r with
  | error e => exact hh e c w' hw' hp'
  | ok a => exact Turns.Moves.pure fun b hb => by cases hb; exact hr a rfl

theorem map {x : Pass α} {f : α → β} (h : x.Moves W P Q) (hf : ∀ a c, Q a c → S (f a) c) :
    (f <$> x).Moves W P S := by
  intro counts w hw hp
  refine Turns.Moves.bind (h counts w hw hp) fun ⟨r, c⟩ w' hr => ?_
  cases r with
  | error e => exact Turns.Moves.pure fun _ h => by cases h
  | ok a => exact Turns.Moves.pure fun b hb => by cases hb; exact hf a _ (hr a rfl)

theorem attempt {body : Pass α} (hP : Tables.Kept W P) (h : body.Moves W P Q) :
    (Pass.attempt body).Moves W P fun r c => ∀ a, r = .ok a → Q a c := by
  refine tryCatch hP (map h fun a _ ha b hb => by cases hb; exact ha) fun e => ?_
  split
  · exact throw
  · exact pure fun _ _ _ h => by cases h

theorem ofExcept {r : Except ScanError α} (h : ∀ a, r = .ok a → ∀ c, P c → Q a c) :
    (Pass.ofExcept r).Moves W P Q := by
  cases r with
  | error e => exact throw
  | ok a => exact pure (h a rfl)

theorem getWorld : (getThe World : Pass World).Moves W P fun _ => P :=
  fun _ w _ hp => Turns.Moves.step (refl_of (World.Writes W) w)
    (Turns.Moves.pure fun _ h => by cases h; exact hp)

theorem modifyWorld_off {f : World → World} (hf : ∀ w, (f w).catalog = w.catalog) :
    (modifyThe World f : Pass Unit).Moves W P fun _ => P :=
  fun _ w _ hp => Turns.Moves.step (show w.catalog.Writes W (f w).catalog from hf w ▸ .refl)
    (Turns.Moves.pure fun _ ha => by cases ha; exact (hf w).symm ▸ hp)

/-- A pass run from zero counts moves as the pass does. -/
theorem run {p : Pass Unit} (h : p.Moves W P fun _ _ => True) :
    (Pass.run p).Moves W P fun _ _ => True :=
  fun w hw hp => Turns.Moves.bind (h {} w hw hp) fun _ _ _ => Turns.Moves.pure fun _ _ => trivial

end Pass.Moves

/-! ## The building blocks of a scan -/

section Blocks

variable {u : TenantId}

/-- A wait keeps every fact the writes of others keep. -/
theorem awaitCatalog_moves (hP : Tables.Kept W P) (n : Nat) :
    (awaitCatalog n).Moves W P fun _ => P := by
  induction n with
  | zero => exact Step.Moves.pure fun _ h => h
  | succ n ih =>
    refine Step.Moves.bind (fun w _ hp => Turns.Moves.wait fun w' hs => ?_) fun _ => ih
    exact Turns.Moves.pure fun _ ha => by cases ha; exact hP _ _ hs hp

/-- A catalog operation moves the catalog by admitted writes when every success of it from a
well-formed catalog satisfying `P` is a run of admitted writes ending where `Q` of its result
holds. -/
theorem inCatalogSpan_moves {ahead behind : Nat} {op : Store α} (hP : Tables.Kept W P)
    (hQ : ∀ a, Tables.Kept W (Q a))
    (h : ∀ c a c', c.Wf → P c → op c = .ok (a, c') → c.Writes W c' ∧ Q a c') :
    (inCatalogSpan ahead behind op).Moves W P Q := by
  refine Step.Moves.bind (awaitCatalog_moves hP _) fun _ => ?_
  refine Step.Moves.bind (Q := Q) ?_ fun a => Step.Moves.bind (awaitCatalog_moves (hQ a) _)
    fun _ => Step.Moves.pure fun _ h => h
  -- the visit that takes effect reads the catalog and writes the operation's result back
  intro w hw hp
  refine Turns.Moves.step (refl_of (World.Writes W) w) ?_
  rcases hop : op w.catalog with e | ⟨a, c⟩
  · simp only [StateT.run, Turns.done_bind, hop]
    exact Turns.Moves.pure fun _ h => by cases h
  · simp only [StateT.run, Turns.done_bind, hop]
    obtain ⟨hc, ha⟩ := h _ _ _ hw hp hop
    exact Turns.Moves.step hc (Turns.Moves.pure fun b hb => by cases hb; exact ha)

/-- A catalog read changes nothing; its result satisfies what every well-formed catalog
satisfying `P` makes of it. -/
theorem readCatalog_moves {f : Tables → α} {R : α → Prop} (hP : Tables.Kept W P)
    (h : ∀ c, c.Wf → P c → R (f c)) : (readCatalog f).Moves W P fun a _ => R a := by
  unfold readCatalog inCatalog
  refine inCatalogSpan_moves hP (fun _ => Tables.kept_const _) fun c _ _ hw hp hop => ?_
  simp only [Except.ok.injEq, Prod.mk.injEq] at hop
  obtain ⟨rfl, rfl⟩ := hop
  exact ⟨.refl, h c hw hp⟩

/-- A catalog write standing for a store operation that `W` admits. -/
theorem storeOp_moves {ahead behind : Nat} {op : Store α} (sop : StoreOp) (hP : Tables.Kept W P)
    (hQ : ∀ a, Tables.Kept W (Q a)) (hrun : ∀ c, (op c).map Prod.snd = sop.run c)
    (hW : ∀ c, P c → W sop c) (hpost : ∀ c a c', c.Wf → P c → op c = .ok (a, c') → Q a c') :
    (inCatalogSpan ahead behind op).Moves W P Q :=
  inCatalogSpan_moves hP hQ fun c a c' hw hp hop => by
    have hsop : sop.run c = .ok c' := by rw [← hrun, hop]; rfl
    exact ⟨.single ⟨hw, sop, hW c hp, hsop⟩, hpost c a c' hw hp hop⟩

/-- A catalog write standing for a store operation that `W` admits, run for its effect. -/
theorem admittedOp_moves {ahead behind : Nat} {op : Store α} (sop : StoreOp)
    (hP : Tables.Kept W P) (hW : ∀ c, P c → W sop c)
    (hrun : ∀ c, (op c).map Prod.snd = sop.run c) :
    (inCatalogSpan ahead behind op).Moves W P fun _ _ => True :=
  storeOp_moves sop hP (fun _ => Tables.kept_const True) hrun hW fun _ _ _ _ _ _ => trivial

/-- A store operation of `u` that names and places nothing. -/
theorem plainOp_moves {ahead behind : Nat} {op : Store α} (sop : StoreOp) (hW : AdmitsScans u W)
    (hP : Tables.Kept W P) (ht : ∀ c, P c → sop.tenant = u) (hn : sop.Named)
    (hp : ∀ c, sop.Placed c) (hrun : ∀ c, (op c).map Prod.snd = sop.run c) :
    (inCatalogSpan ahead behind op).Moves W P fun _ _ => True :=
  admittedOp_moves sop hP (fun c hc => hW sop c (ht c hc) hn (hp c)) hrun

/-- The row a write of a named and placed bucket or prefix of `u` returns is known from then
on. -/
theorem upsertNode_known {i : NodeInput} {c c' : Tables} {row : NodeRow} (hw : c.Wf)
    (hrun : upsertNode i c = .ok (row, c')) (ht : i.tenant = u) (hk : i.kind.Storage)
    (hn : Unreserved i.name) (hp : ∀ p, i.parent = some p → c.IdKind p NodeKind.Storage) :
    row.Known u c' := by
  obtain ⟨-, -, hkey, -, hrow, -, -⟩ := upsertNode_written hrun
  simp only [NodeRow.naturalKey, Prod.mk.injEq] at hkey
  obtain ⟨htn, -, hpar, hkind, hname⟩ := hkey
  refine ⟨htn.trans ht, hkind ▸ hk, hname ▸ hn, ?_, ?_⟩
  · -- the row is in a well-formed catalog, so its id is its alone
    exact (upsertNode_wf hw hrun).idKind hrow (hkind ▸ hk)
  · -- the parent's id named buckets and prefixes before the write, and still does
    intro p hpp
    exact (hp p (hpar ▸ hpp)).of_keepsKinds (upsertNode_keepsKinds hrun)

/-- A node write of `u` that is no bucket or prefix returns a row of `u`. -/
theorem writeNode_moves (hW : AdmitsScans u W) (hP : Tables.Kept W P) {i : NodeInput}
    (hk : ¬i.kind.Storage) (ht : ∀ c, P c → i.tenant = u) :
    (writeNode i).Moves W P fun row _ => row.tenant = u :=
  storeOp_moves (.upsertNode i) hP (fun _ => Tables.kept_const _) (fun _ => rfl)
    (fun c hc => hW _ c (ht c hc) (fun h => absurd h hk) fun h => absurd h hk)
    fun c _ _ _ hc hrun => by
      obtain ⟨-, -, hkey, -⟩ := upsertNode_written hrun
      simp only [NodeRow.naturalKey, Prod.mk.injEq] at hkey
      exact hkey.1.trans (ht c hc)

/-- A bucket or prefix of `u` written by an unreserved name below a known one, or at the root,
is known. -/
theorem writeStorageNode_moves (hW : AdmitsScans u W) (hP : Tables.Kept W P) {i : NodeInput}
    (h : ∀ c, P c → i.tenant = u ∧ i.kind.Storage ∧ Unreserved i.name ∧
      ∀ p, i.parent = some p → c.IdKind p NodeKind.Storage) :
    (writeNode i).Moves W P fun row c => row.Known u c :=
  storeOp_moves (.upsertNode i) hP (NodeRow.kept_known u) (fun _ => rfl)
    (fun c hc => hW _ c (h c hc).1 (fun _ => (h c hc).2.2.1) fun _ => (h c hc).2.2.2)
    fun c _ _ hw hc hrun => upsertNode_known hw hrun (h c hc).1 (h c hc).2.1 (h c hc).2.2.1
      (h c hc).2.2.2

theorem writeItem_moves (hW : AdmitsScans u W) (hP : Tables.Kept W P) {i : ItemInput}
    (h : ∀ c, P c → i.tenant = u ∧ (StoreOp.upsertItem i).Named ∧ (StoreOp.upsertItem i).Placed c) :
    (writeItem i).Moves W P fun _ _ => True :=
  admittedOp_moves (.upsertItem i) hP (fun c hc => hW _ c (h c hc).1 (h c hc).2.1 (h c hc).2.2)
    fun _ => rfl

theorem retireCatalogNode_moves (hW : AdmitsScans u W) (hP : Tables.Kept W P) {t : TenantId}
    {id : NodeId} (ht : ∀ c, P c → t = u) : (retireCatalogNode t id).Moves W P fun _ _ => True :=
  plainOp_moves (.retireNode t id) hW hP ht trivial (fun _ => trivial) fun _ => rfl

theorem setNodeAggregate_moves (hW : AdmitsScans u W) (hP : Tables.Kept W P) {t : TenantId}
    {id : NodeId} {a : Aggregate} (ht : ∀ c, P c → t = u) :
    (inCatalog (setNodeAggregate t id a)).Moves W P fun _ _ => True :=
  plainOp_moves (.setNodeAggregate t id a) hW hP ht trivial (fun _ => trivial) fun _ => rfl

theorem deleteItem_moves (hW : AdmitsScans u W) (hP : Tables.Kept W P) {t : TenantId}
    {node : NodeId} {k : ItemKind} {name : String} (ht : ∀ c, P c → t = u) :
    (inCatalog (deleteItem t node k name)).Moves W P fun _ _ => True :=
  plainOp_moves (.deleteItem t node k name) hW hP ht trivial (fun _ => trivial) fun _ => rfl

theorem sumChildren_moves (hP : Tables.Kept W P) {t : TenantId} {id : NodeId} :
    (inCatalog (sumChildren t id)).Moves W P fun _ _ => True :=
  inCatalogSpan_moves hP (fun _ => Tables.kept_const True) fun c _ _ _ _ h => by
    unfold Catalog.sumChildren at h
    rcases hs : c.sumChildren t id with e | b <;>
      simp [hs, bind, StateT.bind, get, getThe, MonadStateOf.get, StateT.get, Except.bind, pure,
        StateT.pure, Except.pure, Store.fail] at h
    exact ⟨h.2 ▸ .refl, trivial⟩

theorem writeResource_moves (hW : AdmitsScans u W) (hP : Tables.Kept W P) {i : ResourceInput}
    (ht : ∀ c, P c → i.tenant = u) : (writeResource i).Moves W P fun r _ => r.tenant = u :=
  storeOp_moves (.upsertResource i) hP (fun _ => Tables.kept_const _) (fun _ => rfl)
    (fun c hc => hW _ c (ht c hc) trivial trivial)
    fun _ _ _ _ hc h => (upsertResource_tenant h).trans (ht _ hc)

theorem openRun_moves (hW : AdmitsScans u W) (hP : Tables.Kept W P) {t : TenantId}
    {e : Option ExternalId} {m : ScanMode} {ts : List String} (ht : ∀ c, P c → t = u) :
    (openRun t e m ts).Moves W P fun r _ => r.tenant = u :=
  storeOp_moves (.createRun t e m ts) hP (fun _ => Tables.kept_const _) (fun _ => rfl)
    (fun c hc => hW _ c (ht c hc) trivial trivial)
    fun _ _ _ _ hc h => (createRun_tenant h).trans (ht _ hc)

theorem endRun_moves (hW : AdmitsScans u W) (hP : Tables.Kept W P) {t : TenantId} {id : RunId}
    {st : RunStatus} {m : Option String} {n : ScanCounts} (ht : ∀ c, P c → t = u) :
    (endRun t id st m n).Moves W P fun r _ => r.tenant = u :=
  storeOp_moves (.finishRun t id st m n) hP (fun _ => Tables.kept_const _) (fun _ => rfl)
    (fun c hc => hW _ c (ht c hc) trivial trivial)
    fun _ _ _ _ hc h => (finishRun_tenant h).trans (ht _ hc)

/-! ### Steps outside the catalog -/

theorem tryRelational_moves {call : Source.RelationalCall α} :
    (tryRelational call).Moves W P fun _ _ => True :=
  Step.Moves.bind Step.Moves.get fun _ =>
    Step.Moves.bind (Step.Moves.set (Q := fun _ _ => True) fun _ hc => ⟨hc ▸ .refl, trivial⟩)
      fun _ =>
      Step.Moves.pure fun _ _ => trivial

theorem inRelational_moves {call : Source.RelationalCall α} :
    (inRelational call).Moves W P fun _ _ => True :=
  Step.Moves.bind tryRelational_moves fun _ => Step.Moves.ofExcept fun _ _ _ _ => trivial

theorem tryObjects_moves {call : Storage.ConnectorCall α} :
    (tryObjects call).Moves W P fun _ _ => True :=
  Step.Moves.bind Step.Moves.get fun _ =>
    Step.Moves.bind (Step.Moves.set (Q := fun _ _ => True) fun _ hc => ⟨hc ▸ .refl, trivial⟩)
      fun _ =>
      Step.Moves.pure fun _ _ => trivial

theorem inObjects_moves {call : Storage.ConnectorCall α} :
    (inObjects call).Moves W P fun _ _ => True :=
  Step.Moves.bind tryObjects_moves fun _ => Step.Moves.ofExcept fun _ _ _ _ => trivial

theorem acquire_moves {k : SubtreeKey} : (acquire k).Moves W P fun _ _ => True :=
  Step.Moves.bind Step.Moves.get fun _ =>
    Step.Moves.bind (Q := fun _ _ => True) (Step.Moves.ofExcept fun _ _ _ _ => trivial) fun _ =>
      Step.Moves.update_off fun _ => rfl

theorem releaseGuard_moves {k : SubtreeKey} : (releaseGuard k).Moves W P fun _ => P :=
  Step.Moves.update_off fun _ => rfl

/-- A guarded body moves as the body does: the guard lives outside the catalog. -/
theorem guarded_moves (hP : Tables.Kept W P) {k : SubtreeKey} {body : Step α}
    (h : body.Moves W P Q) : (guarded k body).Moves W P Q :=
  Step.Moves.bind_kept hP acquire_moves fun _ =>
    Step.Moves.bind (Step.Moves.tryCatch (hP.and (Tables.kept_const True))
      (h.mono (fun _ h => h.1) fun _ _ h => h) fun _ =>
      Step.Moves.bind releaseGuard_moves fun _ => Step.Moves.throw) fun _ =>
      Step.Moves.bind releaseGuard_moves fun _ => Step.Moves.pure fun _ h => h

/-- A connection is relational only for a relational kind. -/
theorem connect_moves {d : Connect.Descriptor} :
    (connect d).Moves W P fun conn _ => ∀ k, conn = .relational k → k.family = .relational := by
  unfold connect
  refine Step.Moves.bind (Step.Moves.update_off fun _ => rfl) fun _ => ?_
  refine Step.Moves.bind Step.Moves.get fun w => ?_
  rcases w.connectFailure with _ | e
  · rcases hfam : d.kind.family
    · exact Step.Moves.bind (Q := fun _ _ => True) (Step.Moves.ofExcept fun _ _ _ _ => trivial)
        fun _ => Step.Moves.pure fun _ _ k hk => by cases hk; exact hfam
    · exact Step.Moves.bind (Q := fun _ _ => True) (Step.Moves.ofExcept fun _ _ _ _ => trivial)
        fun _ => Step.Moves.bind (Step.Moves.update_off fun _ => rfl) fun _ =>
          Step.Moves.pure fun _ _ _ hk => by cases hk
  · exact Step.Moves.bind (Q := fun _ _ => False) Step.Moves.throw fun _ => Step.Moves.of_false _

theorem close_moves {conn : Connection} : conn.close.Moves W P fun _ => P := by
  cases conn with
  | relational k => exact Step.Moves.update_off fun _ => rfl
  | objectStorage => exact Step.Moves.pure fun _ h => h

/-- Steps that each move the catalog by admitted writes from every well-formed catalog move it
so when run side by side. -/
theorem interleaved_moves {slots : Nat} {steps : List (Step α)}
    (h : ∀ c, P c → ∀ s ∈ steps, s.Moves W (fun _ => True) fun _ _ => True) :
    (Step.interleaved slots steps).Moves W P fun _ _ => True := by
  intro w hw hp
  refine Turns.Moves.bind (Q := fun _ _ => True)
    (Turns.Moves.step ?_ (Turns.Moves.pure trivial)) fun _ _ _ =>
      Turns.Moves.pure fun _ _ => trivial
  -- the passes run in one turn, each from a well-formed catalog the others reached
  refine interleave_moves (G := World.Writes W) (Q := fun r _ => ∀ a, r = .ok a → True)
    ?_ _ _ _ fun t ht s hs => ?_
  · -- entering a pass's own connector leaves the catalog as it is
    exact fun _ s => refl_of (Tables.Writes W) s.catalog
  · obtain ⟨x, hx, rfl⟩ := List.mem_map.1 ht
    exact h _ hp x hx s (hs.wf hw) trivial

end Blocks

end DataCatalog.Scan
