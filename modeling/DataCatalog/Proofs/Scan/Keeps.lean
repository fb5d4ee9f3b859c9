import Mathlib
import DataCatalog.Proofs.Schedule.Keeps
import DataCatalog.Proofs.Catalog.Reachable
import DataCatalog.Scan.World
import DataCatalog.Scan.Pass
/-!
# Catalog invariants kept by scan steps

A scan step reaches the catalog only through catalog operations, each run in one turn of the
catalog connection. So a property of the catalog that every operation a scan makes keeps holds
at every wait of the scan, whatever other scans run beside it. `Step.Keeps J Q x` says that the
step `x` keeps the catalog invariant `J` at every turn and succeeds only with a result
satisfying `Q`; `Pass.Keeps` says the same of a pass, for every count it starts from.

The catalog writes a scan of tenant `u` makes are the store operations called with `u`, whose
buckets, prefixes and objects are not named by a reserved segment (`StoreOp.Scoped`); an
invariant is kept by the scans of `u` (`ScansKeep`) when every such write keeps it. Each
building block of a scan gets its rule here, so the passes are judged by composing them.
-/

namespace DataCatalog.Catalog

open DataCatalog.Storage DataCatalog.Ident

/-- Buckets and prefixes are never named by a reserved segment; other nodes may be. -/
def NodeKind.Admits (k : NodeKind) (name : String) : Prop :=
  (k = .bucket ∨ k = .keyPrefix) → name ∉ reservedSegments

/-- Objects are never named by a reserved segment; tables and views may be. -/
def ItemKind.Admits (k : ItemKind) (name : String) : Prop := k = .object → name ∉ reservedSegments

/-- The tenant a store operation is called for. -/
def StoreOp.tenant : StoreOp → TenantId
  | .upsertResource i => i.tenant
  | .upsertNode i => i.tenant
  | .upsertItem i => i.tenant
  | .deleteItem t .. => t
  | .deleteNodeItems t _ => t
  | .deleteSubtreeItems t _ => t
  | .deleteDescendantNodes t _ => t
  | .clearSubtree t _ => t
  | .retireNode t _ => t
  | .beginNodeScan t _ => t
  | .finishNodeScan t .. => t
  | .failNodeScan t .. => t
  | .setNodeAggregate t .. => t
  | .createRun t .. => t
  | .finishRun t .. => t

/-- Whether a store operation writes a name its kind does not admit. -/
def StoreOp.Unreserved : StoreOp → Prop
  | .upsertNode i => i.kind.Admits i.name
  | .upsertItem i => i.kind.Admits i.name
  | _ => True

/-- A write a scan of tenant `u` may make: called for `u`, with admitted names. -/
structure StoreOp.Scoped (u : TenantId) (op : StoreOp) : Prop where
  tenant : op.tenant = u
  unreserved : op.Unreserved

/-- `J` is kept by every catalog write a scan of tenant `u` may make. -/
def ScansKeep (u : TenantId) (J : Tables → Prop) : Prop :=
  ∀ (op : StoreOp) (c c' : Tables), op.Scoped u → J c → op.run c = .ok c' → J c'

/-- Whether a store operation opens or closes a scan run. -/
def StoreOp.booksRun : StoreOp → Bool
  | .createRun .. | .finishRun .. => true
  | _ => false

/-- `J` is kept by every catalog write a pass of tenant `u` may make: a write a scan of `u` may
make that neither opens nor closes a run. -/
def PassesKeep (u : TenantId) (J : Tables → Prop) : Prop :=
  ∀ (op : StoreOp) (c c' : Tables), op.Scoped u → op.booksRun = false → J c →
    op.run c = .ok c' → J c'

theorem ScansKeep.passes {u : TenantId} {J : Tables → Prop} (h : ScansKeep u J) :
    PassesKeep u J :=
  fun op c c' hs _ => h op c c' hs

theorem PassesKeep.op {u : TenantId} {J : Tables → Prop} (h : PassesKeep u J) {op : StoreOp}
    (hs : op.Scoped u) (hb : op.booksRun = false) : ∀ c c', J c → op.run c = .ok c' → J c' :=
  fun c c' => h op c c' hs hb

/-- A node row a scan of tenant `u` holds: its tenant's, and named as its kind admits. -/
structure NodeRow.Scoped (u : TenantId) (n : NodeRow) : Prop where
  tenant : n.tenant = u
  admits : n.kind.Admits n.name

theorem ItemKind.admits_of_ne {k : ItemKind} (h : k ≠ .object) (name : String) : k.Admits name :=
  fun hk => absurd hk h

/-- A written node bears the natural key it was written under. -/
theorem upsertNode_key {i : NodeInput} {c c' : Tables} {row : NodeRow}
    (h : upsertNode i c = .ok (row, c')) :
    row.tenant = i.tenant ∧ row.resource = i.resource ∧ row.kind = i.kind ∧ row.name = i.name := by
  obtain ⟨parent, -, ⟨old, hold, rfl, -⟩ | ⟨-, -, rfl, -⟩⟩ := upsertNode_ok h
  · have hfound := List.find?_some hold
    have hkey := NodeRow.hasKey_iff.1 hfound
    simp only [NodeRow.naturalKey, Prod.mk.injEq] at hkey
    exact ⟨hkey.1, hkey.2.1, hkey.2.2.2.1, hkey.2.2.2.2⟩
  · exact ⟨rfl, rfl, rfl, rfl⟩

/-- A node found by natural key bears that key. -/
theorem Tables.getNode_key {c : Tables} {t : TenantId} {r : ResourceId} {p : Option NodeId}
    {k : NodeKind} {name : String} {n : NodeRow} (h : c.getNode t r p k name = some n) :
    n.tenant = t ∧ n.resource = r ∧ n.kind = k ∧ n.name = name := by
  have hn := List.find?_some h
  simp only [Bool.and_eq_true] at hn
  have hkey := NodeRow.hasKey_iff.1 hn.1
  simp only [NodeRow.naturalKey, Prod.mk.injEq] at hkey
  exact ⟨hkey.1, hkey.2.1, hkey.2.2.2.1, hkey.2.2.2.2⟩

/-- A resource row is written under the registration's tenant. -/
theorem upsertResource_tenant {i : ResourceInput} {c c' : Tables} {row : ResourceRow}
    (h : upsertResource i c = .ok (row, c')) : row.tenant = i.tenant :=
  (upsertResource_cases h).1

/-- A run is recorded under the tenant it was opened for. -/
theorem createRun_tenant {t : TenantId} {e : Option ExternalId} {m : ScanMode} {ts : List String}
    {c c' : Tables} {row : RunRow} (h : createRun t e m ts c = .ok (row, c')) : row.tenant = t := by
  simp only [createRun, bind, StateT.bind, Tables.mint, Tables.now, modify, modifyGet,
    MonadStateOf.modifyGet, StateT.modifyGet, Except.bind, pure, StateT.pure, Except.pure,
    Except.ok.injEq, Prod.mk.injEq] at h
  rw [← h.1]

/-- A finished run is the tenant's own run. -/
theorem finishRun_tenant {t : TenantId} {id : RunId} {st : RunStatus} {m : Option String}
    {n : ScanCounts} {c c' : Tables} {row : RunRow} (h : finishRun t id st m n c = .ok (row, c')) :
    row.tenant = t := by
  unfold finishRun at h
  split at h
  · simp [Store.fail] at h
  · cases hr : c.runs.find? fun r => r.isRun t id && r.status == .running <;>
      simp [hr, bind, StateT.bind, get, getThe, MonadStateOf.get, StateT.get, Tables.now, set,
        MonadStateOf.set, StateT.set, pure, StateT.pure, Except.pure, Except.bind, Store.fail] at h
    rename_i old
    rw [← h.1]
    have hfor := List.find?_some hr
    simp only [RunRow.isRun, Bool.and_eq_true, beq_iff_eq] at hfor
    exact hfor.1.1

end DataCatalog.Catalog

namespace DataCatalog.Scan

open DataCatalog.Schedule DataCatalog.Catalog DataCatalog.Ident

/-- A property of an outcome's result, when it is a success. -/
def OnOk {α : Type} (Q : α → Prop) (r : Except ScanError α) : Prop := ∀ a, r = .ok a → Q a

theorem OnOk.error {α : Type} {Q : α → Prop} (e : ScanError) : OnOk Q (.error e) :=
  fun _ h => by cases h

/-- The step `x` keeps the catalog invariant `J` at every turn and succeeds only with a result
satisfying `Q`. -/
def Step.Keeps {α : Type} (J : Tables → Prop) (Q : α → Prop) (x : Step α) : Prop :=
  Turns.Keeps (fun w : World => J w.catalog) (OnOk Q) (ExceptT.run x)

/-- The pass `p`, started from any counts, keeps `J` at every turn and succeeds only with a
result satisfying `Q`. -/
def Pass.Keeps {α : Type} (J : Tables → Prop) (Q : α → Prop) (p : Pass α) : Prop :=
  ∀ counts : ScanCounts,
    Turns.Keeps (fun w : World => J w.catalog) (fun r => OnOk Q r.1) ((ExceptT.run p).run counts)

variable {α β : Type} {J : Tables → Prop} {Q : α → Prop} {R : β → Prop}

namespace Step.Keeps

theorem pure {a : α} (h : Q a) : (Pure.pure a : Step α).Keeps J Q :=
  Turns.Keeps.pure fun b hb => by cases hb; exact h

theorem throw {e : ScanError} : (MonadExcept.throw e : Step α).Keeps J Q :=
  Turns.Keeps.pure (OnOk.error e)

theorem mono {x : Step α} {Q' : α → Prop} (h : x.Keeps J Q) (hQ : ∀ a, Q a → Q' a) :
    x.Keeps J Q' :=
  Turns.Keeps.mono h fun _ hr a ha => hQ a (hr a ha)

theorem bind {x : Step α} {f : α → Step β} (h : x.Keeps J Q) (hf : ∀ a, Q a → (f a).Keeps J R) :
    (x >>= f).Keeps J R := by
  refine Turns.Keeps.bind (f := ExceptT.bindCont f) h fun r hr => ?_
  cases r with
  | error e => exact Turns.Keeps.pure (OnOk.error e)
  | ok a => exact hf a (hr a rfl)

theorem map {x : Step α} {f : α → β} (h : x.Keeps J Q) (hf : ∀ a, Q a → R (f a)) :
    (f <$> x).Keeps J R := by
  refine Turns.Keeps.bind h fun r hr => ?_
  cases r with
  | error e => exact Turns.Keeps.pure (OnOk.error e)
  | ok a => exact Turns.Keeps.pure fun b hb => by cases hb; exact hf a (hr a rfl)

theorem tryCatch {body : Step α} {handler : ScanError → Step α} (h : body.Keeps J Q)
    (hh : ∀ e, (handler e).Keeps J Q) : (MonadExcept.tryCatch body handler).Keeps J Q := by
  refine Turns.Keeps.bind h fun r hr => ?_
  cases r with
  | error e => exact hh e
  | ok a => exact Turns.Keeps.pure fun b hb => by cases hb; exact hr a rfl

/-- An attempt keeps what its body keeps, and a success it returns is one of the body's. -/
theorem attempt {body : Step α} (h : body.Keeps J Q) : (Step.attempt body).Keeps J (OnOk Q) := by
  refine tryCatch (map h fun a ha b hb => by cases hb; exact ha) fun e => ?_
  split
  · exact throw
  · exact pure (OnOk.error e)

theorem ofExcept {r : Except ScanError α} (h : OnOk Q r) : (Step.ofExcept r).Keeps J Q := by
  cases r with
  | error e => exact throw
  | ok a => exact pure (h a rfl)

/-- Reading the world returns one that satisfies the invariant. -/
theorem get : (MonadState.get : Step World).Keeps J fun w => J w.catalog :=
  Turns.Keeps.step fun _ hw => ⟨hw, Turns.Keeps.pure fun _ h => by cases h; exact hw⟩

theorem set {w' : World} (h : J w'.catalog) : (MonadState.set w' : Step PUnit).Keeps J fun _ => True :=
  Turns.Keeps.step fun _ _ => ⟨h, Turns.Keeps.pure fun _ _ => trivial⟩

theorem update {f : World → World} (hf : ∀ w, J w.catalog → J (f w).catalog) :
    (modify f : Step Unit).Keeps J fun _ => True :=
  Turns.Keeps.step fun w hw => ⟨hf w hw, Turns.Keeps.pure fun _ _ => trivial⟩

/-- A change of the world outside the catalog keeps every catalog invariant. -/
theorem update_off {f : World → World} (hf : ∀ w, (f w).catalog = w.catalog) :
    (modify f : Step Unit).Keeps J fun _ => True :=
  update fun w hw => (hf w).symm ▸ hw

theorem forM {l : List β} {f : β → Step PUnit} (h : ∀ x ∈ l, (f x).Keeps J fun _ => True) :
    (l.forM f).Keeps J fun _ => True := by
  induction l with
  | nil => exact pure trivial
  | cons x rest ih =>
    exact bind (h x List.mem_cons_self) fun _ _ =>
      ih fun y hy => h y (List.mem_cons_of_mem _ hy)

end Step.Keeps

namespace Pass.Keeps

theorem pure {a : α} (h : Q a) : (Pure.pure a : Pass α).Keeps J Q :=
  fun _ => Turns.Keeps.pure fun b hb => by cases hb; exact h

theorem throw {e : ScanError} : (MonadExcept.throw e : Pass α).Keeps J Q :=
  fun _ => Turns.Keeps.pure (OnOk.error e)

theorem bind {x : Pass α} {f : α → Pass β} (h : x.Keeps J Q) (hf : ∀ a, Q a → (f a).Keeps J R) :
    (x >>= f).Keeps J R := by
  intro counts
  refine Turns.Keeps.bind (f := fun p => (ExceptT.bindCont f p.1).run p.2) (h counts)
    fun ⟨r, c⟩ hr => ?_
  cases r with
  | error e => exact Turns.Keeps.pure (OnOk.error e)
  | ok a => exact hf a (hr a rfl) c

/-- A scan step inside a pass. -/
theorem lift {s : Step α} (h : s.Keeps J Q) : (Pass.lift s).Keeps J Q :=
  fun _ => Turns.Keeps.bind h fun _ hr => Turns.Keeps.pure hr

theorem tally {f : ScanCounts → ScanCounts} : (Pass.tally f).Keeps J fun _ => True :=
  fun _ => Turns.Keeps.pure fun _ _ => trivial

theorem skip : Pass.skip.Keeps J fun _ => True := tally

theorem tryCatch {body : Pass α} {handler : ScanError → Pass α} (h : body.Keeps J Q)
    (hh : ∀ e, (handler e).Keeps J Q) : (MonadExcept.tryCatch body handler).Keeps J Q := by
  intro counts
  refine Turns.Keeps.bind (h counts) fun ⟨r, c⟩ hr => ?_
  cases r with
  | error e => exact hh e c
  | ok a => exact Turns.Keeps.pure fun b hb => by cases hb; exact hr a rfl

theorem map {x : Pass α} {f : α → β} (h : x.Keeps J Q) (hf : ∀ a, Q a → R (f a)) :
    (f <$> x).Keeps J R := by
  intro counts
  refine Turns.Keeps.bind (h counts) fun ⟨r, c⟩ hr => ?_
  cases r with
  | error e => exact Turns.Keeps.pure (OnOk.error e)
  | ok a => exact Turns.Keeps.pure fun b hb => by cases hb; exact hf a (hr a rfl)

theorem attempt {body : Pass α} (h : body.Keeps J Q) : (Pass.attempt body).Keeps J (OnOk Q) := by
  refine tryCatch (map h fun a ha b hb => by cases hb; exact ha) fun e => ?_
  split
  · exact throw
  · exact pure (OnOk.error e)

theorem ofExcept {r : Except ScanError α} (h : OnOk Q r) : (Pass.ofExcept r).Keeps J Q := by
  cases r with
  | error e => exact throw
  | ok a => exact pure (h a rfl)

theorem getWorld : (getThe World : Pass World).Keeps J fun w => J w.catalog :=
  fun _ => Turns.Keeps.step fun _ hw => ⟨hw, Turns.Keeps.pure fun _ h => by cases h; exact hw⟩

theorem modifyWorld_off {f : World → World} (hf : ∀ w, (f w).catalog = w.catalog) :
    (modifyThe World f : Pass Unit).Keeps J fun _ => True :=
  fun _ => Turns.Keeps.step fun w hw =>
    ⟨(hf w).symm ▸ hw, Turns.Keeps.pure fun _ _ => trivial⟩

/-- A pass run from zero counts keeps what the pass keeps. -/
theorem run {p : Pass Unit} (h : p.Keeps J fun _ => True) :
    (Pass.run p).Keeps J fun _ => True :=
  Turns.Keeps.bind (h {}) fun _ _ => Turns.Keeps.pure fun _ _ => trivial

end Pass.Keeps

/-! ## The building blocks of a scan -/

section Blocks

variable {u : TenantId}

theorem awaitCatalog_keeps (n : Nat) : (awaitCatalog n).Keeps J fun _ => True := by
  induction n with
  | zero => exact Step.Keeps.pure trivial
  | succ n ih =>
    exact Step.Keeps.bind (Turns.Keeps.wait (Turns.Keeps.pure fun _ _ => trivial)) fun _ _ => ih

/-- A catalog operation keeps `J` when every success of it from a catalog satisfying `J` does,
with a result satisfying `Q`. -/
theorem inCatalogSpan_keeps {ahead behind : Nat} {op : Store α}
    (h : ∀ c a c', J c → op c = .ok (a, c') → J c' ∧ Q a) :
    (inCatalogSpan ahead behind op).Keeps J Q := by
  refine Step.Keeps.bind (awaitCatalog_keeps _) fun _ _ => ?_
  refine Step.Keeps.bind (Q := Q) ?_ fun _ ha => Step.Keeps.bind (awaitCatalog_keeps _)
    fun _ _ => Step.Keeps.pure ha
  -- the visit that takes effect reads the catalog and writes the operation's result back
  refine Turns.Keeps.step fun w hw => ⟨hw, ?_⟩
  rcases hop : op w.catalog with e | ⟨a, c⟩
  · simp only [StateT.run, Turns.done_bind, hop]
    exact Turns.Keeps.pure (OnOk.error _)
  · simp only [StateT.run, Turns.done_bind, hop]
    obtain ⟨hc, ha⟩ := h _ _ _ hw hop
    exact Turns.Keeps.step fun _ _ => ⟨hc, Turns.Keeps.pure fun b hb => by cases hb; exact ha⟩

/-- A catalog read keeps every invariant; its result satisfies what every catalog satisfying
the invariant makes of it. -/
theorem readCatalog_keeps {f : Tables → α} (h : ∀ c, J c → Q (f c)) :
    (readCatalog f).Keeps J Q := by
  unfold readCatalog inCatalog
  refine inCatalogSpan_keeps fun c _ _ hc hop => ?_
  simp only [Except.ok.injEq, Prod.mk.injEq] at hop
  obtain ⟨rfl, rfl⟩ := hop
  exact ⟨hc, h c hc⟩

theorem readCatalog_keeps_trivial {f : Tables → α} : (readCatalog f).Keeps J fun _ => True :=
  readCatalog_keeps fun _ _ => trivial

/-- An operation that succeeds without changing the catalog keeps every invariant. -/
theorem inCatalog_keeps_of_reads {op : Store α} (h : ∀ c a c', op c = .ok (a, c') → c' = c) :
    (inCatalog op).Keeps J fun _ => True :=
  inCatalogSpan_keeps fun _ _ _ hc hop => ⟨h _ _ _ hop ▸ hc, trivial⟩

/-- A catalog write that stands for a store operation keeps an invariant that every success of
the operation keeps. -/
theorem storeOp_keeps {ahead behind : Nat} {op : Store α} (sop : StoreOp)
    (hJ : ∀ c c', J c → sop.run c = .ok c' → J c')
    (hrun : ∀ c, (op c).map Prod.snd = sop.run c)
    (hQ : ∀ c a c', op c = .ok (a, c') → Q a) : (inCatalogSpan ahead behind op).Keeps J Q :=
  inCatalogSpan_keeps fun c a c' hc hop => by
    have hsop : sop.run c = .ok c' := by rw [← hrun, hop]; rfl
    exact ⟨hJ c c' hc hsop, hQ c a c' hop⟩

theorem writeNode_keeps {i : NodeInput} (hJ : PassesKeep u J) (ht : i.tenant = u)
    (hn : i.kind.Admits i.name) : (writeNode i).Keeps J (NodeRow.Scoped u) :=
  storeOp_keeps (.upsertNode i) (hJ.op ⟨ht, hn⟩ rfl) (fun _ => rfl) fun _ _ _ h => by
    obtain ⟨hrt, -, hk, hname⟩ := upsertNode_key h
    exact ⟨hrt.trans ht, hk ▸ hname ▸ hn⟩

theorem writeItem_keeps {i : ItemInput} (hJ : PassesKeep u J) (ht : i.tenant = u)
    (hn : i.kind.Admits i.name) : (writeItem i).Keeps J fun _ => True :=
  storeOp_keeps (.upsertItem i) (hJ.op ⟨ht, hn⟩ rfl) (fun _ => rfl) fun _ _ _ _ => trivial

theorem clearNode_keeps {t : TenantId} {id : NodeId} (hJ : PassesKeep u J) (ht : t = u) :
    (clearNode t id).Keeps J fun _ => True :=
  storeOp_keeps (.clearSubtree t id) (hJ.op ⟨ht, trivial⟩ rfl) (fun _ => rfl)
    fun _ _ _ _ => trivial

theorem retireCatalogNode_keeps {t : TenantId} {id : NodeId} (hJ : PassesKeep u J) (ht : t = u) :
    (retireCatalogNode t id).Keeps J fun _ => True :=
  storeOp_keeps (.retireNode t id) (hJ.op ⟨ht, trivial⟩ rfl) (fun _ => rfl)
    fun _ _ _ _ => trivial

theorem beginNodeScan_keeps {t : TenantId} {id : NodeId} (hJ : PassesKeep u J) (ht : t = u) :
    (inCatalog (beginNodeScan t id)).Keeps J fun _ => True :=
  storeOp_keeps (.beginNodeScan t id) (hJ.op ⟨ht, trivial⟩ rfl) (fun _ => rfl)
    fun _ _ _ _ => trivial

theorem finishNodeScan_keeps {t : TenantId} {id : NodeId} {a : Aggregate} (hJ : PassesKeep u J)
    (ht : t = u) : (inCatalog (finishNodeScan t id a)).Keeps J fun _ => True :=
  storeOp_keeps (.finishNodeScan t id a) (hJ.op ⟨ht, trivial⟩ rfl) (fun _ => rfl)
    fun _ _ _ _ => trivial

theorem failNodeScan_keeps {t : TenantId} {id : NodeId} {e : String} (hJ : PassesKeep u J)
    (ht : t = u) : (inCatalog (failNodeScan t id e)).Keeps J fun _ => True :=
  storeOp_keeps (.failNodeScan t id e) (hJ.op ⟨ht, trivial⟩ rfl) (fun _ => rfl)
    fun _ _ _ _ => trivial

theorem setNodeAggregate_keeps {t : TenantId} {id : NodeId} {a : Aggregate} (hJ : PassesKeep u J)
    (ht : t = u) : (inCatalog (setNodeAggregate t id a)).Keeps J fun _ => True :=
  storeOp_keeps (.setNodeAggregate t id a) (hJ.op ⟨ht, trivial⟩ rfl) (fun _ => rfl)
    fun _ _ _ _ => trivial

theorem deleteItem_keeps {t : TenantId} {node : NodeId} {k : ItemKind} {name : String}
    (hJ : PassesKeep u J) (ht : t = u) :
    (inCatalog (deleteItem t node k name)).Keeps J fun _ => True :=
  storeOp_keeps (.deleteItem t node k name) (hJ.op ⟨ht, trivial⟩ rfl) (fun _ => rfl)
    fun _ _ _ _ => trivial

theorem sumChildren_keeps {t : TenantId} {id : NodeId} :
    (inCatalog (sumChildren t id)).Keeps J fun _ => True :=
  inCatalog_keeps_of_reads fun c _ _ h => by
    unfold Catalog.sumChildren at h
    rcases hs : c.sumChildren t id with e | b <;>
      simp [hs, bind, StateT.bind, get, getThe, MonadStateOf.get, StateT.get, Except.bind, pure,
        StateT.pure, Except.pure, Store.fail] at h
    exact h.2.symm

theorem writeResource_keeps {i : ResourceInput} (hJ : PassesKeep u J) (ht : i.tenant = u) :
    (writeResource i).Keeps J fun r => r.tenant = u :=
  storeOp_keeps (.upsertResource i) (hJ.op ⟨ht, trivial⟩ rfl) (fun _ => rfl)
    fun _ _ _ h => (upsertResource_tenant h).trans ht

theorem openRun_keeps {t : TenantId} {e : Option ExternalId} {m : ScanMode} {ts : List String}
    (hJ : ScansKeep u J) (ht : t = u) : (openRun t e m ts).Keeps J fun r => r.tenant = u :=
  storeOp_keeps (.createRun t e m ts) (fun c c' => hJ _ c c' ⟨ht, trivial⟩) (fun _ => rfl)
    fun _ _ _ h => (createRun_tenant h).trans ht

theorem endRun_keeps {t : TenantId} {id : RunId} {st : RunStatus} {m : Option String}
    {n : ScanCounts} (hJ : ScansKeep u J) (ht : t = u) :
    (endRun t id st m n).Keeps J fun r => r.tenant = u :=
  storeOp_keeps (.finishRun t id st m n) (fun c c' => hJ _ c c' ⟨ht, trivial⟩) (fun _ => rfl)
    fun _ _ _ h => (finishRun_tenant h).trans ht

/-! ### Steps outside the catalog -/

theorem tryRelational_keeps {call : Source.RelationalCall α} :
    (tryRelational call).Keeps J fun _ => True :=
  Step.Keeps.bind Step.Keeps.get fun _ hw =>
    Step.Keeps.bind (Step.Keeps.set hw) fun _ _ => Step.Keeps.pure trivial

theorem inRelational_keeps {call : Source.RelationalCall α} :
    (inRelational call).Keeps J fun _ => True :=
  Step.Keeps.bind tryRelational_keeps fun _ _ => Step.Keeps.ofExcept fun _ _ => trivial

theorem tryObjects_keeps {call : Storage.ConnectorCall α} :
    (tryObjects call).Keeps J fun _ => True :=
  Step.Keeps.bind Step.Keeps.get fun _ hw =>
    Step.Keeps.bind (Step.Keeps.set hw) fun _ _ => Step.Keeps.pure trivial

theorem inObjects_keeps {call : Storage.ConnectorCall α} :
    (inObjects call).Keeps J fun _ => True :=
  Step.Keeps.bind tryObjects_keeps fun _ _ => Step.Keeps.ofExcept fun _ _ => trivial

theorem acquire_keeps {k : SubtreeKey} : (acquire k).Keeps J fun _ => True :=
  Step.Keeps.bind Step.Keeps.get fun _ _ =>
    Step.Keeps.bind (Step.Keeps.ofExcept fun _ _ => trivial) fun _ _ =>
      Step.Keeps.update_off fun _ => rfl

theorem releaseGuard_keeps {k : SubtreeKey} : (releaseGuard k).Keeps J fun _ => True :=
  Step.Keeps.update_off fun _ => rfl

/-- A guarded body keeps what the body keeps: the guard lives outside the catalog. -/
theorem guarded_keeps {k : SubtreeKey} {body : Step α} (h : body.Keeps J Q) :
    (guarded k body).Keeps J Q :=
  Step.Keeps.bind acquire_keeps fun _ _ =>
    Step.Keeps.bind (Step.Keeps.tryCatch h fun _ =>
      Step.Keeps.bind releaseGuard_keeps fun _ _ => Step.Keeps.throw) fun _ ha =>
      Step.Keeps.bind releaseGuard_keeps fun _ _ => Step.Keeps.pure ha

/-- A connection is relational only for a relational kind. -/
theorem connect_keeps {d : Connect.Descriptor} :
    (connect d).Keeps J fun conn => ∀ k, conn = .relational k → k.family = .relational := by
  unfold connect
  refine Step.Keeps.bind (Step.Keeps.update_off fun _ => rfl) fun _ _ => ?_
  refine Step.Keeps.bind Step.Keeps.get fun w _ => ?_
  rcases w.connectFailure with _ | e
  · rcases hfam : d.kind.family
    · exact Step.Keeps.bind (Step.Keeps.ofExcept fun _ _ => trivial) fun _ _ =>
        Step.Keeps.pure fun k hk => by cases hk; exact hfam
    · exact Step.Keeps.bind (Step.Keeps.ofExcept fun _ _ => trivial) fun _ _ =>
        Step.Keeps.bind (Step.Keeps.update_off fun _ => rfl) fun _ _ =>
          Step.Keeps.pure fun _ hk => by cases hk
  · exact Step.Keeps.bind (Q := fun _ => False) Step.Keeps.throw fun _ h => h.elim

theorem close_keeps {conn : Connection} : conn.close.Keeps J fun _ => True := by
  cases conn with
  | relational k => exact Step.Keeps.update_off fun _ => rfl
  | objectStorage => exact Step.Keeps.pure trivial

/-- Steps that each keep `J` keep it when run side by side. -/
theorem interleaved_keeps {slots : Nat} {steps : List (Step α)}
    (h : ∀ s ∈ steps, s.Keeps J fun _ => True) :
    (Step.interleaved slots steps).Keeps J fun _ => True := by
  refine Turns.Keeps.bind (Q := fun _ => True)
    (Turns.Keeps.step fun w hw => ⟨?_, Turns.Keeps.pure trivial⟩)
    fun _ _ => Turns.Keeps.pure fun _ _ => trivial
  refine interleave_keeps (I := fun w : World => J w.catalog) (Q := OnOk fun _ => True)
    (fun _ _ hs => hs) _ _ _ (fun t ht => ?_) hw
  obtain ⟨s, hs, rfl⟩ := List.mem_map.1 ht
  exact h s hs

end Blocks

end DataCatalog.Scan
