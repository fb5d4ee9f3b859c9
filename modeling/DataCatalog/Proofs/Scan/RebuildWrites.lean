import Mathlib
import DataCatalog.Proofs.Scan.Moves
import DataCatalog.Proofs.Scan.Placement
/-!
# The writes of a subtree rebuild

A rebuild clears the subtree of its target and writes it again from a walk of the object
store: the target by its own key, the prefixes of each walked path one below the other, each
object as an item of the prefix of its directory, and last the finish of every prefix it
tracked. What a discipline of writes `W` must admit for a rebuild to change the catalog only by
its writes is said once here (`RebuildRules`): a fact `G` of the catalog, and a fact `E` of each
entry the rebuild tracks (a relative path and the node written for it), both kept by admitted
writes, under which each of those writes is admitted. The rebuild then moves the catalog only
by admitted writes (`replaceObjects_moves`). The scans of one tenant, the reconcilers of one
subtree and the rebuild of one root each prove their rules and take the rebuild from here. The
tables of a relational namespace are rebuilt the same way, by a clear and one item write per
table (`replaceTables_moves`).
-/

namespace DataCatalog.Scan

open DataCatalog.Catalog DataCatalog.Ident DataCatalog.Storage

/-- Each segment of an unreserved path is itself unreserved. -/
theorem unreserved_of_mem_splitOn {x s : String} (h : Unreserved x)
    (hs : s ∈ Text.splitOn '/' x) : Unreserved s := by
  obtain ⟨cs, hcs, rfl⟩ := List.mem_map.1 hs
  intro seg hseg
  simp only [Text.splitOn, String.toList_ofList,
    Text.splitList_of_not_mem (Text.not_mem_of_mem_splitList hcs), List.map_cons, List.map_nil,
    List.mem_singleton] at hseg
  rw [hseg]
  exact h _ hs

/-- Setting an entry keeps a property of the entries that the new entry has. -/
theorem forall_mem_setEntry_pair {β : Type} {p : String × β → Prop} {k : String} {v : β}
    (hv : p (k, v)) : ∀ {l : List (String × β)}, (∀ e ∈ l, p e) → ∀ e ∈ setEntry k v l, p e
  | [], _ => List.forall_mem_cons.2 ⟨hv, fun _ h => absurd h List.not_mem_nil⟩
  | (k', w) :: rest, h => by
    obtain ⟨he, hrest⟩ := List.forall_mem_cons.1 h
    unfold setEntry
    split
    · rename_i hk
      rw [beq_iff_eq] at hk
      exact List.forall_mem_cons.2 ⟨hk ▸ hv, hrest⟩
    · exact List.forall_mem_cons.2 ⟨he, forall_mem_setEntry_pair hv hrest⟩

/-- What a rebuild of `target`, walked from `base`, asks of the writes `W` admits: `G` holds of
the catalog and `E` of each entry the rebuild tracks, admitted runs of writes keep both, and
each write the rebuild makes is admitted where they hold. -/
structure RebuildRules (W : StoreOp → Tables → Prop) (G : Tables → Prop)
    (E : String × NodeRow → Tables → Prop) (target : NodeRow) (base : String) : Prop where
  kept : Tables.Kept W G
  kept_entry : ∀ e, Tables.Kept W (E e)
  /-- The rebuild starts with the target as the entry of `base`. -/
  root : ∀ c, G c → E (base, target) c
  /-- The target's subtree is cleared. -/
  clear : ∀ c, G c → W (.clearSubtree target.tenant target.id) c
  /-- The target is written again by its own key, as the entry of `base`. -/
  rewrite : ∀ a, (writeNode ⟨target.tenant, target.resource, target.parent, target.kind,
    target.name, a⟩).Moves W G fun node => E (base, node)
  /-- A prefix is written by an unreserved segment below a tracked node, and tracked. -/
  child : ∀ cur par s a, Unreserved s →
    (writeNode ⟨par.tenant, par.resource, some par.id, .keyPrefix, s, a⟩).Moves W
      (fun c => G c ∧ E (cur, par) c) fun node => E (joinRel cur s, node)
  /-- An object of an unreserved path is written as an item of a tracked node. -/
  item : ∀ e (r : ObjectRecord) c, Unreserved r.relativePath → E e c →
    W (.upsertItem (objectItem e.2 r)) c
  /-- A tracked node other than the entry of `base` is finished. -/
  finish : ∀ e a c, e.1 ≠ base → E e c → W (.finishNodeScan e.2.tenant e.2.id a) c

variable {W : StoreOp → Tables → Prop} {G : Tables → Prop}
  {E : String × NodeRow → Tables → Prop} {target : NodeRow} {base : String}

namespace RebuildRules

variable (R : RebuildRules W G E target base)
include R

theorem kept_tracked (tracked : List (String × NodeRow)) :
    Tables.Kept W fun c => ∀ e ∈ tracked, E e c :=
  fun _ _ h ht e he => R.kept_entry e _ _ h (ht e he)

/-- The node a walk ends at is tracked under some path; admitted writes keep that. -/
theorem kept_node (n : NodeRow) : Tables.Kept W fun c => ∃ key, E (key, n) c :=
  fun _ _ h ⟨key, he⟩ => ⟨key, R.kept_entry _ _ _ h he⟩

end RebuildRules

section Rebuild

variable (R : RebuildRules W G E target base)
include R

theorem walkSegments_moves (rel : String) (attrs : Option NodeAttributes) :
    ∀ (segs : List String) (tracked : List (String × NodeRow)) (cur : String) (par : NodeRow)
      {P : Tables → Prop}, Tables.Kept W P →
      (∀ c, P c → G c ∧ (∀ e ∈ tracked, E e c) ∧ E (cur, par) c) →
      (∀ s ∈ segs, Unreserved s) →
      (walkSegments rel attrs tracked cur par segs).Moves W P
        fun (r : NodeRow × List (String × NodeRow)) c =>
          (∃ key, E (key, r.1) c) ∧ ∀ e ∈ r.2, E e c
  | [], _, cur, _, _, _, hk, _ =>
    Step.Moves.pure fun c hc => ⟨⟨cur, (hk c hc).2.2⟩, (hk c hc).2.1⟩
  | s :: rest, tracked, cur, par, P, hP, hk, hsegs => by
    have hrest := fun x hx => hsegs x (List.mem_cons_of_mem _ hx)
    -- the child is written below the tracked parent and tracked; the walk goes on below it
    have hwrite : ∀ a, (do
        let node ← writeNode ⟨par.tenant, par.resource, some par.id, .keyPrefix, s, a⟩
        walkSegments rel attrs (setEntry (joinRel cur s) node tracked) (joinRel cur s) node
          rest).Moves W P fun (r : NodeRow × List (String × NodeRow)) c =>
            (∃ key, E (key, r.1) c) ∧ ∀ e ∈ r.2, E e c := fun a =>
      Step.Moves.bind_kept hP ((R.child cur par s a (hsegs s List.mem_cons_self)).mono
          (fun c hc => ⟨(hk c hc).1, (hk c hc).2.2⟩) fun _ _ h => h) fun node =>
        walkSegments_moves rel attrs rest _ _ node (hP.and (R.kept_entry _))
          (fun c ⟨hc, hn⟩ => ⟨(hk c hc).1, forall_mem_setEntry_pair hn (hk c hc).2.1, hn⟩) hrest
    unfold walkSegments
    dsimp only
    split
    · rename_i existing hl
      split
      · exact walkSegments_moves rel attrs rest tracked _ existing hP
          (fun c hc => ⟨(hk c hc).1, (hk c hc).2.1, (hk c hc).2.1 _ (mem_of_lookup hl)⟩) hrest
      · exact hwrite _
    · exact hwrite _

theorem ensurePrefix_moves {P : Tables → Prop} (hP : Tables.Kept W P)
    {tracked : List (String × NodeRow)} {rel : String} {attrs : Option NodeAttributes}
    (hk : ∀ c, P c → G c ∧ ∀ e ∈ tracked, E e c) (hrel : Unreserved rel)
    (hw : isWithin base rel = true) :
    (ensurePrefix tracked base rel attrs).Moves W P
      fun (r : NodeRow × List (String × NodeRow)) c =>
        (∃ key, E (key, r.1) c) ∧ ∀ e ∈ r.2, E e c := by
  unfold ensurePrefix
  split
  · rename_i root hl
    split
    · exact Step.Moves.pure fun c hc => ⟨⟨base, (hk c hc).2 _ (mem_of_lookup hl)⟩, (hk c hc).2⟩
    · exact walkSegments_moves R rel attrs _ tracked base root hP
        (fun c hc => ⟨(hk c hc).1, (hk c hc).2, (hk c hc).2 _ (mem_of_lookup hl)⟩) fun _ hs =>
          unreserved_of_mem_splitOn (hrel.walkSuffix hw) hs
  · exact Step.Moves.throw

theorem placeRecord_moves {P : Tables → Prop} (hP : Tables.Kept W P) {p : Placement}
    (hk : ∀ c, P c → G c ∧ ∀ e ∈ p.tracked, E e c) (bucket : String) (record : ObjectRecord) :
    (placeRecord target bucket base p record).Moves W P fun p' c => ∀ e ∈ p'.tracked, E e c := by
  have hkeep : (pure p : Step Placement).Moves W P fun p' c => ∀ e ∈ p'.tracked, E e c :=
    Step.Moves.pure fun c hc => (hk c hc).2
  -- the target is written again by its own key, as the entry of `base`
  have hrewrite : ∀ a, (do
      let updated ← writeNode ⟨target.tenant, target.resource, target.parent, target.kind,
        target.name, a⟩
      return { p with tracked := setEntry base updated p.tracked } : Step Placement).Moves W P
        fun p' c => ∀ e ∈ p'.tracked, E e c := fun a =>
    Step.Moves.bind_kept hP ((R.rewrite a).mono (fun c hc => (hk c hc).1) fun _ _ h => h)
      fun _ => Step.Moves.pure fun c ⟨hc, hn⟩ => forall_mem_setEntry_pair hn (hk c hc).2
  unfold placeRecord
  dsimp only
  rw [collapseEmptySegments_eq_normalizeKey]
  split
  · exact Step.Moves.pure fun c hc => (hk c hc).2
  rename_i hres
  have hrel : Unreserved (normalizeKey record.relativePath) :=
    hasReservedSegment_eq_false_iff.1 (by simpa using hres)
  split
  · exact hkeep
  rename_i hin
  have hw : isWithin base (normalizeKey record.relativePath) = true := by
    simp only [Bool.or_eq_true, bne_iff_ne, ne_eq, Bool.not_eq_eq_eq_not, Bool.not_true,
      not_or] at hin
    simpa using hin.2
  split
  · -- a bucket's own record rewrites the target when the walk is of the whole bucket
    split
    · exact hrewrite _
    · exact hkeep
  · -- a prefix record rewrites the target or writes the chain down to the prefix
    split
    · exact hkeep
    split
    · exact hrewrite _
    · exact Step.Moves.bind (ensurePrefix_moves R hP hk hrel hw)
        fun _ => Step.Moves.pure fun _ h => h.2
  · -- an object is written as an item of the prefix of its directory, which the walk tracks
    split
    · exact hkeep
    rename_i hdir
    refine Step.Moves.bind (ensurePrefix_moves R hP hk hrel.parentDir (by simpa using hdir))
      fun ⟨parent, tracked⟩ => ?_
    have hkept := (R.kept_node parent).and (R.kept_tracked tracked)
    -- the record's path is read off by `dsimp`; unification would unfold `normalizeKey` first
    refine Step.Moves.bind_kept hkept (admittedOp_moves (.upsertItem _) hkept
      (fun c ⟨⟨key, hn⟩, _⟩ => R.item (key, parent) _ c (by dsimp only; exact hrel) hn)
      fun _ => rfl) fun _ => ?_
    exact Step.Moves.pure fun _ h => h.1.2

theorem placeRecords_moves (bucket : String) :
    ∀ (p : Placement) (records : List ObjectRecord) {P : Tables → Prop}, Tables.Kept W P →
      (∀ c, P c → G c ∧ ∀ e ∈ p.tracked, E e c) →
      (placeRecords target bucket base p records).Moves W P fun p' c => ∀ e ∈ p'.tracked, E e c
  | _, [], _, _, hk => Step.Moves.pure fun c hc => (hk c hc).2
  | _, r :: rest, _, hP, hk =>
    Step.Moves.bind_kept hP (placeRecord_moves R hP hk bucket r) fun p' =>
      placeRecords_moves bucket p' rest (hP.and (R.kept_tracked _))
        fun c ⟨hc, hp'⟩ => ⟨(hk c hc).1, hp'⟩

theorem finishPrefixes_moves (totals : List (String × Aggregate)) :
    ∀ (tracked : List (String × NodeRow)) {P : Tables → Prop}, Tables.Kept W P →
      (∀ c, P c → ∀ e ∈ tracked, E e c) →
      (finishPrefixes base totals tracked).Moves W P fun _ _ => True
  | [], _, _, _ => Step.Moves.pure fun _ _ => trivial
  | (rel, node) :: rest, P, hP, hk => by
    have hrest : ∀ c, P c → ∀ e ∈ rest, E e c :=
      fun c hc e he => hk c hc e (List.mem_cons_of_mem _ he)
    unfold finishPrefixes
    dsimp only
    split
    · rename_i hne
      refine Step.Moves.bind (Step.Moves.keeping hP (admittedOp_moves (.finishNodeScan _ _ _) hP
        (fun c hc => R.finish _ _ c (bne_iff_ne.1 hne) (hk c hc _ List.mem_cons_self))
        fun _ => rfl)) fun _ => finishPrefixes_moves totals rest hP hrest
    · exact finishPrefixes_moves totals rest hP hrest

/-- A rebuild changes the catalog only by writes its rules admit. -/
theorem replaceObjects_moves {P : Tables → Prop} (hP : Tables.Kept W P) (hG : ∀ c, P c → G c)
    (walked : Option (List ObjectRecord)) :
    (replaceObjects target base walked).Moves W P fun _ _ => True := by
  unfold replaceObjects
  refine Step.Moves.bind (Step.Moves.keeping hP (admittedOp_moves (.clearSubtree _ _) hP
    (fun c hc => R.clear c (hG c hc)) fun _ => rfl)) fun _ => ?_
  dsimp only
  -- the walk is given or made now; the rebuild from it is the same
  have hrebuild : ∀ (bucket : String) (records : List ObjectRecord), (do
      let p ← placeRecords target bucket base ⟨[(base, target)], [], {}⟩ records
      finishPrefixes base p.totals p.tracked
      pure ((p.totals.lookup base).getD {}, p.counts) : Step (Aggregate × ScanCounts)).Moves W P
        fun _ _ => True := fun bucket records =>
    Step.Moves.bind (placeRecords_moves R bucket _ records hP fun c hc =>
      ⟨hG c hc, List.forall_mem_singleton.2 (R.root c (hG c hc))⟩) fun _ =>
      Step.Moves.bind (finishPrefixes_moves R _ _ (R.kept_tracked _) fun _ h => h)
        fun _ => Step.Moves.pure fun _ _ => trivial
  split
  · exact hrebuild _ _
  · exact Step.Moves.bind_kept hP inObjects_moves fun records =>
      (hrebuild _ records).mono (fun _ h => h.1) fun _ _ h => h

end Rebuild

/-! ## Rebuilding the tables of a namespace -/

section Tables

variable {P : Tables → Prop} {node : NodeRow}

theorem recordTables_moves (hP : Tables.Kept W P)
    (hitem : ∀ c, P c → ∀ t fields, W (.upsertItem (tableItem node t fields)) c) :
    ∀ (tables : List Source.TableSummary) (agg : Aggregate) (counts : ScanCounts),
      (recordTables node tables agg counts).Moves W P fun _ _ => True
  | [], _, _ => Step.Moves.pure fun _ _ => trivial
  | t :: rest, _, _ => by
    unfold recordTables
    refine Step.Moves.bind (Step.Moves.keeping hP tryRelational_moves) fun r => ?_
    rcases r with e | fields
    · -- a table whose columns cannot be read is skipped; a lost connection ends the pass
      dsimp only
      split
      · exact Step.Moves.throw
      · exact recordTables_moves hP hitem rest _ _
    · exact Step.Moves.bind (Step.Moves.keeping hP (admittedOp_moves (.upsertItem _) hP
        (fun c hc => hitem c hc t fields) fun _ => rfl)) fun _ =>
        recordTables_moves hP hitem rest _ _

/-- A namespace's tables are rebuilt by clearing its node's subtree and writing an item below
the node for each table read. -/
theorem replaceTables_moves (hP : Tables.Kept W P)
    (hclear : ∀ c, P c → W (.clearSubtree node.tenant node.id) c)
    (hitem : ∀ c, P c → ∀ t fields, W (.upsertItem (tableItem node t fields)) c) :
    (replaceTables node).Moves W P fun _ _ => True :=
  Step.Moves.bind (Step.Moves.keeping hP (admittedOp_moves (.clearSubtree _ _) hP hclear
    fun _ => rfl)) fun _ =>
    Step.Moves.bind (Step.Moves.keeping hP inRelational_moves) fun tables =>
      recordTables_moves hP hitem tables {} {}

end Tables

/-! ## The pass over a subtree -/

section Pass

open DataCatalog.Connect DataCatalog.Source

variable {P : Tables → Prop}

/-- A pass over the subtree of node `id` of `tenant` with the rebuild `body`: the node is marked
as being scanned and rebuilt, then marked scanned with the rebuilt aggregate or, when the rebuild
failed, marked failed before the error is passed on. -/
def subtreePass (tenant : TenantId) (id : NodeId) (body : Step (Aggregate × ScanCounts)) :
    Step ScanCounts := do
  inCatalog (beginNodeScan tenant id)
  match ← Step.attempt body with
  | .ok (agg, counts) =>
    inCatalog (finishNodeScan tenant id agg)
    pure { counts with namespaces := 1 }
  | .error e =>
    markFailed tenant id e.message
    throw e

theorem reconcileSubtree_eq (target : NodeRow) (base : String)
    (walked : Option (List ObjectRecord)) :
    reconcileSubtree target base walked =
      subtreePass target.tenant target.id (replaceObjects target base walked) := rfl

theorem reconcileSchema_eq (resource : ResourceRow) (kind : ResourceKind)
    (schema : SchemaSummary) :
    reconcileSchema resource kind schema =
      (writeNode ⟨resource.tenant, resource.id, none, kind.namespaceKind, schema.name,
          some (.namespaceInfo schema.tableCount schema.sizeBytes schema.charset
            schema.collation)⟩ >>= fun node =>
        subtreePass resource.tenant node.id (replaceTables node)) := rfl

/-- What `W` must admit at `c` of the stamps a pass makes on the node `id` of `tenant`: the
begin of its scan, its finish with any aggregate, and its failure with any message. -/
structure AdmitsStamps (W : StoreOp → Tables → Prop) (tenant : TenantId) (id : NodeId)
    (c : Tables) : Prop where
  begin : W (.beginNodeScan tenant id) c
  finish : ∀ a, W (.finishNodeScan tenant id a) c
  fail : ∀ e, W (.failNodeScan tenant id e) c

theorem markFailed_moves {t : TenantId} {id : NodeId} {e : String} (hP : Tables.Kept W P)
    (hfail : ∀ c, P c → W (.failNodeScan t id e) c) :
    (markFailed t id e).Moves W P fun _ _ => True :=
  Step.Moves.bind (Step.Moves.attempt hP
    (admittedOp_moves (.failNodeScan t id e) hP hfail fun _ => rfl)) fun _ =>
    Step.Moves.pure fun _ _ => trivial

/-- A pass over a subtree changes the catalog only by admitted writes when its rebuild does and
its stamps on the subtree's node are admitted. -/
theorem subtreePass_moves {tenant : TenantId} {id : NodeId} {body : Step (Aggregate × ScanCounts)}
    (hP : Tables.Kept W P) (hs : ∀ c, P c → AdmitsStamps W tenant id c)
    (hbody : body.Moves W P fun _ _ => True) :
    (subtreePass tenant id body).Moves W P fun _ _ => True := by
  unfold subtreePass
  refine Step.Moves.bind (Step.Moves.keeping hP (admittedOp_moves (.beginNodeScan _ _) hP
    (fun c hc => (hs c hc).begin) fun _ => rfl)) fun _ => ?_
  refine Step.Moves.bind_kept hP (Step.Moves.attempt hP hbody) fun r => ?_
  have hP' : Tables.Kept W fun c => P c ∧ ∀ a, r = .ok a → True := hP.and (Tables.kept_const _)
  rcases r with e | ⟨agg, counts⟩
  · exact Step.Moves.bind (markFailed_moves hP' fun c hc => (hs c hc.1).fail _) fun _ =>
      Step.Moves.throw
  · exact Step.Moves.bind (admittedOp_moves (.finishNodeScan _ _ _) hP'
      (fun c hc => (hs c hc.1).finish _) fun _ => rfl) fun _ => Step.Moves.pure fun _ _ => trivial

end Pass

end DataCatalog.Scan
