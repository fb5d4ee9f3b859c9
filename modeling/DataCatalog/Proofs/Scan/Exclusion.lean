import Mathlib
import DataCatalog.Proofs.Scan.Guards
import DataCatalog.Proofs.Schedule.ThreadLocks
import DataCatalog.Proofs.Scan.Sessions
/-!
# Subtree mutual exclusion

At most one reconciliation runs against a root namespace at a time. Here every scan request,
and every pass of a discovery run, is shown to take guards only as `Turns.Holds` allows: the
reconcilers never touch the guards, a request or a pass gives back every guard it takes by the
time it returns, and a dispatch and a supervisor take none (`scanRuntime_holds`). Served as
threads of the service's runtime, the requests and the passes they fork are then the
computations of `Runtime.Holds.exclusive`: along every run, however their turns interleave, no
guard is ever credited to two of them, and a body under `guarded` or `reconcileGuarded` runs
credited with its key, so no two passes over one key are ever in progress together.

A caller that finds its key held touches nothing: the guarded step fails in the turn it
starts, before its body (`guarded_busy`, `reconcileGuarded_busy`), and a retirement returns.
-/

namespace DataCatalog.Scan

open DataCatalog.Schedule DataCatalog.Catalog DataCatalog.Connect DataCatalog.Source
  DataCatalog.Storage DataCatalog.Ident

/-! ## Reconcilers never touch the guards -/

theorem walkSegments_fixed (rel : String) (attrs : Option NodeAttributes) :
    ∀ (tracked : List (String × NodeRow)) (cur : String) (par : NodeRow) (segs : List String),
      (walkSegments rel attrs tracked cur par segs).Fixed
  | _, _, _, [] => Step.Fixed.pure
  | tracked, cur, par, s :: rest => by
    unfold walkSegments
    dsimp only
    split
    · split
      · exact walkSegments_fixed rel attrs _ _ _ rest
      · exact Step.Fixed.bind writeNode_fixed fun node => walkSegments_fixed rel attrs _ _ node rest
    · exact Step.Fixed.bind writeNode_fixed fun node => walkSegments_fixed rel attrs _ _ node rest

theorem ensurePrefix_fixed {tracked : List (String × NodeRow)} {base rel : String}
    {attrs : Option NodeAttributes} : (ensurePrefix tracked base rel attrs).Fixed := by
  unfold ensurePrefix
  split
  · split
    · exact Step.Fixed.pure
    · exact walkSegments_fixed _ _ _ _ _ _
  · exact Step.Fixed.throw

theorem markFailed_fixed {t : TenantId} {id : NodeId} {e : String} : (markFailed t id e).Fixed :=
  Step.Fixed.bind (Step.Fixed.attempt inCatalog_fixed) fun _ => Step.Fixed.pure

theorem placeRecord_fixed {target : NodeRow} {p : Placement} (bucket base : String)
    (record : ObjectRecord) : (placeRecord target bucket base p record).Fixed := by
  unfold placeRecord
  dsimp only
  split
  · exact Step.Fixed.pure
  split
  · exact Step.Fixed.pure
  split
  · split
    · exact Step.Fixed.bind writeNode_fixed fun _ => Step.Fixed.pure
    · exact Step.Fixed.pure
  · split
    · exact Step.Fixed.pure
    split
    · exact Step.Fixed.bind writeNode_fixed fun _ => Step.Fixed.pure
    · exact Step.Fixed.bind ensurePrefix_fixed fun _ => Step.Fixed.pure
  · split
    · exact Step.Fixed.pure
    · exact Step.Fixed.bind ensurePrefix_fixed fun _ =>
        Step.Fixed.bind writeItem_fixed fun _ => Step.Fixed.pure

theorem placeRecords_fixed {target : NodeRow} (bucket base : String) :
    ∀ (p : Placement) (records : List ObjectRecord),
      (placeRecords target bucket base p records).Fixed
  | _, [] => Step.Fixed.pure
  | _, r :: rest => Step.Fixed.bind (placeRecord_fixed bucket base r) fun p' =>
      placeRecords_fixed bucket base p' rest

theorem finishPrefixes_fixed (base : String) (totals : List (String × Aggregate)) :
    ∀ tracked : List (String × NodeRow), (finishPrefixes base totals tracked).Fixed
  | [] => Step.Fixed.pure
  | (rel, node) :: rest => by
    unfold finishPrefixes
    dsimp only
    split
    · exact Step.Fixed.bind inCatalog_fixed fun _ => finishPrefixes_fixed base totals rest
    · exact finishPrefixes_fixed base totals rest

theorem replaceObjects_fixed {target : NodeRow} {base : String}
    {walked : Option (List ObjectRecord)} : (replaceObjects target base walked).Fixed := by
  unfold replaceObjects
  refine Step.Fixed.bind clearNode_fixed fun _ => ?_
  dsimp only
  -- the walk is given or made now; the rebuild from it is the same
  have hrebuild : ∀ (bucket : String) (records : List ObjectRecord), (do
      let p ← placeRecords target bucket base ⟨[(base, target)], [], {}⟩ records
      finishPrefixes base p.totals p.tracked
      pure ((p.totals.lookup base).getD {}, p.counts) : Step (Aggregate × ScanCounts)).Fixed :=
    fun bucket records => Step.Fixed.bind (placeRecords_fixed bucket base _ records) fun _ =>
      Step.Fixed.bind (finishPrefixes_fixed base _ _) fun _ => Step.Fixed.pure
  split
  · exact hrebuild _ _
  · exact Step.Fixed.bind inObjects_fixed fun records => hrebuild _ records

theorem reconcileSubtree_fixed {target : NodeRow} {base : String}
    {walked : Option (List ObjectRecord)} : (reconcileSubtree target base walked).Fixed := by
  unfold reconcileSubtree
  refine Step.Fixed.bind inCatalog_fixed fun _ =>
    Step.Fixed.bind (Step.Fixed.attempt replaceObjects_fixed) fun r => ?_
  rcases r with e | ⟨agg, counts⟩
  · exact Step.Fixed.bind markFailed_fixed fun _ => Step.Fixed.throw
  · exact Step.Fixed.bind inCatalog_fixed fun _ => Step.Fixed.pure

theorem chainFrom_fixed : ∀ (parent : NodeRow) (segs : List String), (chainFrom parent segs).Fixed
  | _, [] => Step.Fixed.pure
  | _, _ :: rest => Step.Fixed.bind writeNode_fixed fun node =>
      Step.Fixed.bind (chainFrom_fixed node rest) fun _ => Step.Fixed.pure

theorem ensureChain_fixed {bucketNode : NodeRow} {rel : String} :
    (ensureChain bucketNode rel).Fixed :=
  Step.Fixed.bind (chainFrom_fixed _ _) fun _ => Step.Fixed.pure

theorem rollUp_fixed {chain : List NodeRow} : (rollUp chain).Fixed :=
  Step.Fixed.forM fun _ _ => Step.Fixed.bind inCatalog_fixed fun _ => inCatalog_fixed

theorem refreshObject_fixed {bucketNode : NodeRow} {record : ObjectRecord} :
    (refreshObject bucketNode record).Fixed :=
  Step.Fixed.bind ensureChain_fixed fun _ => Step.Fixed.bind writeItem_fixed fun _ =>
    Step.Fixed.bind rollUp_fixed fun _ => Step.Fixed.pure

theorem pruneEmpty_fixed : ∀ (chain : List NodeRow) (n : Nat), (pruneEmpty chain n).Fixed
  | [], _ => Step.Fixed.pure
  | [_], _ => Step.Fixed.pure
  | _ :: next :: rest, n => by
    unfold pruneEmpty
    refine Step.Fixed.bind readCatalog_fixed fun _ =>
      Step.Fixed.bind readCatalog_fixed fun _ => ?_
    split
    · exact Step.Fixed.bind retireCatalogNode_fixed fun _ => pruneEmpty_fixed (next :: rest) (n + 1)
    · exact Step.Fixed.pure

theorem prefixChain_fixed : ∀ (parent : NodeRow) (segs : List String), (prefixChain parent segs).Fixed
  | _, [] => Step.Fixed.pure
  | _, _ :: rest => by
    unfold prefixChain
    refine Step.Fixed.bind readCatalog_fixed fun o => ?_
    rcases o with _ | node
    · exact Step.Fixed.pure
    · exact Step.Fixed.bind (prefixChain_fixed node rest) fun _ => Step.Fixed.pure

theorem forgetPath_fixed {bucketNode : NodeRow} {key : String} :
    (forgetPath bucketNode key).Fixed := by
  unfold forgetPath
  refine Step.Fixed.bind (prefixChain_fixed _ _) fun r => ?_
  rcases r with _ | below
  · exact Step.Fixed.pure
  refine Step.Fixed.bind inCatalog_fixed fun _ => Step.Fixed.bind readCatalog_fixed fun o => ?_
  rcases o with _ | node <;> dsimp only
  on_goal 2 => refine Step.Fixed.bind retireCatalogNode_fixed fun _ => ?_
  -- with a prefix retired or not, the emptied prefixes are pruned and what remains recomputed
  all_goals
    refine Step.Fixed.bind Step.Fixed.pure fun _ => ?_
    refine Step.Fixed.bind (pruneEmpty_fixed _ 0) fun p => ?_
    rcases p with ⟨kept, pruned⟩
    dsimp only
    split
    · exact Step.Fixed.bind rollUp_fixed fun _ => Step.Fixed.pure
    · exact Step.Fixed.pure

theorem reconcileObjectPath_fixed {resource : ResourceRow} {path : String} :
    (reconcileObjectPath resource path).Fixed := by
  unfold reconcileObjectPath
  split
  swap
  · exact Step.Fixed.throw
  split
  · exact Step.Fixed.pure
  refine Step.Fixed.bind writeNode_fixed fun bucketNode => ?_
  split
  · exact reconcileSubtree_fixed
  refine Step.Fixed.bind inObjects_fixed fun records => ?_
  split
  · exact refreshObject_fixed
  · exact forgetPath_fixed
  · exact Step.Fixed.bind ensureChain_fixed fun _ => Step.Fixed.bind reconcileSubtree_fixed fun _ =>
      Step.Fixed.bind rollUp_fixed fun _ => Step.Fixed.pure

theorem recordTables_fixed {node : NodeRow} :
    ∀ (tables : List TableSummary) (agg : Aggregate) (counts : ScanCounts),
      (recordTables node tables agg counts).Fixed
  | [], _, _ => Step.Fixed.pure
  | t :: rest, _, _ => by
    unfold recordTables
    refine Step.Fixed.bind tryRelational_fixed fun r => ?_
    rcases r with e | fields
    · dsimp only
      split
      · exact Step.Fixed.throw
      · exact recordTables_fixed rest _ _
    · exact Step.Fixed.bind writeItem_fixed fun _ => recordTables_fixed rest _ _

theorem replaceTables_fixed {node : NodeRow} : (replaceTables node).Fixed :=
  Step.Fixed.bind clearNode_fixed fun _ => Step.Fixed.bind inRelational_fixed fun tables =>
    recordTables_fixed tables {} {}

theorem reconcileSchema_fixed {resource : ResourceRow} {kind : ResourceKind}
    {schema : SchemaSummary} : (reconcileSchema resource kind schema).Fixed := by
  unfold reconcileSchema
  refine Step.Fixed.bind writeNode_fixed fun node => Step.Fixed.bind inCatalog_fixed fun _ =>
    Step.Fixed.bind (Step.Fixed.attempt replaceTables_fixed) fun r => ?_
  rcases r with e | ⟨agg, counts⟩
  · exact Step.Fixed.bind markFailed_fixed fun _ => Step.Fixed.throw
  · exact Step.Fixed.bind inCatalog_fixed fun _ => Step.Fixed.pure

theorem reconcileTable_fixed {resource : ResourceRow} {kind : ResourceKind} {schema table : String} :
    (reconcileTable resource kind schema table).Fixed := by
  unfold reconcileTable
  dsimp only
  refine Step.Fixed.bind readCatalog_fixed fun o => ?_
  rcases o with _ | node
  · exact Step.Fixed.throw
  refine Step.Fixed.bind inRelational_fixed fun _ => ?_
  -- the table is written again or removed; the namespace's aggregates are then recomputed
  have hrecompute : ∀ counts : ScanCounts, (do
      let agg ← inCatalog (sumChildren resource.tenant node.id)
      inCatalog (setNodeAggregate resource.tenant node.id agg)
      pure counts : Step ScanCounts).Fixed := fun _ =>
    Step.Fixed.bind inCatalog_fixed fun _ => Step.Fixed.bind inCatalog_fixed fun _ =>
      Step.Fixed.pure
  split
  · exact Step.Fixed.bind inRelational_fixed fun _ => Step.Fixed.bind inCatalog_fixed fun _ =>
      Step.Fixed.bind writeItem_fixed fun _ => Step.Fixed.bind Step.Fixed.pure hrecompute
  · exact Step.Fixed.bind inCatalog_fixed fun _ => Step.Fixed.bind inCatalog_fixed fun _ =>
      Step.Fixed.bind Step.Fixed.pure hrecompute

/-! ## Passes give back their guards -/

section Passes

variable {resource : ResourceRow} {H : Set SubtreeKey}

theorem retireVanished_givesBack (kind : NodeKind) (present : List String) :
    ∀ roots : List NodeRow, (retireVanished resource kind present roots).GivesBack H
  | [] => Step.GivesBack.of_fixed Step.Fixed.pure
  | _ :: rest => by
    unfold retireVanished
    dsimp only
    split
    · exact Step.GivesBack.bind (retireNamespace_givesBack _ _ _ H) fun _ =>
        retireVanished_givesBack kind present rest
    · exact retireVanished_givesBack kind present rest

theorem chooseNamed_givesBack (kind : NodeKind) (present : List String) :
    ∀ chosen requested : List String, (chooseNamed resource kind present chosen requested).GivesBack H
  | _, [] => Pass.GivesBack.pure
  | chosen, name :: rest => by
    unfold chooseNamed
    split
    · exact chooseNamed_givesBack kind present chosen rest
    split
    · exact chooseNamed_givesBack kind present _ rest
    · exact Pass.GivesBack.bind Pass.GivesBack.skip fun _ =>
        Pass.GivesBack.bind (Pass.GivesBack.lift (retireNamespace_givesBack _ _ _ H)) fun _ =>
          chooseNamed_givesBack kind present chosen rest

theorem selectNamespaces_givesBack (kind : NodeKind) (present : List String) :
    ∀ selection, (selectNamespaces resource kind present selection).GivesBack H
  | .refresh [] =>
    Pass.GivesBack.bind (Pass.GivesBack.lift_fixed readCatalog_fixed) fun roots =>
      Pass.GivesBack.bind (Pass.GivesBack.lift (retireVanished_givesBack kind present roots))
        fun _ => Pass.GivesBack.pure
  | .refresh (_ :: _) => chooseNamed_givesBack kind present [] _
  | .unscanned => Pass.GivesBack.bind (Pass.GivesBack.lift_fixed readCatalog_fixed) fun _ =>
      Pass.GivesBack.pure

theorem scanSchemas_givesBack {kind : ResourceKind} (selection : Selection) (targets : List String) :
    ∀ schemas, (scanSchemas resource kind selection targets schemas).GivesBack H
  | [] => Pass.GivesBack.pure
  | _ :: rest => by
    unfold scanSchemas
    dsimp only
    split
    · exact Pass.GivesBack.bind
        (reconcileGuarded_givesBack fun _ => Step.GivesBack.of_fixed reconcileSchema_fixed) fun _ =>
        scanSchemas_givesBack selection targets rest
    · exact scanSchemas_givesBack selection targets rest

theorem scanRelational_givesBack {kind : ResourceKind} (selection : Selection) :
    (scanRelational resource kind selection).GivesBack H :=
  Pass.GivesBack.bind (Pass.GivesBack.lift_fixed inRelational_fixed) fun schemas =>
    Pass.GivesBack.bind (selectNamespaces_givesBack _ _ selection) fun targets =>
      scanSchemas_givesBack selection targets schemas

theorem scanPaths_givesBack (selection : Selection) :
    ∀ paths, (scanPaths resource selection paths).GivesBack H
  | [] => Pass.GivesBack.pure
  | _ :: rest => by
    unfold scanPaths
    dsimp only
    split
    · exact Pass.GivesBack.bind Pass.GivesBack.skip fun _ => scanPaths_givesBack selection rest
    · exact Pass.GivesBack.bind
        (reconcileGuarded_givesBack fun _ => Step.GivesBack.of_fixed reconcileObjectPath_fixed)
        fun _ => scanPaths_givesBack selection rest

theorem scanObjects_givesBack (selection : Selection) : (scanObjects resource selection).GivesBack H := by
  unfold scanObjects
  refine Pass.GivesBack.bind (Pass.GivesBack.lift_fixed inObjects_fixed) fun _ => ?_
  dsimp only
  split
  · split
    · exact Pass.GivesBack.bind Pass.GivesBack.throw fun targets => scanPaths_givesBack _ targets
    · exact Pass.GivesBack.bind Pass.GivesBack.pure fun targets => scanPaths_givesBack _ targets
  · exact Pass.GivesBack.bind (selectNamespaces_givesBack _ _ _) fun targets =>
      scanPaths_givesBack _ targets

end Passes

theorem scanRegistered_givesBack {r : RegisteredResource} {H : Set SubtreeKey}
    (selection : Selection) : (scanRegistered r selection).GivesBack H := by
  unfold scanRegistered
  refine Pass.GivesBack.bind (Pass.GivesBack.lift_fixed Step.Fixed.ofExcept) fun _ =>
    Pass.GivesBack.bind (Pass.GivesBack.lift_fixed writeResource_fixed) fun resource => ?_
  dsimp only
  split
  · exact Pass.GivesBack.throw
  refine Pass.GivesBack.bind (Pass.GivesBack.lift_fixed connect_fixed) fun conn =>
    Pass.GivesBack.bind (Pass.GivesBack.attempt ?_) fun _ =>
      Pass.GivesBack.bind (Pass.GivesBack.lift_fixed close_fixed) fun _ => Pass.GivesBack.ofExcept
  rcases conn with kind | _
  · exact scanRelational_givesBack selection
  · exact scanObjects_givesBack selection

theorem scanRegisteredTable_givesBack {r : RegisteredResource} {H : Set SubtreeKey}
    (schema table : String) : (scanRegisteredTable r schema table).GivesBack H := by
  unfold scanRegisteredTable
  refine Pass.GivesBack.bind (Pass.GivesBack.lift_fixed Step.Fixed.ofExcept) fun _ =>
    Pass.GivesBack.bind (Pass.GivesBack.lift_fixed writeResource_fixed) fun resource => ?_
  dsimp only
  split
  · exact Pass.GivesBack.throw
  refine Pass.GivesBack.bind (Pass.GivesBack.lift_fixed connect_fixed) fun conn =>
    Pass.GivesBack.bind (Pass.GivesBack.attempt ?_) fun _ =>
      Pass.GivesBack.bind (Pass.GivesBack.lift_fixed close_fixed) fun _ => Pass.GivesBack.ofExcept
  rcases conn with kind | _
  · exact Pass.GivesBack.bind (Pass.GivesBack.lift (guarded_givesBack reconcileTable_fixed))
      fun _ => Pass.GivesBack.tally
  · exact Pass.GivesBack.throw

/-! ## Orchestrator calls -/

theorem lookupResource_fixed {t : TenantId} {e : ExternalId} : (lookupResource t e).Fixed :=
  Step.Fixed.bind get_fixed fun _ => Step.Fixed.ofExcept

/-- A refresh gives back every guard it takes by the time it returns. -/
theorem scanResource_givesBack (t : TenantId) (e : ExternalId) (ns : List String)
    {H : Set SubtreeKey} : (scanResource t e ns).GivesBack H :=
  Step.GivesBack.fixed_bind lookupResource_fixed fun _ =>
    Step.GivesBack.fixed_bind openRun_fixed fun _ =>
      Step.GivesBack.bind (Pass.GivesBack.run (scanRegistered_givesBack _)) fun _ =>
        Step.GivesBack.of_fixed endRun_fixed

/-- A table scan gives back every guard it takes by the time it returns. -/
theorem scanTable_givesBack (t : TenantId) (e : ExternalId) (schema table : String)
    {H : Set SubtreeKey} : (scanTable t e schema table).GivesBack H :=
  Step.GivesBack.fixed_bind lookupResource_fixed fun _ =>
    Step.GivesBack.fixed_bind openRun_fixed fun _ =>
      Step.GivesBack.bind (Pass.GivesBack.run (scanRegisteredTable_givesBack _ _)) fun _ =>
        Step.GivesBack.of_fixed endRun_fixed

theorem dispatchUnscanned_fixed {t : TenantId} : (dispatchUnscanned t).Fixed := by
  unfold dispatchUnscanned
  refine Step.Fixed.bind get_fixed fun _ => Step.Fixed.bind Step.Fixed.ofExcept fun _ =>
    Step.Fixed.bind openRun_fixed fun _ => Step.Fixed.bind get_fixed fun _ => ?_
  dsimp only
  split
  · exact Step.Fixed.throw
  · exact Step.Fixed.pure

theorem superviseUnscanned_fixed {t : TenantId} {run : RunRow}
    {resources : List RegisteredResource}
    {results : List (Option (Except ScanError (ScanCounts × Option ScanError)))} :
    (superviseUnscanned t run resources results).Fixed :=
  Step.Fixed.bind (Step.Fixed.attempt endRun_fixed) fun _ => Step.Fixed.pure

/-- Retiring a namespace whose key is held does nothing. -/
theorem retireNamespace_busy {resource : ResourceRow} {kind : NodeKind} {name : String} {w : World}
    (hk : isHeld w.held (rootKey resource kind name) = true) :
    (retireNamespace resource kind name).runAlone w = (.ok (), w) := by
  unfold retireNamespace
  rw [Step.runAlone_bind, Step.runAlone_readCatalog]
  dsimp only
  split
  · rw [Step.runAlone_bind, Step.runAlone_get]
    simp [hk]
  · rfl

/-! ## Mutual exclusion -/

/-- What a thread or a task of the service still holds when it finishes: no guard, once a
request or a pass has returned or a run has been dispatched. -/
def Reply.Releases : Reply → Set SubtreeKey → Prop
  | .answered o, H => Returned o → H = ∅
  | .dispatched .., H => H = ∅
  | .passed o, H => Returned o → H = ∅

/-- A step that holds from no credit, its outcome made into a reply, holds from no credit. -/
theorem Step.Holds.reply {x : Step α} {Q : Except ScanError α → Set SubtreeKey → Prop}
    {f : Except ScanError α → Reply} {R : Reply → Set SubtreeKey → Prop} (h : x.Holds Q ∅)
    (hf : ∀ o H, Q o H → R (f o) H) (w : World) :
    Turns.Holds World.guards R ∅ (ExceptT.run x >>= fun o => Pure.pure (f o)) w :=
  Turns.Holds.bind (h w (Set.empty_subset _)) (Set.empty_subset _) fun o H _ hQ _ =>
    .done (hf o H hQ)

/-- A step that never changes the guards holds from no credit and keeps none. -/
theorem Step.Fixed.holds_empty {x : Step α} (h : x.Fixed) : x.Holds (fun _ H => H = ∅) ∅ :=
  Step.Holds.of_fixed h fun _ => rfl

/-- Served beside others, a request holds from no credit and gives back every guard it takes
by the time it returns; a discovery request takes none before it dispatches its run. -/
theorem ScanRequest.thread_holds (r : ScanRequest) (w : World) :
    Turns.Holds World.guards Reply.Releases ∅ r.thread w := by
  cases r with
  | scanUnscanned t =>
    refine dispatchUnscanned_fixed.holds_empty.reply (fun o H hH => ?_) w
    rcases o with e | ⟨resources, run, slots⟩
    · exact fun _ => hH
    · exact hH
  | scan t e ns =>
    exact (Step.GivesBack.bind (scanResource_givesBack t e ns) fun _ =>
      Step.GivesBack.of_fixed Step.Fixed.pure).reply (fun _ _ h => h) w
  | scanTable t e s tb =>
    exact (Step.GivesBack.bind (scanTable_givesBack t e s tb) fun _ =>
      Step.GivesBack.of_fixed Step.Fixed.pure).reply (fun _ _ h => h) w
  | reconcilePath res p =>
    exact (Step.GivesBack.of_fixed (Step.Fixed.bind reconcileObjectPath_fixed fun _ =>
      Step.Fixed.pure)).reply (fun _ _ h => h) w

/-- The service's runtime takes guards only as its computations hold: entering a connector
leaves the guards, a dispatched run's passes hold from no credit and give back every guard by
the time they return, and its supervisor, credited with none, takes none. -/
theorem scanRuntime_holds : scanRuntime.Holds World.guards Reply.Releases where
  enter _ _ := rfl
  fork a H f ha hf := by
    cases a with
    | dispatched t run resources slots =>
      cases hf
      refine ⟨fun p hp s => ?_, fun replies s _ => ?_⟩
      · obtain ⟨r, -, rfl⟩ := List.mem_map.1 hp
        exact (Pass.GivesBack.run (scanRegistered_givesBack _)).reply (fun _ _ h => h) s
      · -- a dispatching thread finishes credited with no guard
        have hH : H = ∅ := ha
        subst hH
        exact superviseUnscanned_fixed.holds_empty.reply (fun _ _ h _ => h) s
    | answered o => cases hf
    | passed o => cases hf

/-- Subtree mutual exclusion. Scan requests served as threads of the service's runtime, with
the passes their discovery runs fork as tasks, never credit one guard to two of them: every run
of the runtime, however their turns interleave, is followed by a tracked run in which the
credits of the threads in progress, of the threads waiting for their passes and of the running
passes are pairwise disjoint guards of the world reached, none of them a guard held before
they started, which all stay held; and a request or a pass that returned holds no guard. A
guarded body runs credited with its key. A caller that finds its key held touches nothing: a
guarded step (the table scan's) fails with the subtree busy, a refresh fails so and discovery
counts the namespace as skipped, each in the turn it tries with the world unchanged; and
retiring a namespace whose key is held does nothing. -/
theorem subtree_exclusion :
    (∀ (rs : List ScanRequest) (w : World) (c : Config ObjectConnector World Reply),
      scanRuntime.Runs (Config.launch (rs.map ScanRequest.thread) w.connector w) c →
      ∃ tc, (scanRuntime.track World.guards).Runs
          (Config.launch ((rs.map ScanRequest.thread).map (Turns.track World.guards))
            (w.connector, ∅) (w, ∅)) tc ∧
        tc.Tracks World.guards c ∧
        tc.Credited World.guards w.guards Reply.Releases scanRuntime.switch) ∧
    (∀ {α : Type} (k : SubtreeKey) (H : Set SubtreeKey) (body : Step α),
      (k ∉ H → body.Holds (fun _ H' => H' = insert k H) (insert k H)) →
      (guarded k body).Holds (fun _ H' => H' = H) H) ∧
    (∀ (k : SubtreeKey) (selection : Selection) (H : Set SubtreeKey) (body : Step ScanCounts),
      (k ∉ H → body.GivesBack (insert k H)) → (reconcileGuarded k selection body).GivesBack H) ∧
    (∀ (k : SubtreeKey) (w : World), isHeld w.held k = true →
      (∀ {α : Type} (body : Step α),
        (ExceptT.run (guarded k body)).advance w = (.finished (.error (.subtreeBusy k.text)), w)) ∧
      ∀ (body : Step ScanCounts) (counts : ScanCounts),
        (∀ names, ((ExceptT.run (reconcileGuarded k (.refresh names) body)).run counts).advance w =
          (.finished (.error (.subtreeBusy k.text), counts), w)) ∧
        ((ExceptT.run (reconcileGuarded k .unscanned body)).run counts).advance w =
          (.finished (.ok (), { counts with skipped := counts.skipped + 1 }), w)) ∧
    (∀ (resource : ResourceRow) (kind : NodeKind) (name : String) (w : World),
      isHeld w.held (rootKey resource kind name) = true →
      (retireNamespace resource kind name).runAlone w = (.ok (), w)) := by
  refine ⟨fun rs w c h => ?_, fun k H body hb => guarded_holds hb,
    fun k selection H body hb => reconcileGuarded_givesBack hb,
    fun k w hk => ⟨fun body => guarded_busy hk, fun body counts => reconcileGuarded_busy counts hk⟩,
    fun _ _ _ _ hk => retireNamespace_busy hk⟩
  refine scanRuntime_holds.exclusive (fun t ht s => ?_) w.connector w h
  obtain ⟨r, -, rfl⟩ := List.mem_map.1 ht
  exact r.thread_holds s

/-- With the guard of a bucket held, a guarded step over it fails at once with the subtree busy
and changes nothing. -/
theorem held_bucket_fails_busy :
    let k : SubtreeKey := ⟨⟨1⟩, ⟨"r"⟩, .bucket, "logs"⟩
    let w : World := { held := [k] }
    isHeld w.held k = true ∧
      (ExceptT.run (guarded k (pure () : Step Unit))).advance w =
        (.finished (.error (.subtreeBusy k.text)), w) := by
  intro k w
  have hk : isHeld w.held k = true := by
    show isHeld [k] k = true
    simp [isHeld]
  exact ⟨hk, (subtree_exclusion.2.2.2.1 k w hk).1 _⟩

end DataCatalog.Scan
