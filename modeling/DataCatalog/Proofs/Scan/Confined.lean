import Mathlib
import DataCatalog.Proofs.Scan.Keeps
import DataCatalog.Proofs.Scan.Placement
import DataCatalog.Proofs.Storage.Keys
import DataCatalog.Scan.Orchestrator
/-!
# What the scans of one tenant write

Every catalog write a scan makes for a resource of tenant `u` is a store operation called with
`u` whose buckets, prefixes and objects are not named by a reserved segment. The namespaces of
a relational resource are schemas or databases. An object-storage pass names its buckets and
prefixes by segments of the paths it walks and its objects by their last segment, and it skips
every path with a reserved segment. So each reconciler, pass and orchestrator call for `u`
keeps, at every turn and whatever runs beside it, each catalog invariant that the writes of
`u` keep (`ScansKeep`). A pass opens and closes no run, so it keeps even an invariant that only
the other writes of `u` keep (`PassesKeep`).
-/

namespace DataCatalog.Scan

open DataCatalog.Catalog DataCatalog.Connect DataCatalog.Source DataCatalog.Storage
open DataCatalog.Ident

variable {u : TenantId} {J : Tables → Prop}

/-! ## Names -/

/-- The namespaces of a relational resource are never buckets or prefixes. -/
theorem namespaceKind_admits {kind : ResourceKind} (hk : kind.family = .relational)
    (name : String) : kind.namespaceKind.Admits name := by
  cases kind <;> simp_all [ResourceKind.family, ResourceKind.namespaceKind, NodeKind.Admits]

theorem tableItem_admits (node : NodeRow) (t : TableSummary) (fields : List Column) :
    (tableItem node t fields).kind.Admits (tableItem node t fields).name :=
  ItemKind.admits_of_ne (by unfold tableItem; split <;> simp) _

/-- An object is named by the last segment of its path. -/
theorem objectItem_admits (parent : NodeRow) {r : ObjectRecord} (hr : Unreserved r.relativePath) :
    (objectItem parent r).kind.Admits (objectItem parent r).name :=
  fun _ => objectItem_name parent r ▸ hr.baseName.not_mem

/-! ## Rebuilding a subtree -/

/-- Every node a subtree rebuild tracks belongs to `u`. -/
def TrackedBy (u : TenantId) (tracked : List (String × NodeRow)) : Prop :=
  ∀ e ∈ tracked, e.2.tenant = u

theorem TrackedBy.lookup {tracked : List (String × NodeRow)} {k : String} {n : NodeRow}
    (h : TrackedBy u tracked) (hl : tracked.lookup k = some n) : n.tenant = u :=
  h _ (mem_of_lookup hl)

theorem TrackedBy.setEntry {tracked : List (String × NodeRow)} {n : NodeRow}
    (h : TrackedBy u tracked) (hn : n.tenant = u) (k : String) :
    TrackedBy u (setEntry k n tracked) := by
  induction tracked with
  | nil => exact List.forall_mem_cons.2 ⟨hn, fun _ h => absurd h List.not_mem_nil⟩
  | cons e rest ih =>
    obtain ⟨he, hrest⟩ := List.forall_mem_cons.1 h
    obtain ⟨k', w⟩ := e
    unfold Scan.setEntry
    split
    · exact List.forall_mem_cons.2 ⟨hn, hrest⟩
    · exact List.forall_mem_cons.2 ⟨he, ih hrest⟩

theorem walkSegments_keeps (hJ : PassesKeep u J) (rel : String) (attrs : Option NodeAttributes) :
    ∀ (segs : List String) (tracked : List (String × NodeRow)) (cur : String) (par : NodeRow),
      TrackedBy u tracked → par.tenant = u → (∀ s ∈ segs, s ∉ reservedSegments) →
      (walkSegments rel attrs tracked cur par segs).Keeps J
        fun r => r.1.tenant = u ∧ TrackedBy u r.2
  | [], _, _, _, ht, hp, _ => Step.Keeps.pure ⟨hp, ht⟩
  | s :: rest, tracked, cur, par, ht, hp, hsegs => by
    have hrest := fun x hx => hsegs x (List.mem_cons_of_mem _ hx)
    -- writing the child here and walking on below it
    have hwrite : ∀ a, (do
        let node ← writeNode ⟨par.tenant, par.resource, some par.id, .keyPrefix, s, a⟩
        walkSegments rel attrs (setEntry (joinRel cur s) node tracked) (joinRel cur s) node
          rest).Keeps J fun r : NodeRow × List (String × NodeRow) => r.1.tenant = u ∧
          TrackedBy u r.2 := fun a =>
      Step.Keeps.bind (writeNode_keeps hJ hp fun _ => hsegs s List.mem_cons_self) fun node hn =>
        walkSegments_keeps hJ rel attrs rest _ _ node (ht.setEntry hn.tenant _) hn.tenant hrest
    unfold walkSegments
    dsimp only
    split
    · rename_i existing hl
      split
      · exact walkSegments_keeps hJ rel attrs rest tracked _ existing ht (ht.lookup hl) hrest
      · exact hwrite _
    · exact hwrite _

theorem ensurePrefix_keeps (hJ : PassesKeep u J) {tracked : List (String × NodeRow)}
    {base rel : String} {attrs : Option NodeAttributes} (ht : TrackedBy u tracked)
    (hrel : Unreserved rel) (hw : isWithin base rel = true) :
    (ensurePrefix tracked base rel attrs).Keeps J fun r => r.1.tenant = u ∧ TrackedBy u r.2 := by
  unfold ensurePrefix
  split
  · rename_i root hl
    split
    · exact Step.Keeps.pure ⟨ht.lookup hl, ht⟩
    · exact walkSegments_keeps hJ rel attrs _ tracked base root ht (ht.lookup hl)
        fun s hs => hrel.walkSuffix hw s hs
  · exact Step.Keeps.throw

/-- Records a failed pass on a root of `u`. -/
theorem markFailed_keeps (hJ : PassesKeep u J) {t : TenantId} {id : NodeId} {e : String}
    (ht : t = u) : (markFailed t id e).Keeps J fun _ => True :=
  Step.Keeps.bind (Step.Keeps.attempt (failNodeScan_keeps hJ ht)) fun _ _ => Step.Keeps.pure trivial

theorem placeRecord_keeps (hJ : PassesKeep u J) {target : NodeRow} (htarget : target.Scoped u)
    (bucket base : String) {p : Placement} (hp : TrackedBy u p.tracked) (record : ObjectRecord) :
    (placeRecord target bucket base p record).Keeps J fun p' => TrackedBy u p'.tracked := by
  have hrewrite : ∀ a, (writeNode ⟨target.tenant, target.resource, target.parent, target.kind,
      target.name, a⟩).Keeps J (NodeRow.Scoped u) := fun _ =>
    writeNode_keeps hJ htarget.tenant htarget.admits
  unfold placeRecord
  dsimp only
  rw [collapseEmptySegments_eq_normalizeKey]
  split
  · exact Step.Keeps.pure hp
  rename_i hres
  have hrel : Unreserved (normalizeKey record.relativePath) :=
    hasReservedSegment_eq_false_iff.1 (by simpa using hres)
  split
  · exact Step.Keeps.pure hp
  rename_i hin
  have hw : isWithin base (normalizeKey record.relativePath) = true := by
    simp only [Bool.or_eq_true, bne_iff_ne, ne_eq, Bool.not_eq_eq_eq_not, Bool.not_true,
      not_or] at hin
    simpa using hin.2
  split
  · -- a bucket's own record rewrites the target when the walk is of the whole bucket
    split
    · exact Step.Keeps.bind (hrewrite _) fun n hn => Step.Keeps.pure (hp.setEntry hn.tenant _)
    · exact Step.Keeps.pure hp
  · -- a prefix record rewrites the target or writes the chain down to the prefix
    split
    · exact Step.Keeps.pure hp
    split
    · exact Step.Keeps.bind (hrewrite _) fun n hn => Step.Keeps.pure (hp.setEntry hn.tenant _)
    · exact Step.Keeps.bind (ensurePrefix_keeps hJ hp hrel hw) fun _ hr => Step.Keeps.pure hr.2
  · -- an object is written below the prefix of its directory
    split
    · exact Step.Keeps.pure hp
    rename_i hdir
    refine Step.Keeps.bind (ensurePrefix_keeps hJ hp hrel.parentDir (by simpa using hdir))
      fun ⟨parent, tracked⟩ ⟨hparent, htracked⟩ => ?_
    exact Step.Keeps.bind (writeItem_keeps hJ hparent (objectItem_admits parent hrel)) fun _ _ =>
      Step.Keeps.pure htracked

theorem placeRecords_keeps (hJ : PassesKeep u J) {target : NodeRow} (htarget : target.Scoped u)
    (bucket base : String) :
    ∀ (p : Placement) (records : List ObjectRecord), TrackedBy u p.tracked →
      (placeRecords target bucket base p records).Keeps J fun p' => TrackedBy u p'.tracked
  | _, [], hp => Step.Keeps.pure hp
  | _, r :: rest, hp =>
    Step.Keeps.bind (placeRecord_keeps hJ htarget bucket base hp r) fun p' hp' =>
      placeRecords_keeps hJ htarget bucket base p' rest hp'

theorem finishPrefixes_keeps (hJ : PassesKeep u J) (base : String)
    (totals : List (String × Aggregate)) :
    ∀ tracked : List (String × NodeRow), TrackedBy u tracked →
      (finishPrefixes base totals tracked).Keeps J fun _ => True
  | [], _ => Step.Keeps.pure trivial
  | (rel, node) :: rest, ht => by
    obtain ⟨hnode, hrest⟩ := List.forall_mem_cons.1 ht
    unfold finishPrefixes
    dsimp only
    split
    · exact Step.Keeps.bind (finishNodeScan_keeps hJ hnode) fun _ _ =>
        finishPrefixes_keeps hJ base totals rest hrest
    · exact finishPrefixes_keeps hJ base totals rest hrest

theorem replaceObjects_keeps (hJ : PassesKeep u J) {target : NodeRow} (htarget : target.Scoped u)
    (base : String) (walked : Option (List ObjectRecord)) :
    (replaceObjects target base walked).Keeps J fun _ => True := by
  unfold replaceObjects
  refine Step.Keeps.bind (clearNode_keeps hJ htarget.tenant) fun _ _ => ?_
  dsimp only
  -- the walk is given or made now; the rebuild from it is the same
  split <;> refine Step.Keeps.bind (Q := fun _ => True) ?_ fun records _ =>
    Step.Keeps.bind (placeRecords_keeps hJ htarget _ base _ records
      (List.forall_mem_singleton.2 htarget.tenant)) fun p hp =>
    Step.Keeps.bind (finishPrefixes_keeps hJ base _ _ hp) fun _ _ => Step.Keeps.pure trivial
  · exact Step.Keeps.pure trivial
  · exact inObjects_keeps

theorem reconcileSubtree_keeps (hJ : PassesKeep u J) {target : NodeRow} (htarget : target.Scoped u)
    (base : String) (walked : Option (List ObjectRecord)) :
    (reconcileSubtree target base walked).Keeps J fun _ => True := by
  unfold reconcileSubtree
  refine Step.Keeps.bind (beginNodeScan_keeps hJ htarget.tenant) fun _ _ => ?_
  refine Step.Keeps.bind (Step.Keeps.attempt (replaceObjects_keeps hJ htarget base walked))
    fun r _ => ?_
  rcases r with e | ⟨agg, counts⟩
  · exact Step.Keeps.bind (markFailed_keeps hJ htarget.tenant) fun _ _ => Step.Keeps.throw
  · exact Step.Keeps.bind (finishNodeScan_keeps hJ htarget.tenant) fun _ _ =>
      Step.Keeps.pure trivial

/-! ## Chains of prefixes -/

theorem chainFrom_keeps (hJ : PassesKeep u J) :
    ∀ {parent : NodeRow} {segs : List String}, parent.tenant = u →
      (∀ s ∈ segs, s ∉ reservedSegments) →
      (chainFrom parent segs).Keeps J fun chain => ∀ n ∈ chain, n.Scoped u
  | _, [], _, _ => Step.Keeps.pure fun _ h => absurd h List.not_mem_nil
  | _, s :: _, hp, hsegs =>
    Step.Keeps.bind (writeNode_keeps hJ hp fun _ => hsegs s List.mem_cons_self) fun _ hn =>
      Step.Keeps.bind (chainFrom_keeps hJ hn.tenant fun x hx => hsegs x (List.mem_cons_of_mem _ hx))
        fun _ hrest => Step.Keeps.pure (List.forall_mem_cons.2 ⟨hn, hrest⟩)

theorem ensureChain_keeps (hJ : PassesKeep u J) {bucketNode : NodeRow}
    (hb : bucketNode.Scoped u) {rel : String} (hrel : Unreserved rel) :
    (ensureChain bucketNode rel).Keeps J fun chain => ∀ n ∈ chain, n.Scoped u :=
  Step.Keeps.bind (chainFrom_keeps hJ hb.tenant fun s hs => hrel s (List.mem_filter.1 hs).1)
    fun _ hrest => Step.Keeps.pure (List.forall_mem_cons.2 ⟨hb, hrest⟩)

theorem chainEnd_scoped {fallback : NodeRow} {chain : List NodeRow} (hf : fallback.Scoped u)
    (hc : ∀ n ∈ chain, n.Scoped u) : (chainEnd fallback chain).Scoped u :=
  List.forall_mem_cons.2 ⟨hf, hc⟩ _ List.getLastD_mem_cons

theorem rollUp_keeps (hJ : PassesKeep u J) {chain : List NodeRow}
    (hc : ∀ n ∈ chain, n.tenant = u) :
    (rollUp chain).Keeps J fun _ => True :=
  Step.Keeps.forM fun node hn =>
    Step.Keeps.bind sumChildren_keeps fun _ _ =>
      setNodeAggregate_keeps hJ (hc node (List.mem_reverse.1 hn))

theorem refreshObject_keeps (hJ : PassesKeep u J) {bucketNode : NodeRow}
    (hb : bucketNode.Scoped u) {record : ObjectRecord} (hrec : Unreserved record.relativePath) :
    (refreshObject bucketNode record).Keeps J fun _ => True :=
  Step.Keeps.bind (ensureChain_keeps hJ hb hrec.parentDir) fun _ hc =>
    Step.Keeps.bind (writeItem_keeps hJ (chainEnd_scoped hb hc).tenant
      (objectItem_admits _ hrec)) fun _ _ =>
    Step.Keeps.bind (rollUp_keeps hJ fun n hn => (hc n hn).tenant) fun _ _ =>
      Step.Keeps.pure trivial

/-- Pruning keeps a part of the chain it was given. -/
theorem pruneEmpty_keeps (hJ : PassesKeep u J) :
    ∀ (chain : List NodeRow) (n : Nat), (∀ x ∈ chain, x.tenant = u) →
      (pruneEmpty chain n).Keeps J fun r => ∀ x ∈ r.1, x.tenant = u
  | [], _, _ => Step.Keeps.pure fun _ h => absurd h List.not_mem_nil
  | [_], _, hc => Step.Keeps.pure hc
  | node :: next :: rest, n, hc => by
    obtain ⟨hnode, hrest⟩ := List.forall_mem_cons.1 hc
    unfold pruneEmpty
    -- whether the node holds nothing is read in two visits
    refine Step.Keeps.bind readCatalog_keeps_trivial fun _ _ => ?_
    refine Step.Keeps.bind readCatalog_keeps_trivial fun _ _ => ?_
    split
    · exact Step.Keeps.bind (retireCatalogNode_keeps hJ hnode) fun _ _ =>
        pruneEmpty_keeps hJ (next :: rest) (n + 1) hrest
    · exact Step.Keeps.pure hc

theorem prefixChain_keeps :
    ∀ {parent : NodeRow} {segs : List String}, parent.tenant = u →
      (prefixChain parent segs).Keeps J fun r => ∀ chain, r = some chain → ∀ x ∈ chain, x.tenant = u
  | _, [], _ => Step.Keeps.pure fun _ h => by cases h; exact fun _ h => absurd h List.not_mem_nil
  | parent, s :: rest, hp => by
    unfold prefixChain
    refine Step.Keeps.bind (readCatalog_keeps (Q := fun o => ∀ n, o = some n → n.tenant = u)
      fun _ _ _ hn => (Tables.getNode_key hn).1.trans hp) fun o ho => ?_
    rcases o with _ | node
    · exact Step.Keeps.pure fun _ h => by cases h
    · have hn := ho node rfl
      refine Step.Keeps.bind (prefixChain_keeps hn) fun r hr => Step.Keeps.pure ?_
      intro chain hchain
      obtain ⟨below, hbelow, rfl⟩ := Option.map_eq_some_iff.1 hchain
      exact List.forall_mem_cons.2 ⟨hn, hr below hbelow⟩

theorem forgetPath_keeps (hJ : PassesKeep u J) {bucketNode : NodeRow} (hb : bucketNode.tenant = u)
    (key : String) : (forgetPath bucketNode key).Keeps J fun _ => True := by
  unfold forgetPath
  refine Step.Keeps.bind (prefixChain_keeps hb) fun r hr => ?_
  rcases r with _ | below
  · exact Step.Keeps.pure trivial
  have hchain : ∀ x ∈ bucketNode :: below, x.tenant = u :=
    List.forall_mem_cons.2 ⟨hb, hr below rfl⟩
  refine Step.Keeps.bind (deleteItem_keeps hJ hb) fun _ _ => ?_
  refine Step.Keeps.bind readCatalog_keeps_trivial fun o _ => ?_
  rcases o with _ | node <;> dsimp only
  on_goal 2 => refine Step.Keeps.bind (retireCatalogNode_keeps hJ hb) fun _ _ => ?_
  -- with a prefix retired or not, the emptied prefixes are pruned and what remains recomputed
  all_goals
    refine Step.Keeps.bind (Q := fun _ => True) (Step.Keeps.pure trivial) fun _ _ => ?_
    refine Step.Keeps.bind (pruneEmpty_keeps hJ _ 0 fun x hx => hchain x (List.mem_reverse.1 hx))
      fun ⟨kept, _⟩ hkept => ?_
    dsimp only
    split
    · exact Step.Keeps.bind (rollUp_keeps hJ fun x hx => hkept x (List.mem_reverse.1 hx))
        fun _ _ => Step.Keeps.pure trivial
    · exact Step.Keeps.pure trivial

/-! ## Object paths -/

/-- A single object a walk names is the one at the path asked for. -/
theorem ObjectTarget.classify_object {key : String} {records : List ObjectRecord}
    {record : ObjectRecord} (h : ObjectTarget.classify key records = .object record) :
    record.relativePath = key := by
  unfold ObjectTarget.classify at h
  split at h
  · split at h
    · rename_i hk
      cases h
      simp only [Bool.and_eq_true, beq_iff_eq] at hk
      exact hk.2
    · split at h <;> cases h
  · cases h

/-- Reconciling an object path of a resource of `u` keeps what the writes of `u` keep, when
the path has a reserved segment too: then it writes nothing. -/
theorem reconcileObjectPath_keeps (hJ : PassesKeep u J) {resource : ResourceRow}
    (hr : resource.tenant = u) (path : String) :
    (reconcileObjectPath resource path).Keeps J fun _ => True := by
  unfold reconcileObjectPath
  split
  swap
  · exact Step.Keeps.throw
  rename_i bucket key _
  split
  · exact Step.Keeps.pure trivial
  rename_i hres
  simp only [Bool.or_eq_true, not_or, Bool.not_eq_true] at hres
  have hbucket := hasReservedSegment_eq_false_iff.1 hres.1
  have hkey := hasReservedSegment_eq_false_iff.1 hres.2
  refine Step.Keeps.bind (writeNode_keeps hJ hr fun _ => hbucket.not_mem) fun bucketNode hb => ?_
  split
  · exact reconcileSubtree_keeps hJ hb "" none
  refine Step.Keeps.bind inObjects_keeps fun records _ => ?_
  split
  · rename_i record hclass
    exact refreshObject_keeps hJ hb (ObjectTarget.classify_object hclass ▸ hkey)
  · exact forgetPath_keeps hJ hb.tenant key
  · exact Step.Keeps.bind (ensureChain_keeps hJ hb hkey) fun chain hc =>
      Step.Keeps.bind (reconcileSubtree_keeps hJ (chainEnd_scoped hb hc) key _) fun _ _ =>
        Step.Keeps.bind (rollUp_keeps hJ fun n hn => (hc n (List.dropLast_subset _ hn)).tenant)
          fun _ _ => Step.Keeps.pure trivial

/-! ## Relational namespaces -/

theorem recordTables_keeps (hJ : PassesKeep u J) {node : NodeRow} (hn : node.tenant = u) :
    ∀ (tables : List TableSummary) (agg : Aggregate) (counts : ScanCounts),
      (recordTables node tables agg counts).Keeps J fun _ => True
  | [], _, _ => Step.Keeps.pure trivial
  | t :: rest, _, _ => by
    unfold recordTables
    refine Step.Keeps.bind tryRelational_keeps fun r _ => ?_
    rcases r with e | fields
    · dsimp only
      split
      · exact Step.Keeps.throw
      · exact recordTables_keeps hJ hn rest _ _
    · exact Step.Keeps.bind (writeItem_keeps hJ hn (tableItem_admits node t fields)) fun _ _ =>
        recordTables_keeps hJ hn rest _ _

theorem replaceTables_keeps (hJ : PassesKeep u J) {node : NodeRow} (hn : node.tenant = u) :
    (replaceTables node).Keeps J fun _ => True :=
  Step.Keeps.bind (clearNode_keeps hJ hn) fun _ _ =>
    Step.Keeps.bind inRelational_keeps fun tables _ => recordTables_keeps hJ hn tables {} {}

theorem reconcileSchema_keeps (hJ : PassesKeep u J) {resource : ResourceRow}
    (hr : resource.tenant = u) {kind : ResourceKind} (hk : kind.family = .relational)
    (schema : SchemaSummary) : (reconcileSchema resource kind schema).Keeps J fun _ => True := by
  unfold reconcileSchema
  refine Step.Keeps.bind (writeNode_keeps hJ hr (namespaceKind_admits hk _)) fun node hn => ?_
  refine Step.Keeps.bind (beginNodeScan_keeps hJ hr) fun _ _ => ?_
  refine Step.Keeps.bind (Step.Keeps.attempt (replaceTables_keeps hJ hn.tenant)) fun r _ => ?_
  rcases r with e | ⟨agg, counts⟩
  · exact Step.Keeps.bind (markFailed_keeps hJ hr) fun _ _ => Step.Keeps.throw
  · exact Step.Keeps.bind (finishNodeScan_keeps hJ hr) fun _ _ => Step.Keeps.pure trivial

theorem reconcileTable_keeps (hJ : PassesKeep u J) {resource : ResourceRow}
    (hr : resource.tenant = u) (kind : ResourceKind) (schema table : String) :
    (reconcileTable resource kind schema table).Keeps J fun _ => True := by
  unfold reconcileTable
  dsimp only
  refine Step.Keeps.bind (readCatalog_keeps (Q := fun o => ∀ n, o = some n → n.tenant = u)
    fun _ _ _ hn => (Tables.getNode_key hn).1.trans hr) fun o ho => ?_
  rcases o with _ | node
  · exact Step.Keeps.throw
  have hn := ho node rfl
  refine Step.Keeps.bind inRelational_keeps fun _ _ => ?_
  -- the table is written again or removed; the namespace's aggregates are then recomputed
  have hrecompute : ∀ counts : ScanCounts, (do
      let agg ← inCatalog (sumChildren resource.tenant node.id)
      inCatalog (setNodeAggregate resource.tenant node.id agg)
      pure counts : Step ScanCounts).Keeps J fun _ => True := fun _ =>
    Step.Keeps.bind sumChildren_keeps fun _ _ =>
      Step.Keeps.bind (setNodeAggregate_keeps hJ hr) fun _ _ => Step.Keeps.pure trivial
  split
  · exact Step.Keeps.bind inRelational_keeps fun fields _ =>
      Step.Keeps.bind (deleteItem_keeps hJ hr) fun _ _ =>
        Step.Keeps.bind (writeItem_keeps hJ hn (tableItem_admits node _ fields)) fun _ _ =>
          Step.Keeps.bind (Q := fun _ => True) (Step.Keeps.pure trivial) fun counts _ =>
            hrecompute counts
  · exact Step.Keeps.bind (deleteItem_keeps hJ hr) fun _ _ =>
      Step.Keeps.bind (deleteItem_keeps hJ hr) fun _ _ =>
        Step.Keeps.bind (Q := fun _ => True) (Step.Keeps.pure trivial) fun counts _ =>
          hrecompute counts

/-! ## Passes -/

section Passes

variable {resource : ResourceRow}

theorem retireNamespace_keeps (hJ : PassesKeep u J) (hr : resource.tenant = u) (kind : NodeKind)
    (name : String) : (retireNamespace resource kind name).Keeps J fun _ => True := by
  unfold retireNamespace
  refine Step.Keeps.bind readCatalog_keeps_trivial fun o _ => ?_
  rcases o with _ | node
  · exact Step.Keeps.pure trivial
  dsimp only
  refine Step.Keeps.bind Step.Keeps.get fun _ _ => ?_
  split
  · exact Step.Keeps.pure trivial
  · exact guarded_keeps (retireCatalogNode_keeps hJ hr)

theorem retireVanished_keeps (hJ : PassesKeep u J) (hr : resource.tenant = u) (kind : NodeKind)
    (present : List String) :
    ∀ roots : List NodeRow, (retireVanished resource kind present roots).Keeps J fun _ => True
  | [] => Step.Keeps.pure trivial
  | _ :: rest => by
    unfold retireVanished
    dsimp only
    split
    · exact Step.Keeps.bind (retireNamespace_keeps hJ hr _ _) fun _ _ =>
        retireVanished_keeps hJ hr kind present rest
    · exact retireVanished_keeps hJ hr kind present rest

theorem chooseNamed_keeps (hJ : PassesKeep u J) (hr : resource.tenant = u) (kind : NodeKind)
    (present : List String) :
    ∀ chosen requested : List String,
      (chooseNamed resource kind present chosen requested).Keeps J fun _ => True
  | _, [] => Pass.Keeps.pure trivial
  | chosen, name :: rest => by
    unfold chooseNamed
    split
    · exact chooseNamed_keeps hJ hr kind present chosen rest
    split
    · exact chooseNamed_keeps hJ hr kind present _ rest
    · exact Pass.Keeps.bind Pass.Keeps.skip fun _ _ =>
        Pass.Keeps.bind (Pass.Keeps.lift (retireNamespace_keeps hJ hr kind name)) fun _ _ =>
          chooseNamed_keeps hJ hr kind present chosen rest

theorem selectNamespaces_keeps (hJ : PassesKeep u J) (hr : resource.tenant = u) (kind : NodeKind)
    (present : List String) :
    ∀ selection, (selectNamespaces resource kind present selection).Keeps J fun _ => True
  | .refresh [] =>
    Pass.Keeps.bind (Pass.Keeps.lift readCatalog_keeps_trivial) fun roots _ =>
      Pass.Keeps.bind (Pass.Keeps.lift (retireVanished_keeps hJ hr kind present roots)) fun _ _ =>
        Pass.Keeps.pure trivial
  | .refresh (_ :: _) => chooseNamed_keeps hJ hr kind present [] _
  | .unscanned =>
    Pass.Keeps.bind (Pass.Keeps.lift readCatalog_keeps_trivial) fun _ _ => Pass.Keeps.pure trivial

theorem acquireFor_keeps (key : SubtreeKey) (selection : Selection) :
    (acquireFor key selection).Keeps J fun _ => True := by
  unfold acquireFor
  refine Pass.Keeps.bind Pass.Keeps.getWorld fun _ _ => ?_
  split
  · exact Pass.Keeps.bind (Pass.Keeps.modifyWorld_off fun _ => rfl) fun _ _ =>
      Pass.Keeps.pure trivial
  · split
    · exact Pass.Keeps.bind Pass.Keeps.skip fun _ _ => Pass.Keeps.pure trivial
    · exact Pass.Keeps.throw

/-- A namespace reconciled under its guard keeps what its reconciliation keeps. -/
theorem reconcileGuarded_keeps {key : SubtreeKey} {selection : Selection}
    {body : Step ScanCounts} (h : body.Keeps J fun _ => True) :
    (reconcileGuarded key selection body).Keeps J fun _ => True := by
  unfold reconcileGuarded
  refine Pass.Keeps.bind (acquireFor_keeps key selection) fun _ _ => ?_
  split
  · exact Pass.Keeps.pure trivial
  refine Pass.Keeps.bind (Pass.Keeps.lift (Step.Keeps.attempt h)) fun result _ => ?_
  refine Pass.Keeps.bind (Pass.Keeps.lift releaseGuard_keeps) fun _ _ => ?_
  rcases result with e | _
  · dsimp only
    split
    · exact Pass.Keeps.throw
    · exact Pass.Keeps.skip
  · exact Pass.Keeps.tally

theorem scanSchemas_keeps (hJ : PassesKeep u J) (hr : resource.tenant = u) {kind : ResourceKind}
    (hk : kind.family = .relational) (selection : Selection) (targets : List String) :
    ∀ schemas, (scanSchemas resource kind selection targets schemas).Keeps J fun _ => True
  | [] => Pass.Keeps.pure trivial
  | schema :: rest => by
    unfold scanSchemas
    dsimp only
    split
    · exact Pass.Keeps.bind (reconcileGuarded_keeps (reconcileSchema_keeps hJ hr hk schema))
        fun _ _ => scanSchemas_keeps hJ hr hk selection targets rest
    · exact scanSchemas_keeps hJ hr hk selection targets rest

theorem scanRelational_keeps (hJ : PassesKeep u J) (hr : resource.tenant = u)
    {kind : ResourceKind} (hk : kind.family = .relational) (selection : Selection) :
    (scanRelational resource kind selection).Keeps J fun _ => True :=
  Pass.Keeps.bind (Pass.Keeps.lift inRelational_keeps) fun schemas _ =>
    Pass.Keeps.bind (selectNamespaces_keeps hJ hr _ _ selection) fun targets _ =>
      scanSchemas_keeps hJ hr hk selection targets schemas

theorem scanPaths_keeps (hJ : PassesKeep u J) (hr : resource.tenant = u) (selection : Selection) :
    ∀ paths, (scanPaths resource selection paths).Keeps J fun _ => True
  | [] => Pass.Keeps.pure trivial
  | path :: rest => by
    unfold scanPaths
    dsimp only
    split
    · exact Pass.Keeps.bind Pass.Keeps.skip fun _ _ => scanPaths_keeps hJ hr selection rest
    · exact Pass.Keeps.bind (reconcileGuarded_keeps (reconcileObjectPath_keeps hJ hr path))
        fun _ _ => scanPaths_keeps hJ hr selection rest

theorem scanObjects_keeps (hJ : PassesKeep u J) (hr : resource.tenant = u) (selection : Selection) :
    (scanObjects resource selection).Keeps J fun _ => True := by
  unfold scanObjects
  refine Pass.Keeps.bind (Pass.Keeps.lift inObjects_keeps) fun _ _ => ?_
  dsimp only
  split
  · split
    · exact Pass.Keeps.bind (Q := fun _ => False) Pass.Keeps.throw fun _ h => h.elim
    · exact Pass.Keeps.bind (Q := fun _ => True) (Pass.Keeps.pure trivial) fun targets _ =>
        scanPaths_keeps hJ hr _ targets
  · exact Pass.Keeps.bind (selectNamespaces_keeps hJ hr _ _ _) fun targets _ =>
      scanPaths_keeps hJ hr _ targets

end Passes

theorem scanRegistered_keeps (hJ : PassesKeep u J) {r : RegisteredResource} (hr : r.tenant = u)
    (selection : Selection) : (scanRegistered r selection).Keeps J fun _ => True := by
  unfold scanRegistered
  refine Pass.Keeps.bind (Pass.Keeps.lift (Step.Keeps.ofExcept (Q := fun _ => True)
    fun _ _ => trivial)) fun _ _ => ?_
  refine Pass.Keeps.bind (Pass.Keeps.lift (writeResource_keeps hJ hr)) fun resource hres => ?_
  dsimp only
  split
  · exact Pass.Keeps.throw
  refine Pass.Keeps.bind (Pass.Keeps.lift connect_keeps) fun conn hconn => ?_
  refine Pass.Keeps.bind (Pass.Keeps.attempt (Q := fun _ => True) ?_) fun _ _ => ?_
  · rcases conn with kind | _
    · exact scanRelational_keeps hJ hres (hconn kind rfl) selection
    · exact scanObjects_keeps hJ hres selection
  exact Pass.Keeps.bind (Pass.Keeps.lift close_keeps) fun _ _ =>
    Pass.Keeps.ofExcept fun _ _ => trivial

theorem scanRegisteredTable_keeps (hJ : PassesKeep u J) {r : RegisteredResource}
    (hr : r.tenant = u) (schema table : String) :
    (scanRegisteredTable r schema table).Keeps J fun _ => True := by
  unfold scanRegisteredTable
  refine Pass.Keeps.bind (Pass.Keeps.lift (Step.Keeps.ofExcept (Q := fun _ => True)
    fun _ _ => trivial)) fun _ _ => ?_
  refine Pass.Keeps.bind (Pass.Keeps.lift (writeResource_keeps hJ hr)) fun resource hres => ?_
  dsimp only
  split
  · exact Pass.Keeps.throw
  refine Pass.Keeps.bind (Pass.Keeps.lift connect_keeps) fun conn _ => ?_
  refine Pass.Keeps.bind (Pass.Keeps.attempt (Q := fun _ => True) ?_) fun _ _ => ?_
  · rcases conn with kind | _
    · exact Pass.Keeps.bind (Pass.Keeps.lift (guarded_keeps
        (reconcileTable_keeps hJ hres kind schema table))) fun _ _ => Pass.Keeps.tally
    · exact Pass.Keeps.throw
  exact Pass.Keeps.bind (Pass.Keeps.lift close_keeps) fun _ _ =>
    Pass.Keeps.ofExcept fun _ _ => trivial

/-! ## Orchestrator calls -/

/-- The directory hands a tenant only its own resources. -/
theorem Directory.lookup_tenant {d : Directory} {t : TenantId} {e : ExternalId}
    {r : RegisteredResource} (h : d.lookup t e = .ok r) : r.tenant = t := by
  unfold Directory.lookup at h
  rcases hf : d.find e with err | o
  · simp [hf, bind, Except.bind] at h
  · rcases o with _ | found
    · simp [hf, bind, Except.bind, throw, throwThe, MonadExceptOf.throw] at h
    · by_cases ht : found.tenant = t
      · simp [hf, bind, Except.bind, ht, pure, Except.pure] at h
        rw [← h, ht]
      · simp [hf, bind, Except.bind, ht, throw, throwThe, MonadExceptOf.throw] at h

theorem Directory.listActive_tenant {d : Directory} {t : TenantId}
    {rs : List RegisteredResource} (h : d.listActive t = .ok rs) : ∀ r ∈ rs, r.tenant = t := by
  unfold Directory.listActive Directory.ofTenant at h
  cases hfail : d.failure with
  | some m => simp [hfail, bind, Except.bind] at h
  | none =>
    simp only [hfail, bind, Except.bind, pure, Except.pure, Except.ok.injEq] at h
    intro r hr
    rw [← h, List.mem_mergeSort, List.mem_filter] at hr
    have hkeep := hr.2
    simp only [Bool.and_eq_true, beq_iff_eq] at hkeep
    exact hkeep.1

theorem lookupResource_keeps (t : TenantId) (e : ExternalId) :
    (lookupResource t e).Keeps J fun r => r.tenant = t :=
  Step.Keeps.bind Step.Keeps.get fun _ _ => Step.Keeps.ofExcept fun _ hr => Directory.lookup_tenant hr

theorem closeRun_keeps (hJ : ScansKeep u J) {run : RunRow} (hrun : run.tenant = u)
    (outcome : ScanCounts × Option ScanError) :
    (closeRun run outcome).Keeps J fun r => r.tenant = u :=
  endRun_keeps hJ hrun

/-- A refresh for `u` keeps what the writes of `u` keep, and the run it returns is `u`'s. -/
theorem scanResource_keeps (hJ : ScansKeep u J) (e : ExternalId) (namespaces : List String) :
    (scanResource u e namespaces).Keeps J fun run => run.tenant = u :=
  Step.Keeps.bind (lookupResource_keeps u e) fun _ hr =>
    Step.Keeps.bind (openRun_keeps hJ rfl) fun _ hrun =>
      Step.Keeps.bind (Pass.Keeps.run (scanRegistered_keeps hJ.passes hr _)) fun outcome _ =>
        closeRun_keeps hJ hrun outcome

theorem scanTable_keeps (hJ : ScansKeep u J) (e : ExternalId) (schema table : String) :
    (scanTable u e schema table).Keeps J fun run => run.tenant = u :=
  Step.Keeps.bind (lookupResource_keeps u e) fun _ hr =>
    Step.Keeps.bind (openRun_keeps hJ rfl) fun _ hrun =>
      Step.Keeps.bind (Pass.Keeps.run (scanRegisteredTable_keeps hJ.passes hr _ _)) fun outcome _ =>
        closeRun_keeps hJ hrun outcome

/-- A dispatch for `u` keeps what the writes of `u` keep; the resources it lists and the run it
records are `u`'s. -/
theorem dispatchUnscanned_keeps (hJ : ScansKeep u J) :
    (dispatchUnscanned u).Keeps J fun d => (∀ r ∈ d.1, r.tenant = u) ∧ d.2.1.tenant = u := by
  unfold dispatchUnscanned
  refine Step.Keeps.bind Step.Keeps.get fun _ _ => ?_
  refine Step.Keeps.bind (Step.Keeps.ofExcept (Q := fun rs => ∀ r ∈ rs, r.tenant = u)
    fun _ hrs => Directory.listActive_tenant hrs) fun resources hres => ?_
  refine Step.Keeps.bind (openRun_keeps hJ rfl) fun _ hrun => ?_
  refine Step.Keeps.bind Step.Keeps.get fun _ _ => ?_
  dsimp only
  split
  · exact Step.Keeps.throw
  · exact Step.Keeps.pure ⟨hres, hrun⟩

/-- The supervisor of a run of `u` keeps what the writes of `u` keep; it returns the run it was
given, and the run it closes is `u`'s. -/
theorem superviseUnscanned_keeps (hJ : ScansKeep u J) (run : RunRow)
    (resources : List RegisteredResource)
    (results : List (Option (Except ScanError (ScanCounts × Option ScanError)))) :
    (superviseUnscanned u run resources results).Keeps J fun d =>
      d.dispatched = run ∧ OnOk (fun r => r.tenant = u) d.finished :=
  Step.Keeps.bind (Step.Keeps.attempt (endRun_keeps hJ rfl)) fun _ hf => Step.Keeps.pure ⟨rfl, hf⟩

/-- The discovery pass over a resource of `u` keeps what the writes of `u` keep. -/
theorem discoveryPass_keeps (hJ : ScansKeep u J) {r : RegisteredResource} (hr : r.tenant = u) :
    (discoveryPass r).Keeps J fun _ => True :=
  Pass.Keeps.run (scanRegistered_keeps hJ.passes hr _)

/-- Discovery for `u` keeps what the writes of `u` keep at every turn of every pass it runs
side by side, and both runs it returns are `u`'s. -/
theorem scanAllUnscanned_keeps (hJ : ScansKeep u J) :
    (scanAllUnscanned u).Keeps J fun d =>
      d.dispatched.tenant = u ∧ OnOk (fun r => r.tenant = u) d.finished := by
  unfold scanAllUnscanned
  refine Step.Keeps.bind (dispatchUnscanned_keeps hJ) fun ⟨resources, run, _⟩ ⟨hres, hrun⟩ => ?_
  refine Step.Keeps.bind (interleaved_keeps fun s hs => ?_) fun results _ =>
    (superviseUnscanned_keeps hJ run resources results).mono fun _ ⟨hd, hf⟩ => ⟨hd ▸ hrun, hf⟩
  obtain ⟨r, hr, rfl⟩ := List.mem_map.1 hs
  exact discoveryPass_keeps hJ (hres r hr)

end DataCatalog.Scan
