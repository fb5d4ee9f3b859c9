import Mathlib
import DataCatalog.Proofs.Scan.RebuildWrites
import DataCatalog.Proofs.Scan.Sessions
/-!
# Every write of a scan is admitted

The catalog writes a scan of tenant `u` makes are `u`'s, name their buckets, prefixes and
objects by unreserved paths, and place them below ids that name buckets and prefixes. The last
part rests on what the scan knows: a prefix is written below the bucket or prefix the scan
wrote or walked just before, an object in the prefix of its directory, and a rewritten subtree
root below the parent it had; other scans may write in between, but no write changes the kind
behind an id (`NodeRow.Known` is kept). So each reconciler, pass, orchestrator call and session
of requests changes the catalog only by writes that any `W` admitting the scans' writes
admits (`Served.writes`).
-/

namespace DataCatalog.Scan

open DataCatalog.Schedule DataCatalog.Catalog DataCatalog.Connect DataCatalog.Source DataCatalog.Storage
open DataCatalog.Ident

variable {u : TenantId} {W : StoreOp → Tables → Prop} {P : Tables → Prop}

/-! ## Names -/

/-- The namespaces of a relational resource are neither buckets nor prefixes. -/
theorem namespaceKind_not_storage {kind : ResourceKind} (hk : kind.family = .relational) :
    ¬kind.namespaceKind.Storage := by
  cases kind <;> simp_all [ResourceKind.family, ResourceKind.namespaceKind, NodeKind.Storage]

theorem tableItem_not_object (node : NodeRow) (t : TableSummary) (fields : List Column) :
    (tableItem node t fields).kind ≠ .object := by
  unfold tableItem
  split <;> simp

/-! ## Rebuilding a subtree -/

/-- An object is written by the scan of `u` in a known bucket or prefix, named by the last
segment of its path. -/
theorem objectItem_admitted {parent : NodeRow} {r : ObjectRecord} {c : Tables}
    (hp : parent.Known u c) (hr : Unreserved r.relativePath) :
    (objectItem parent r).tenant = u ∧ (StoreOp.upsertItem (objectItem parent r)).Named ∧
      (StoreOp.upsertItem (objectItem parent r)).Placed c :=
  ⟨hp.tenant, fun _ => objectItem_name parent r ▸ hr.baseName, fun _ => hp.id⟩

theorem kept_allKnown (l : List NodeRow) : Tables.Kept W fun c => ∀ n ∈ l, n.Known u c :=
  fun _ _ h hl n hn => NodeRow.kept_known u n _ _ h (hl n hn)

/-- A rebuild by a scan of `u` writes what `W` admits: every node it tracks is a bucket or
prefix it knows, a prefix is written by an unreserved segment below one, and an object of an
unreserved path in one. -/
theorem AdmitsScans.rebuildRules (hW : AdmitsScans u W) (target : NodeRow) (base : String) :
    RebuildRules W (target.Known u) (fun e => e.2.Known u) target base where
  kept := NodeRow.kept_known u target
  kept_entry e := NodeRow.kept_known u e.2
  root _ h := h
  clear _ h := hW _ _ h.tenant trivial trivial
  rewrite _ := writeStorageNode_moves hW (NodeRow.kept_known u target) fun _ h =>
    ⟨h.tenant, h.storage, h.name, h.parent⟩
  child _ par _ _ hs := writeStorageNode_moves hW
    ((NodeRow.kept_known u target).and (NodeRow.kept_known u par)) fun _ h =>
      ⟨h.2.tenant, .inr rfl, hs, fun p hp => by
        cases hp
        exact h.2.id⟩
  item _ _ c hr h := (objectItem_admitted h hr).elim fun ht hnp => hW _ c ht hnp.1 hnp.2
  finish _ _ _ _ h := hW _ _ h.tenant trivial trivial

/-- A pass of `u` stamps only nodes of `u`. -/
theorem AdmitsScans.stamps (hW : AdmitsScans u W) {t : TenantId} {id : NodeId} {c : Tables}
    (ht : t = u) : AdmitsStamps W t id c :=
  ⟨hW _ c ht trivial trivial, fun _ => hW _ c ht trivial trivial, fun _ => hW _ c ht trivial trivial⟩

theorem reconcileSubtree_moves (hW : AdmitsScans u W) (hP : Tables.Kept W P) {target : NodeRow}
    (ht : ∀ c, P c → target.Known u c) (base : String) (walked : Option (List ObjectRecord)) :
    (reconcileSubtree target base walked).Moves W P fun _ _ => True := by
  rw [reconcileSubtree_eq]
  exact subtreePass_moves hP (fun c hc => hW.stamps (ht c hc).tenant)
    (replaceObjects_moves (hW.rebuildRules target base) hP ht walked)

/-! ## Chains of prefixes -/

theorem chainFrom_moves (hW : AdmitsScans u W) :
    ∀ {parent : NodeRow} {segs : List String} {P : Tables → Prop}, Tables.Kept W P →
      (∀ c, P c → parent.Known u c) → (∀ s ∈ segs, Unreserved s) →
      (chainFrom parent segs).Moves W P fun chain c => ∀ n ∈ chain, n.Known u c
  | _, [], _, _, _, _ => Step.Moves.pure fun _ _ _ h => absurd h List.not_mem_nil
  | parent, s :: _, _, hP, hp, hsegs =>
    Step.Moves.bind_kept hP (writeStorageNode_moves hW hP fun c hc =>
        ⟨(hp c hc).tenant, .inr rfl, hsegs s List.mem_cons_self, fun p hpp => by
          cases hpp
          exact (hp c hc).id⟩) fun node =>
      Step.Moves.bind_kept (hP.and (NodeRow.kept_known u node))
        (chainFrom_moves hW (hP.and (NodeRow.kept_known u node)) (fun _ h => h.2)
          fun x hx => hsegs x (List.mem_cons_of_mem _ hx)) fun _ =>
        Step.Moves.pure fun _ ⟨⟨_, hn⟩, hrest⟩ => List.forall_mem_cons.2 ⟨hn, hrest⟩

theorem ensureChain_moves (hW : AdmitsScans u W) (hP : Tables.Kept W P) {bucketNode : NodeRow}
    (hb : ∀ c, P c → bucketNode.Known u c) {rel : String} (hrel : Unreserved rel) :
    (ensureChain bucketNode rel).Moves W P fun chain c => ∀ n ∈ chain, n.Known u c :=
  Step.Moves.bind_kept hP (chainFrom_moves hW hP hb fun _ hs =>
      unreserved_of_mem_splitOn hrel (List.mem_filter.1 hs).1) fun _ =>
    Step.Moves.pure fun c ⟨hc, hrest⟩ => List.forall_mem_cons.2 ⟨hb c hc, hrest⟩

theorem chainEnd_known {c : Tables} {fallback : NodeRow} {chain : List NodeRow}
    (hf : fallback.Known u c) (hc : ∀ n ∈ chain, n.Known u c) : (chainEnd fallback chain).Known u c :=
  List.forall_mem_cons.2 ⟨hf, hc⟩ _ List.getLastD_mem_cons

theorem rollUp_moves (hW : AdmitsScans u W) (hP : Tables.Kept W P) {chain : List NodeRow}
    (hc : ∀ c, P c → ∀ n ∈ chain, n.tenant = u) : (rollUp chain).Moves W P fun _ => P :=
  Step.Moves.forM fun node hn =>
    Step.Moves.bind_kept hP (sumChildren_moves hP) fun _ =>
      (Step.Moves.keeping (hP.and (Tables.kept_const True)) (setNodeAggregate_moves hW
        (hP.and (Tables.kept_const True)) fun c hc' => hc c hc'.1 node (List.mem_reverse.1 hn))).mono
        (fun _ h => h) fun _ _ h => h.1

theorem refreshObject_moves (hW : AdmitsScans u W) (hP : Tables.Kept W P) {bucketNode : NodeRow}
    (hb : ∀ c, P c → bucketNode.Known u c) {record : ObjectRecord}
    (hrec : Unreserved record.relativePath) :
    (refreshObject bucketNode record).Moves W P fun _ _ => True := by
  unfold refreshObject
  refine Step.Moves.bind_kept hP (ensureChain_moves hW hP hb hrec.parentDir) fun chain => ?_
  -- the object goes to the end of the chain, which the scan knows
  have hP' := hP.and (kept_allKnown (W := W) (u := u) chain)
  refine Step.Moves.bind_kept hP' (writeItem_moves hW hP' fun c hc =>
    objectItem_admitted (chainEnd_known (hb c hc.1) hc.2) hrec) fun _ => ?_
  refine Step.Moves.bind (rollUp_moves hW (hP'.and (Tables.kept_const True))
    fun c hc n hn => (hc.1.2 n hn).tenant) fun _ => ?_
  exact Step.Moves.pure fun _ _ => trivial

/-- Pruning keeps a part of the chain it was given. -/
theorem pruneEmpty_moves (hW : AdmitsScans u W) :
    ∀ (chain : List NodeRow) (n : Nat) {P : Tables → Prop}, Tables.Kept W P →
      (∀ c, P c → ∀ x ∈ chain, x.tenant = u) →
      (pruneEmpty chain n).Moves W P fun r _ => ∀ x ∈ r.1, x.tenant = u
  | [], _, _, _, _ => Step.Moves.pure fun _ _ _ h => absurd h List.not_mem_nil
  | [_], _, _, _, hc => Step.Moves.pure hc
  | node :: next :: rest, n, P, hP, hc => by
    unfold pruneEmpty
    -- whether the node holds nothing is read in two visits
    refine Step.Moves.bind (Step.Moves.keeping hP
      (readCatalog_moves (R := fun _ => True) hP fun _ _ _ => trivial)) fun _ => ?_
    refine Step.Moves.bind (Step.Moves.keeping hP
      (readCatalog_moves (R := fun _ => True) hP fun _ _ _ => trivial)) fun _ => ?_
    split
    · exact Step.Moves.bind (Step.Moves.keeping hP (retireCatalogNode_moves hW hP
        fun c hcP => hc c hcP node List.mem_cons_self)) fun _ =>
        pruneEmpty_moves hW (next :: rest) (n + 1) hP fun c hcP x hx =>
          hc c hcP x (List.mem_cons_of_mem _ hx)
    · exact Step.Moves.pure hc

theorem prefixChain_moves :
    ∀ {parent : NodeRow} {segs : List String} {P : Tables → Prop}, Tables.Kept W P →
      (∀ c, P c → parent.tenant = u) →
      (prefixChain parent segs).Moves W P
        fun r _ => ∀ chain, r = some chain → ∀ x ∈ chain, x.tenant = u
  | _, [], _, _, _ => Step.Moves.pure fun _ _ _ h => by
      cases h
      exact fun _ h => absurd h List.not_mem_nil
  | parent, s :: rest, P, hP, hp => by
    unfold prefixChain
    refine Step.Moves.bind_kept hP (readCatalog_moves
      (R := fun o => ∀ n, o = some n → n.tenant = parent.tenant) hP
      fun _ _ _ _ hn => (Tables.getNode_key hn).1) fun o => ?_
    rcases o with _ | node
    · exact Step.Moves.pure fun _ _ _ h => by cases h
    -- the node read below the parent is the parent's tenant's
    have hP' := hP.and (Tables.kept_const (W := W)
      (∀ n, some node = some n → n.tenant = parent.tenant))
    have hn : ∀ c, (P c ∧ ∀ n, some node = some n → n.tenant = parent.tenant) →
        node.tenant = u := fun c hc => (hc.2 node rfl).trans (hp c hc.1)
    refine Step.Moves.bind_kept hP' (prefixChain_moves hP' hn) fun r => ?_
    refine Step.Moves.pure fun c hc chain hchain => ?_
    obtain ⟨below, hbelow, rfl⟩ := Option.map_eq_some_iff.1 hchain
    exact List.forall_mem_cons.2 ⟨hn c hc.1, hc.2 below hbelow⟩

theorem forgetPath_moves (hW : AdmitsScans u W) (hP : Tables.Kept W P) {bucketNode : NodeRow}
    (hb : ∀ c, P c → bucketNode.tenant = u) (key : String) :
    (forgetPath bucketNode key).Moves W P fun _ _ => True := by
  unfold forgetPath
  refine Step.Moves.bind_kept hP (prefixChain_moves hP hb) fun r => ?_
  rcases r with _ | below
  · exact Step.Moves.pure fun _ _ => trivial
  have hP' := hP.and (Tables.kept_const (W := W)
    (∀ chain, some below = some chain → ∀ x ∈ chain, x.tenant = u))
  have hchain : ∀ c, (P c ∧ ∀ chain, some below = some chain → ∀ x ∈ chain, x.tenant = u) →
      ∀ x ∈ bucketNode :: below, x.tenant = u :=
    fun c hc => List.forall_mem_cons.2 ⟨hb c hc.1, hc.2 below rfl⟩
  refine Step.Moves.bind (Step.Moves.keeping hP'
    (deleteItem_moves hW hP' fun c hc => hb c hc.1)) fun _ => ?_
  refine Step.Moves.bind (Step.Moves.keeping hP'
    (readCatalog_moves (R := fun _ => True) hP' fun _ _ _ => trivial)) fun o => ?_
  rcases o with _ | node <;> dsimp only
  on_goal 2 => refine Step.Moves.bind (Step.Moves.keeping hP'
    (retireCatalogNode_moves hW hP' fun c hc => hb c hc.1)) fun _ => ?_
  -- with a prefix retired or not, the emptied prefixes are pruned and what remains recomputed
  all_goals
    refine Step.Moves.bind (Step.Moves.pure (Q := fun _ c => P c ∧ _) fun _ h => h) fun _ => ?_
    refine Step.Moves.bind_kept hP' (pruneEmpty_moves hW _ 0 hP'
      fun c hc x hx => hchain c hc x (List.mem_reverse.1 hx)) fun ⟨kept, _⟩ => ?_
    dsimp only
    split
    · exact Step.Moves.bind (rollUp_moves hW (hP'.and (Tables.kept_const _))
        fun _ hc x hx => hc.2 x (List.mem_reverse.1 hx)) fun _ => Step.Moves.pure fun _ _ => trivial
    · exact Step.Moves.pure fun _ _ => trivial

/-- Reconciling an object path of a resource of `u` makes only writes a scan of `u` may make;
with a reserved segment in the path it makes none. -/
theorem reconcileObjectPath_moves (hW : AdmitsScans u W) (hP : Tables.Kept W P)
    {resource : ResourceRow} (hr : ∀ c, P c → resource.tenant = u) (path : String) :
    (reconcileObjectPath resource path).Moves W P fun _ _ => True := by
  unfold reconcileObjectPath
  split
  swap
  · exact Step.Moves.throw
  rename_i bucket key _
  split
  · exact Step.Moves.pure fun _ _ => trivial
  rename_i hres
  simp only [Bool.or_eq_true, not_or, Bool.not_eq_true] at hres
  have hbucket := hasReservedSegment_eq_false_iff.1 hres.1
  have hkey := hasReservedSegment_eq_false_iff.1 hres.2
  refine Step.Moves.bind_kept hP (writeStorageNode_moves hW hP fun c hc =>
    ⟨hr c hc, .inl rfl, hbucket, fun _ h => by cases h⟩) fun bucketNode => ?_
  have hPb := hP.and (NodeRow.kept_known u bucketNode)
  split
  · exact reconcileSubtree_moves hW hPb (fun _ h => h.2) "" none
  refine Step.Moves.bind_kept hPb inObjects_moves fun records => ?_
  have hPr := hPb.and (Tables.kept_const True)
  split
  · rename_i record hclass
    exact refreshObject_moves hW hPr (fun _ h => h.1.2) (ObjectTarget.classify_object hclass ▸ hkey)
  · exact forgetPath_moves hW hPr (fun _ h => h.1.2.tenant) key
  · -- a prefix: the chain down to it is ensured, its subtree rebuilt below the chain's end
    refine Step.Moves.bind_kept hPr (ensureChain_moves hW hPr (fun _ h => h.1.2) hkey)
      fun chain => ?_
    have hPc := hPr.and (kept_allKnown (W := W) (u := u) chain)
    refine Step.Moves.bind (Step.Moves.keeping hPc (reconcileSubtree_moves hW hPc
      (fun _ h => chainEnd_known h.1.1.2 h.2) key _)) fun _ => ?_
    exact Step.Moves.bind (rollUp_moves hW hPc
      fun _ h n hn => (h.2 n (List.dropLast_subset _ hn)).tenant) fun _ =>
      Step.Moves.pure fun _ _ => trivial

/-! ## Relational namespaces -/

/-- Tables and views name and place nothing the catalog keeps clean. -/
theorem tableItem_admitted {node : NodeRow} {t : TableSummary} {fields : List Column} {c : Tables}
    (hn : node.tenant = u) :
    (tableItem node t fields).tenant = u ∧ (StoreOp.upsertItem (tableItem node t fields)).Named ∧
      (StoreOp.upsertItem (tableItem node t fields)).Placed c :=
  ⟨hn, fun h => absurd h (tableItem_not_object node t fields),
    fun h => absurd h (tableItem_not_object node t fields)⟩

theorem reconcileSchema_moves (hW : AdmitsScans u W) (hP : Tables.Kept W P)
    {resource : ResourceRow} (hr : ∀ c, P c → resource.tenant = u) {kind : ResourceKind}
    (hk : kind.family = .relational) (schema : SchemaSummary) :
    (reconcileSchema resource kind schema).Moves W P fun _ _ => True := by
  rw [reconcileSchema_eq]
  refine Step.Moves.bind_kept hP (writeNode_moves hW hP (namespaceKind_not_storage hk) hr)
    fun node => ?_
  -- the namespace's node is `u`'s, so are its table items
  have hPn := hP.and (Tables.kept_const (W := W) (node.tenant = u))
  exact subtreePass_moves hPn (fun c hc => hW.stamps (hr c hc.1)) (replaceTables_moves hPn
    (fun c hc => hW _ c hc.2 trivial trivial)
    fun c hc _ _ => (tableItem_admitted hc.2).elim fun ht hnp => hW _ c ht hnp.1 hnp.2)

/-- The namespace's aggregates recomputed after a table refresh. -/
theorem recompute_moves (hW : AdmitsScans u W) (hP : Tables.Kept W P) {t : TenantId}
    {id : NodeId} (ht : ∀ c, P c → t = u) (counts : ScanCounts) :
    (do
      let agg ← inCatalog (sumChildren t id)
      inCatalog (setNodeAggregate t id agg)
      pure counts : Step ScanCounts).Moves W P fun _ _ => True :=
  Step.Moves.bind (Step.Moves.keeping hP (sumChildren_moves hP)) fun _ =>
    Step.Moves.bind (setNodeAggregate_moves hW hP ht) fun _ => Step.Moves.pure fun _ _ => trivial

theorem reconcileTable_moves (hW : AdmitsScans u W) (hP : Tables.Kept W P)
    {resource : ResourceRow} (hr : ∀ c, P c → resource.tenant = u) (kind : ResourceKind)
    (schema table : String) : (reconcileTable resource kind schema table).Moves W P fun _ _ => True := by
  unfold reconcileTable
  dsimp only
  refine Step.Moves.bind_kept hP (readCatalog_moves
    (R := fun o => ∀ n, o = some n → n.tenant = resource.tenant) hP
    fun _ _ _ _ hn => (Tables.getNode_key hn).1) fun o => ?_
  rcases o with _ | node
  · exact Step.Moves.throw
  have hPn := hP.and (Tables.kept_const (W := W)
    (∀ n, some node = some n → n.tenant = resource.tenant))
  have hr' : ∀ c, (P c ∧ ∀ n, some node = some n → n.tenant = resource.tenant) →
      resource.tenant = u := fun c hc => hr c hc.1
  have hn : ∀ c, (P c ∧ ∀ n, some node = some n → n.tenant = resource.tenant) →
      node.tenant = u := fun c hc => (hc.2 node rfl).trans (hr' c hc)
  refine Step.Moves.bind (Step.Moves.keeping hPn inRelational_moves) fun _ => ?_
  -- the table is written again or removed; the namespace's aggregates are then recomputed
  split
  · exact Step.Moves.bind (Step.Moves.keeping hPn inRelational_moves) fun fields =>
      Step.Moves.bind (Step.Moves.keeping hPn (deleteItem_moves hW hPn hr')) fun _ =>
        Step.Moves.bind (Step.Moves.keeping hPn (writeItem_moves hW hPn fun c hc =>
          tableItem_admitted (hn c hc))) fun _ =>
          Step.Moves.bind (Step.Moves.pure (Q := fun _ c => _) fun _ h => h) fun counts =>
            recompute_moves hW hPn hr' counts
  · exact Step.Moves.bind (Step.Moves.keeping hPn (deleteItem_moves hW hPn hr')) fun _ =>
      Step.Moves.bind (Step.Moves.keeping hPn (deleteItem_moves hW hPn hr')) fun _ =>
        Step.Moves.bind (Step.Moves.pure (Q := fun _ c => _) fun _ h => h) fun counts =>
          recompute_moves hW hPn hr' counts

/-! ## Passes -/

section Passes

variable {resource : ResourceRow}

theorem retireNamespace_moves (hW : AdmitsScans u W) (hP : Tables.Kept W P)
    (hr : ∀ c, P c → resource.tenant = u) (kind : NodeKind) (name : String) :
    (retireNamespace resource kind name).Moves W P fun _ _ => True := by
  unfold retireNamespace
  refine Step.Moves.bind (Step.Moves.keeping hP
    (readCatalog_moves (R := fun _ => True) hP fun _ _ _ => trivial)) fun o => ?_
  rcases o with _ | node
  · exact Step.Moves.pure fun _ _ => trivial
  dsimp only
  refine Step.Moves.bind (Step.Moves.keeping hP Step.Moves.get) fun _ => ?_
  split
  · exact Step.Moves.pure fun _ _ => trivial
  · exact guarded_moves hP (retireCatalogNode_moves hW hP hr)

theorem retireVanished_moves (hW : AdmitsScans u W) (hP : Tables.Kept W P)
    (hr : ∀ c, P c → resource.tenant = u) (kind : NodeKind) (present : List String) :
    ∀ roots : List NodeRow, (retireVanished resource kind present roots).Moves W P fun _ _ => True
  | [] => Step.Moves.pure fun _ _ => trivial
  | _ :: rest => by
    unfold retireVanished
    dsimp only
    split
    · exact Step.Moves.bind (Step.Moves.keeping hP (retireNamespace_moves hW hP hr _ _)) fun _ =>
        retireVanished_moves hW hP hr kind present rest
    · exact retireVanished_moves hW hP hr kind present rest

theorem chooseNamed_moves (hW : AdmitsScans u W) (hP : Tables.Kept W P)
    (hr : ∀ c, P c → resource.tenant = u) (kind : NodeKind) (present : List String) :
    ∀ chosen requested : List String,
      (chooseNamed resource kind present chosen requested).Moves W P fun _ _ => True
  | _, [] => Pass.Moves.pure fun _ _ => trivial
  | chosen, name :: rest => by
    unfold chooseNamed
    split
    · exact chooseNamed_moves hW hP hr kind present chosen rest
    split
    · exact chooseNamed_moves hW hP hr kind present _ rest
    · exact Pass.Moves.bind Pass.Moves.skip fun _ =>
        Pass.Moves.bind (Pass.Moves.lift (Step.Moves.keeping hP
          (retireNamespace_moves hW hP hr kind name))) fun _ =>
          chooseNamed_moves hW hP hr kind present chosen rest

theorem selectNamespaces_moves (hW : AdmitsScans u W) (hP : Tables.Kept W P)
    (hr : ∀ c, P c → resource.tenant = u) (kind : NodeKind) (present : List String) :
    ∀ selection, (selectNamespaces resource kind present selection).Moves W P fun _ _ => True
  | .refresh [] =>
    Pass.Moves.bind (Pass.Moves.lift (Step.Moves.keeping hP
      (readCatalog_moves (R := fun _ => True) hP fun _ _ _ => trivial))) fun roots =>
      Pass.Moves.bind (Pass.Moves.lift (retireVanished_moves hW hP hr kind present roots))
        fun _ => Pass.Moves.pure fun _ _ => trivial
  | .refresh (_ :: _) => chooseNamed_moves hW hP hr kind present [] _
  | .unscanned =>
    Pass.Moves.bind (Pass.Moves.lift
      (readCatalog_moves (R := fun _ => True) hP fun _ _ _ => trivial)) fun _ =>
      Pass.Moves.pure fun _ _ => trivial

theorem acquireFor_moves (key : SubtreeKey) (selection : Selection) :
    (acquireFor key selection).Moves W P fun _ => P := by
  unfold acquireFor
  refine Pass.Moves.bind Pass.Moves.getWorld fun _ => ?_
  split
  · exact Pass.Moves.bind (Pass.Moves.modifyWorld_off fun _ => rfl) fun _ =>
      Pass.Moves.pure fun _ h => h
  · split
    · exact Pass.Moves.bind Pass.Moves.skip fun _ => Pass.Moves.pure fun _ h => h
    · exact Pass.Moves.throw

/-- A namespace reconciled under its guard moves as its reconciliation does. -/
theorem reconcileGuarded_moves (hP : Tables.Kept W P) {key : SubtreeKey} {selection : Selection}
    {body : Step ScanCounts} (h : body.Moves W P fun _ _ => True) :
    (reconcileGuarded key selection body).Moves W P fun _ _ => True := by
  unfold reconcileGuarded
  refine Pass.Moves.bind (acquireFor_moves key selection) fun _ => ?_
  split
  · exact Pass.Moves.pure fun _ _ => trivial
  refine Pass.Moves.bind (Pass.Moves.lift (Step.Moves.keeping hP (Step.Moves.attempt hP h)))
    fun result => ?_
  refine Pass.Moves.bind (Pass.Moves.lift releaseGuard_moves) fun _ => ?_
  rcases result with e | _
  · dsimp only
    split
    · exact Pass.Moves.throw
    · exact Pass.Moves.skip.mono (fun _ h => h) fun _ _ _ => trivial
  · exact Pass.Moves.tally.mono (fun _ h => h) fun _ _ _ => trivial

theorem scanSchemas_moves (hW : AdmitsScans u W) (hP : Tables.Kept W P)
    (hr : ∀ c, P c → resource.tenant = u) {kind : ResourceKind} (hk : kind.family = .relational)
    (selection : Selection) (targets : List String) :
    ∀ schemas, (scanSchemas resource kind selection targets schemas).Moves W P fun _ _ => True
  | [] => Pass.Moves.pure fun _ _ => trivial
  | schema :: rest => by
    unfold scanSchemas
    dsimp only
    split
    · exact Pass.Moves.bind (Pass.Moves.keeping hP
        (reconcileGuarded_moves hP (reconcileSchema_moves hW hP hr hk schema))) fun _ =>
        scanSchemas_moves hW hP hr hk selection targets rest
    · exact scanSchemas_moves hW hP hr hk selection targets rest

theorem scanRelational_moves (hW : AdmitsScans u W) (hP : Tables.Kept W P)
    (hr : ∀ c, P c → resource.tenant = u) {kind : ResourceKind} (hk : kind.family = .relational)
    (selection : Selection) : (scanRelational resource kind selection).Moves W P fun _ _ => True :=
  Pass.Moves.bind (Pass.Moves.lift (Step.Moves.keeping hP inRelational_moves)) fun schemas =>
    Pass.Moves.bind (Pass.Moves.keeping hP (selectNamespaces_moves hW hP hr _ _ selection))
      fun targets => scanSchemas_moves hW hP hr hk selection targets schemas

theorem scanPaths_moves (hW : AdmitsScans u W) (hP : Tables.Kept W P)
    (hr : ∀ c, P c → resource.tenant = u) (selection : Selection) :
    ∀ paths, (scanPaths resource selection paths).Moves W P fun _ _ => True
  | [] => Pass.Moves.pure fun _ _ => trivial
  | path :: rest => by
    unfold scanPaths
    dsimp only
    split
    · exact Pass.Moves.bind Pass.Moves.skip fun _ => scanPaths_moves hW hP hr selection rest
    · exact Pass.Moves.bind (Pass.Moves.keeping hP
        (reconcileGuarded_moves hP (reconcileObjectPath_moves hW hP hr path))) fun _ =>
        scanPaths_moves hW hP hr selection rest

theorem scanObjects_moves (hW : AdmitsScans u W) (hP : Tables.Kept W P)
    (hr : ∀ c, P c → resource.tenant = u) (selection : Selection) :
    (scanObjects resource selection).Moves W P fun _ _ => True := by
  unfold scanObjects
  refine Pass.Moves.bind (Pass.Moves.lift (Step.Moves.keeping hP inObjects_moves)) fun _ => ?_
  dsimp only
  split
  · split
    · exact Pass.Moves.bind (Q := fun _ _ => False) Pass.Moves.throw fun _ =>
        Pass.Moves.of_false _
    · exact Pass.Moves.bind (Pass.Moves.pure (Q := fun _ => P) fun _ h => h) fun targets =>
        scanPaths_moves hW hP hr _ targets
  · exact Pass.Moves.bind (Pass.Moves.keeping hP (selectNamespaces_moves hW hP hr _ _ _))
      fun targets => scanPaths_moves hW hP hr _ targets

end Passes

/-- A pass over a resource of `u` makes only writes a scan of `u` may make. -/
theorem scanRegistered_moves (hW : AdmitsScans u W) (hP : Tables.Kept W P)
    {r : RegisteredResource} (hr : ∀ c, P c → r.tenant = u) (selection : Selection) :
    (scanRegistered r selection).Moves W P fun _ _ => True := by
  unfold scanRegistered
  refine Pass.Moves.bind (Pass.Moves.lift (Step.Moves.ofExcept (Q := fun _ => P)
    fun _ _ _ h => h)) fun _ => ?_
  refine Pass.Moves.bind_kept hP (Pass.Moves.lift (writeResource_moves hW hP hr)) fun resource => ?_
  have hPr := hP.and (Tables.kept_const (W := W) (resource.tenant = u))
  dsimp only
  split
  · exact Pass.Moves.throw
  refine Pass.Moves.bind_kept hPr (Pass.Moves.lift connect_moves) fun conn => ?_
  have hPc := hPr.and (Tables.kept_const (W := W)
    (∀ k, conn = .relational k → k.family = .relational))
  refine Pass.Moves.bind (Pass.Moves.keeping hPc (Pass.Moves.attempt (Q := fun _ _ => True) hPc ?_))
    fun _ => ?_
  · rcases conn with kind | _
    · exact Pass.Moves.assume (fun _ h => h.2 kind rfl) fun hk =>
        scanRelational_moves hW hPc (fun _ h => h.1.2) hk selection
    · exact scanObjects_moves hW hPc (fun _ h => h.1.2) selection
  · exact Pass.Moves.bind (Pass.Moves.lift close_moves) fun _ =>
      Pass.Moves.ofExcept fun _ _ _ _ => trivial

theorem scanRegisteredTable_moves (hW : AdmitsScans u W) (hP : Tables.Kept W P)
    {r : RegisteredResource} (hr : ∀ c, P c → r.tenant = u) (schema table : String) :
    (scanRegisteredTable r schema table).Moves W P fun _ _ => True := by
  unfold scanRegisteredTable
  refine Pass.Moves.bind (Pass.Moves.lift (Step.Moves.ofExcept (Q := fun _ => P)
    fun _ _ _ h => h)) fun _ => ?_
  refine Pass.Moves.bind_kept hP (Pass.Moves.lift (writeResource_moves hW hP hr)) fun resource => ?_
  have hPr := hP.and (Tables.kept_const (W := W) (resource.tenant = u))
  dsimp only
  split
  · exact Pass.Moves.throw
  refine Pass.Moves.bind (Pass.Moves.keeping hPr (Pass.Moves.lift connect_moves)) fun conn => ?_
  refine Pass.Moves.bind (Pass.Moves.keeping hPr (Pass.Moves.attempt (Q := fun _ _ => True) hPr ?_))
    fun _ => ?_
  · rcases conn with kind | _
    · exact Pass.Moves.bind (Pass.Moves.lift (guarded_moves hPr
        (reconcileTable_moves hW hPr (fun _ h => h.2) kind schema table))) fun _ =>
        Pass.Moves.tally
    · exact Pass.Moves.throw
  · exact Pass.Moves.bind (Pass.Moves.lift close_moves) fun _ =>
      Pass.Moves.ofExcept fun _ _ _ _ => trivial

/-! ## Orchestrator calls and sessions -/

theorem lookupResource_moves (t : TenantId) (e : ExternalId) :
    (lookupResource t e).Moves W P fun r _ => r.tenant = t :=
  Step.Moves.bind Step.Moves.get fun _ =>
    Step.Moves.ofExcept fun _ hr _ _ => Directory.lookup_tenant hr

/-- A refresh for `u` makes only writes a scan of `u` may make, and the run it returns is
`u`'s. -/
theorem scanResource_moves (hW : AdmitsScans u W) (hP : Tables.Kept W P) (e : ExternalId)
    (namespaces : List String) : (scanResource u e namespaces).Moves W P fun run _ => run.tenant = u :=
  Step.Moves.bind_kept hP (lookupResource_moves u e) fun r =>
    have hPr := hP.and (Tables.kept_const (W := W) (r.tenant = u))
    Step.Moves.bind_kept hPr (openRun_moves hW hPr fun _ _ => rfl) fun run =>
      have hPn := hPr.and (Tables.kept_const (W := W) (run.tenant = u))
      Step.Moves.bind (Step.Moves.keeping hPn (Pass.Moves.run
        (scanRegistered_moves hW hPn (fun _ h => h.1.2) _))) fun _ =>
        endRun_moves hW hPn fun _ h => h.2

theorem scanTable_moves (hW : AdmitsScans u W) (hP : Tables.Kept W P) (e : ExternalId)
    (schema table : String) : (scanTable u e schema table).Moves W P fun run _ => run.tenant = u :=
  Step.Moves.bind_kept hP (lookupResource_moves u e) fun r =>
    have hPr := hP.and (Tables.kept_const (W := W) (r.tenant = u))
    Step.Moves.bind_kept hPr (openRun_moves hW hPr fun _ _ => rfl) fun run =>
      have hPn := hPr.and (Tables.kept_const (W := W) (run.tenant = u))
      Step.Moves.bind (Step.Moves.keeping hPn (Pass.Moves.run
        (scanRegisteredTable_moves hW hPn (fun _ h => h.1.2) _ _))) fun _ =>
        endRun_moves hW hPn fun _ h => h.2

/-- A dispatch for `u` makes only writes a scan of `u` may make; the resources it lists and the
run it records are `u`'s. -/
theorem dispatchUnscanned_moves (hW : AdmitsScans u W) (hP : Tables.Kept W P) :
    (dispatchUnscanned u).Moves W P fun d _ => (∀ r ∈ d.1, r.tenant = u) ∧ d.2.1.tenant = u := by
  unfold dispatchUnscanned
  refine Step.Moves.bind (Step.Moves.keeping hP Step.Moves.get) fun _ => ?_
  refine Step.Moves.bind_kept hP (Step.Moves.ofExcept (Q := fun rs _ => ∀ r ∈ rs, r.tenant = u)
    fun _ hrs _ _ => Directory.listActive_tenant hrs) fun resources => ?_
  have hPr := hP.and (Tables.kept_const (W := W) (∀ r ∈ resources, r.tenant = u))
  refine Step.Moves.bind_kept hPr (openRun_moves hW hPr fun _ _ => rfl) fun run => ?_
  have hPn := hPr.and (Tables.kept_const (W := W) (run.tenant = u))
  refine Step.Moves.bind (Step.Moves.keeping hPn Step.Moves.get) fun _ => ?_
  dsimp only
  split
  · exact Step.Moves.throw
  · exact Step.Moves.pure fun _ h => ⟨h.1.2, h.2⟩

/-- The supervisor of a run of `u` makes only writes a scan of `u` may make. -/
theorem superviseUnscanned_moves (hW : AdmitsScans u W) (hP : Tables.Kept W P) (run : RunRow)
    (resources : List RegisteredResource)
    (results : List (Option (Except ScanError (ScanCounts × Option ScanError)))) :
    (superviseUnscanned u run resources results).Moves W P fun _ _ => True :=
  Step.Moves.bind (Step.Moves.attempt hP (endRun_moves hW hP fun _ _ => rfl)) fun _ =>
    Step.Moves.pure fun _ _ => trivial

/-- The discovery pass over a resource of `u` makes only writes a scan of `u` may make. -/
theorem discoveryPass_moves (hW : AdmitsScans u W) {r : RegisteredResource} (hr : r.tenant = u) :
    (discoveryPass r).Moves W (fun _ => True) fun _ _ => True :=
  Pass.Moves.run (scanRegistered_moves hW (Tables.kept_const True) (fun _ _ => hr) _)

/-- Discovery for `u` makes only writes a scan of `u` may make, in every pass it runs side by
side. -/
theorem scanAllUnscanned_moves (hW : AdmitsScans u W) (hP : Tables.Kept W P) :
    (scanAllUnscanned u).Moves W P fun _ _ => True := by
  unfold scanAllUnscanned
  refine Step.Moves.bind (dispatchUnscanned_moves hW hP) fun ⟨resources, run, _⟩ => ?_
  -- every pass is over a resource of `u`, whatever the others wrote before it started
  refine Step.Moves.bind (interleaved_moves fun _ hc s hs => ?_) fun _ =>
    superviseUnscanned_moves hW (Tables.kept_const True) run resources _
  obtain ⟨r, hr, rfl⟩ := List.mem_map.1 hs
  exact discoveryPass_moves hW (hc.1 r hr)

theorem ScanRequest.serve_moves (r : ScanRequest) (hW : AdmitsScans r.tenant W) :
    r.serve.Moves W (fun _ => True) fun _ _ => True := by
  have hT := Tables.kept_const (W := W) True
  cases r with
  | scan t e ns =>
    exact Step.Moves.bind (scanResource_moves hW hT e ns) fun _ => Step.Moves.pure fun _ _ => trivial
  | scanTable t e s tb =>
    exact Step.Moves.bind (scanTable_moves hW hT e s tb) fun _ => Step.Moves.pure fun _ _ => trivial
  | scanUnscanned t =>
    exact Step.Moves.bind (scanAllUnscanned_moves hW hT) fun _ => Step.Moves.pure fun _ _ => trivial
  | reconcilePath res p =>
    exact Step.Moves.bind (reconcileObjectPath_moves hW hT (fun _ _ => rfl) p) fun _ =>
      Step.Moves.pure fun _ _ => trivial

/-- A step that moves the catalog by admitted writes from every well-formed catalog, its
outcome made into a reply, does so too. -/
theorem Step.Moves.reply {α : Type} {x : Step α} {Q : α → Tables → Prop}
    {f : Except ScanError α → Reply} {R : Reply → Prop} (h : x.Moves W (fun _ => True) Q)
    (hf : ∀ o c, (∀ a, o = .ok a → Q a c) → R (f o)) {w : World} (hw : w.catalog.Wf) :
    Turns.Moves (World.Writes W) (fun a _ => R a) (ExceptT.run x >>= fun o => Pure.pure (f o)) w :=
  Turns.Moves.bind (h w hw trivial) fun o _ ho => Turns.Moves.pure (hf o _ ho)

/-- Served beside others from a well-formed catalog, a request makes only writes a scan of its
tenant may make, and a run it dispatches is over resources of its tenant. -/
theorem ScanRequest.thread_moves (r : ScanRequest) (hW : AdmitsScans r.tenant W) {w : World}
    (hw : w.catalog.Wf) :
    Turns.Moves (World.Writes W) (fun a _ => Reply.Dispatches (fun t => AdmitsScans t W) a)
      r.thread w := by
  cases r with
  | scanUnscanned t =>
    refine (dispatchUnscanned_moves hW (Tables.kept_const True)).reply (fun d _ hd => ?_) hw
    rcases d with e | ⟨resources, run, slots⟩
    · trivial
    · exact ⟨hW, (hd _ rfl).1⟩
  | scan t e ns => exact ((ScanRequest.scan t e ns).serve_moves hW).reply (fun _ _ _ => trivial) hw
  | scanTable t e s tb =>
    exact ((ScanRequest.scanTable t e s tb).serve_moves hW).reply (fun _ _ _ => trivial) hw
  | reconcilePath res p =>
    exact ((ScanRequest.reconcilePath res p).serve_moves hW).reply (fun _ _ _ => trivial) hw

/-- From a well-formed catalog, the service's runtime moves the catalog only by writes that `W`
admits of each tenant it dispatches for: entering a connector leaves the catalog, and the passes
and the supervisor of a dispatched run make only writes of its tenant, wherever the others took
the catalog before they start. -/
theorem scanRuntime_moves {w₀ : World} (hw : w₀.catalog.Wf) :
    scanRuntime.Moves (World.Writes W) (Reply.Dispatches fun t => AdmitsScans t W) w₀ where
  enter _ s := refl_of (Tables.Writes W) s.catalog
  fork a f s ha hf hs := by
    cases a with
    | dispatched t run resources slots =>
      obtain ⟨hW, hres⟩ := ha
      cases hf
      have hws := hs.wf hw
      refine ⟨fun p hp => ?_, fun replies _ => ?_⟩
      · obtain ⟨r, hr, rfl⟩ := List.mem_map.1 hp
        exact (discoveryPass_moves hW (hres r hr)).reply (fun _ _ _ => trivial) hws
      · exact (superviseUnscanned_moves hW (Tables.kept_const True) run resources _).reply
          (fun _ _ _ => trivial) hws
    | answered o => cases hf
    | passed o => cases hf

/-- From a well-formed catalog, a session of requests whose tenants' writes `W` admits changes
the catalog only by writes that `W` admits: requests served alone or side by side, with the
passes of their discovery runs, in any interleaving, and whatever changes outside the catalog
between them. -/
theorem Served.writes {R : ScanRequest → Prop} (hW : ∀ r, R r → AdmitsScans r.tenant W)
    {w w' : World} (h : Served R w w') (hw : w.catalog.Wf) : w.catalog.Writes W w'.catalog := by
  induction h with
  | start => exact .refl
  | alone r hr _ ih =>
    exact trans_of (Tables.Writes W) ih ((r.serve_moves (hW r hr)).run (ih.wf hw) trivial).1
  | together rs hrs _ hruns ih =>
    -- the threads start where the session got to, and every run of the runtime from them
    -- moves the catalog by admitted writes
    have hw' := ih.wf hw
    refine trans_of (Tables.Writes W) ih (Config.Moves.runs (scanRuntime_moves hw') hruns
      (Config.moves_launch fun t ht s hs => ?_)).state
    obtain ⟨r, hr, rfl⟩ := List.mem_map.1 ht
    exact r.thread_moves (hW r (hrs r hr)) (hs.wf hw')
  | upstream _ hc ih => exact hc ▸ ih

end DataCatalog.Scan
