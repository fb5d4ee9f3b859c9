import Mathlib
import DataCatalog.Proofs.Scan.Subtrees
/-!
# Every reconciler stays inside its root's subtree

A reconciler targets one root namespace of a resource: a schema or database, or a bucket. Each
of its catalog writes names a node of that root's subtree: the root itself, written by its key;
a child written below a node of the subtree; an item of such a node; or a node of it cleared,
retired or stamped (`StoreOp.Inside`). What makes this hold is what the reconciler knows of the
rows it holds while others write: each lies in the subtree and sits at the root or below a node
of it (`NodeRow.Held`), and no write inside the subtree moves a row out of it. So a schema pass,
a table pass, an object-path pass and the retire of a vanished namespace each change the
catalog only inside their root's subtree, whether they succeed or fail (`reconciliation_confined`).
-/

namespace DataCatalog.Catalog

open DataCatalog.Ident DataCatalog.Scan

variable {c c' : Tables} {k : SubtreeKey}

/-! ## Rows the reconciler holds -/

/-- A row of the subtree is the only row of its id, so its id lies in the subtree. -/
theorem Tables.Wf.below_of_mem (hw : c.Wf) {n : NodeRow} (hn : n ∈ c.nodes)
    (hin : c.inSubtree k n = true) : c.Below k n.id := fun m hm hid => by
  rw [hw.node_eq_of_id hm hn hid]
  exact hin

/-- The row a node write inside the subtree returns is held from then on. -/
theorem upsertNode_held (hw : c.Wf) {i : NodeInput} {row : NodeRow}
    (hin : (StoreOp.upsertNode i).Inside k c) (h : upsertNode i c = .ok (row, c')) :
    row.Held k c' := by
  obtain ⟨hconf, hrow⟩ := Tables.Confined.of_upsertNode hw hin h
  obtain ⟨-, -, hkey, -, hmem, -⟩ := upsertNode_written h
  simp only [NodeRow.naturalKey, Prod.mk.injEq] at hkey
  obtain ⟨ht, hr, hpar, hkd, hn⟩ := hkey
  refine ⟨(upsertNode_wf hw h).below_of_mem hmem hrow, fun hnone => ?_, fun p hp => ?_⟩
  · -- a root is written only by the root's own key
    have hip : i.parent = none := hpar ▸ hnone
    simp only [StoreOp.Inside, hip] at hin
    exact ⟨ht.trans hin.1, hr.trans hin.2.1, hkd.trans hin.2.2.1, hn.trans hin.2.2.2⟩
  · have hip : i.parent = some p := hpar ▸ hp
    simp only [StoreOp.Inside, hip] at hin
    exact hconf.below hin

/-- A live child read below a held parent is held. -/
theorem Tables.Wf.child_held (hw : c.Wf) {par : NodeRow} (hp : par.Held k c) {t : TenantId}
    {r : ResourceId} {kind : NodeKind} {name : String} {n : NodeRow}
    (h : c.getNode t r (some par.id) kind name = some n) : n.Held k c := by
  obtain ⟨hn, hkey, -⟩ := Tables.getNode_some h
  have hpar : n.parent = some par.id := congrArg (·.2.2.1) hkey
  have hin := Tables.inSubtree_of_placed (hw.placed n hn) hpar hp.id
  refine ⟨hw.below_of_mem hn hin, fun hnone => ?_, fun p hp' => ?_⟩
  · rw [hpar] at hnone
    cases hnone
  · rw [hpar] at hp'
    cases hp'
    exact hp.id

/-- The live root read by the root's key is held. -/
theorem Tables.Wf.root_held (hw : c.Wf) {n : NodeRow}
    (h : c.getNode k.tenant k.resource none k.kind k.name = some n) : n.Held k c := by
  obtain ⟨hn, hkey, -⟩ := Tables.getNode_some h
  simp only [NodeRow.naturalKey] at hkey
  have hpar : n.parent = none := congrArg (·.2.2.1) hkey
  refine ⟨hw.below_of_mem hn (hw.root_inSubtree hn hkey), fun _ => ?_, fun p hp => ?_⟩
  · simp only [Prod.mk.injEq] at hkey
    exact ⟨hkey.1, hkey.2.1, hkey.2.2.2.1, hkey.2.2.2.2⟩
  · rw [hpar] at hp
    cases hp

/-- Writing a held row again by its own key is a write inside the subtree. -/
theorem NodeRow.Held.rewrite_inside {n : NodeRow} (h : n.Held k c)
    (a : Option NodeAttributes) :
    (StoreOp.upsertNode ⟨n.tenant, n.resource, n.parent, n.kind, n.name, a⟩).Inside k c := by
  cases hp : n.parent with
  | none => simpa [StoreOp.Inside, hp] using h.root hp
  | some p => simpa [StoreOp.Inside, hp] using h.parent p hp

end DataCatalog.Catalog

namespace DataCatalog.Scan

open DataCatalog.Catalog DataCatalog.Connect DataCatalog.Source DataCatalog.Storage
open DataCatalog.Ident

variable {α : Type} {k : SubtreeKey} {P : Tables → Prop}

/-! ## The building blocks -/

/-- A catalog read whose result the reader knows a fact of, one that admitted writes keep. -/
theorem readCatalog_kept {W : StoreOp → Tables → Prop} {f : Tables → α} {Q : α → Tables → Prop}
    (hP : Tables.Kept W P) (hQ : ∀ a, Tables.Kept W (Q a)) (h : ∀ c, c.Wf → P c → Q (f c) c) :
    (readCatalog f).Moves W P Q := by
  unfold readCatalog inCatalog
  refine inCatalogSpan_moves hP hQ fun c _ _ hw hp hop => ?_
  simp only [Except.ok.injEq, Prod.mk.injEq] at hop
  obtain ⟨rfl, rfl⟩ := hop
  exact ⟨.refl, h c hw hp⟩

/-- A node written inside the subtree is held from then on. -/
theorem writeNode_inside (hP : Tables.Kept (StoreOp.Inside k) P) {i : NodeInput}
    (hin : ∀ c, P c → (StoreOp.upsertNode i).Inside k c) :
    (writeNode i).Moves (StoreOp.Inside k) P fun row c => row.Held k c :=
  storeOp_moves (.upsertNode i) hP (Tables.kept_held k) (fun _ => rfl) hin
    fun c _ _ hw hc hrun => upsertNode_held hw (hin c hc) hrun

theorem writeChild_inside (hP : Tables.Kept (StoreOp.Inside k) P) {par : NodeRow}
    (hp : ∀ c, P c → par.Held k c) (kind : NodeKind) (name : String)
    (a : Option NodeAttributes) :
    (writeNode ⟨par.tenant, par.resource, some par.id, kind, name, a⟩).Moves (StoreOp.Inside k) P
      fun row c => row.Held k c :=
  writeNode_inside hP fun c hc => (hp c hc).id

/-- A pass stamps a node of the subtree only. -/
theorem stamps_inside {c : Tables} {t : TenantId} {id : NodeId} (hb : c.Below k id) :
    AdmitsStamps (StoreOp.Inside k) t id c :=
  ⟨hb, fun _ => hb, fun _ => hb⟩

/-! ## Rebuilding a subtree -/

theorem kept_allHeld (l : List NodeRow) :
    Tables.Kept (StoreOp.Inside k) fun c => ∀ n ∈ l, n.Held k c :=
  fun _ _ h hl n hn => Tables.kept_held k n _ _ h (hl n hn)

/-- A rebuild of a held target stays inside the subtree: every node it tracks is held, the
target is written again by its own key, and every other write names a held node. -/
theorem rebuildRules_inside (target : NodeRow) (base : String) :
    RebuildRules (StoreOp.Inside k) (target.Held k) (fun e => e.2.Held k) target base where
  kept := Tables.kept_held k target
  kept_entry e := Tables.kept_held k e.2
  root _ h := h
  clear _ h := h.id
  rewrite a := writeNode_inside (Tables.kept_held k target) fun _ h => h.rewrite_inside a
  child _ par _ _ _ := writeChild_inside ((Tables.kept_held k target).and (Tables.kept_held k par))
    (fun _ h => h.2) _ _ _
  item _ _ _ _ h := h.id
  finish _ _ _ _ h := h.id

theorem reconcileSubtree_inside (hP : Tables.Kept (StoreOp.Inside k) P) {target : NodeRow}
    (ht : ∀ c, P c → target.Held k c) (base : String) (walked : Option (List ObjectRecord)) :
    (reconcileSubtree target base walked).Moves (StoreOp.Inside k) P fun _ _ => True := by
  rw [reconcileSubtree_eq]
  exact subtreePass_moves hP (fun c hc => stamps_inside (ht c hc).id)
    (replaceObjects_moves (rebuildRules_inside target base) hP ht walked)

/-! ## Chains of prefixes -/

theorem chainFrom_inside :
    ∀ {parent : NodeRow} {segs : List String} {P : Tables → Prop},
      Tables.Kept (StoreOp.Inside k) P → (∀ c, P c → parent.Held k c) →
      (chainFrom parent segs).Moves (StoreOp.Inside k) P fun chain c => ∀ n ∈ chain, n.Held k c
  | _, [], _, _, _ => Step.Moves.pure fun _ _ _ h => absurd h List.not_mem_nil
  | _, _ :: _, _, hP, hp =>
    Step.Moves.bind_kept hP (writeChild_inside hP hp _ _ _) fun node =>
      Step.Moves.bind_kept (hP.and (Tables.kept_held k node))
        (chainFrom_inside (hP.and (Tables.kept_held k node)) fun _ h => h.2) fun _ =>
        Step.Moves.pure fun _ ⟨⟨_, hn⟩, hrest⟩ => List.forall_mem_cons.2 ⟨hn, hrest⟩

theorem ensureChain_inside (hP : Tables.Kept (StoreOp.Inside k) P) {bucketNode : NodeRow}
    (hb : ∀ c, P c → bucketNode.Held k c) (rel : String) :
    (ensureChain bucketNode rel).Moves (StoreOp.Inside k) P
      fun chain c => ∀ n ∈ chain, n.Held k c :=
  Step.Moves.bind_kept hP (chainFrom_inside hP hb) fun _ =>
    Step.Moves.pure fun c ⟨hc, hrest⟩ => List.forall_mem_cons.2 ⟨hb c hc, hrest⟩

theorem chainEnd_held {c : Tables} {fallback : NodeRow} {chain : List NodeRow}
    (hf : fallback.Held k c) (hc : ∀ n ∈ chain, n.Held k c) : (chainEnd fallback chain).Held k c :=
  List.forall_mem_cons.2 ⟨hf, hc⟩ _ List.getLastD_mem_cons

theorem rollUp_inside (hP : Tables.Kept (StoreOp.Inside k) P) {chain : List NodeRow}
    (hc : ∀ c, P c → ∀ n ∈ chain, n.Held k c) :
    (rollUp chain).Moves (StoreOp.Inside k) P fun _ => P :=
  Step.Moves.forM fun node hn =>
    Step.Moves.bind_kept hP (sumChildren_moves hP) fun _ =>
      (Step.Moves.keeping (hP.and (Tables.kept_const True))
        (admittedOp_moves (.setNodeAggregate _ _ _) (hP.and (Tables.kept_const True))
          (fun c hc' => (hc c hc'.1 node (List.mem_reverse.1 hn)).id) fun _ => rfl)).mono
        (fun _ h => h) fun _ _ h => h.1

theorem refreshObject_inside (hP : Tables.Kept (StoreOp.Inside k) P) {bucketNode : NodeRow}
    (hb : ∀ c, P c → bucketNode.Held k c) (record : ObjectRecord) :
    (refreshObject bucketNode record).Moves (StoreOp.Inside k) P fun _ _ => True := by
  unfold refreshObject
  refine Step.Moves.bind_kept hP (ensureChain_inside hP hb _) fun chain => ?_
  -- the object goes to the end of the chain, which is held
  have hP' := hP.and (kept_allHeld (k := k) chain)
  refine Step.Moves.bind_kept hP' (admittedOp_moves (.upsertItem _) hP'
    (fun c hc => by exact (chainEnd_held (hb c hc.1) hc.2).id) fun _ => rfl) fun _ => ?_
  exact Step.Moves.bind (rollUp_inside (hP'.and (Tables.kept_const True)) fun c hc => hc.1.2)
    fun _ => Step.Moves.pure fun _ _ => trivial

/-- Pruning keeps a part of the chain it was given. -/
theorem pruneEmpty_inside :
    ∀ (chain : List NodeRow) (n : Nat) {P : Tables → Prop}, Tables.Kept (StoreOp.Inside k) P →
      (∀ c, P c → ∀ x ∈ chain, x.Held k c) →
      (pruneEmpty chain n).Moves (StoreOp.Inside k) P fun r c => ∀ x ∈ r.1, x.Held k c
  | [], _, _, _, _ => Step.Moves.pure fun _ _ _ h => absurd h List.not_mem_nil
  | [_], _, _, _, hc => Step.Moves.pure hc
  | node :: next :: rest, n, P, hP, hc => by
    unfold pruneEmpty
    -- whether the node holds nothing is read in two visits
    refine Step.Moves.bind (Step.Moves.keeping hP
      (readCatalog_moves (R := fun _ => True) hP fun _ _ _ => trivial)) fun _ => ?_
    refine Step.Moves.bind (Step.Moves.keeping hP
      (readCatalog_moves (R := fun _ => True) hP fun _ _ _ => trivial)) fun _ => ?_
    split
    · exact Step.Moves.bind (Step.Moves.keeping hP (admittedOp_moves (.retireNode _ _) hP
        (fun c hcP => (hc c hcP node List.mem_cons_self).id) fun _ => rfl)) fun _ =>
        pruneEmpty_inside (next :: rest) (n + 1) hP fun c hcP x hx =>
          hc c hcP x (List.mem_cons_of_mem _ hx)
    · exact Step.Moves.pure hc

theorem prefixChain_inside :
    ∀ {parent : NodeRow} {segs : List String} {P : Tables → Prop},
      Tables.Kept (StoreOp.Inside k) P → (∀ c, P c → parent.Held k c) →
      (prefixChain parent segs).Moves (StoreOp.Inside k) P
        fun r c => ∀ chain, r = some chain → ∀ x ∈ chain, x.Held k c
  | _, [], _, _, _ => Step.Moves.pure fun _ _ _ h => by
      cases h
      exact fun _ h => absurd h List.not_mem_nil
  | parent, s :: rest, P, hP, hp => by
    unfold prefixChain
    have hQ : ∀ o : Option NodeRow, Tables.Kept (StoreOp.Inside k)
        fun c => ∀ n, o = some n → n.Held k c :=
      fun _ => Tables.Kept.forall fun n => Tables.Kept.imp _ (Tables.kept_held k n)
    -- the node read below a held parent is held
    refine Step.Moves.bind_kept hP (readCatalog_kept hP hQ
      fun c hw hc n hn => hw.child_held (hp c hc) hn) fun o => ?_
    rcases o with _ | node
    · exact Step.Moves.pure fun _ _ _ h => by cases h
    refine Step.Moves.bind_kept (hP.and (hQ _))
      (prefixChain_inside (hP.and (hQ _)) fun _ h => h.2 node rfl) fun r => ?_
    refine Step.Moves.pure fun c hc chain hchain => ?_
    obtain ⟨below, hbelow, rfl⟩ := Option.map_eq_some_iff.1 hchain
    exact List.forall_mem_cons.2 ⟨hc.1.2 node rfl, hc.2 below hbelow⟩

theorem forgetPath_inside (hP : Tables.Kept (StoreOp.Inside k) P) {bucketNode : NodeRow}
    (hb : ∀ c, P c → bucketNode.Held k c) (key : String) :
    (forgetPath bucketNode key).Moves (StoreOp.Inside k) P fun _ _ => True := by
  unfold forgetPath
  refine Step.Moves.bind_kept hP (prefixChain_inside hP hb) fun r => ?_
  rcases r with _ | below
  · exact Step.Moves.pure fun _ _ => trivial
  have hQ : ∀ o : Option NodeRow, Tables.Kept (StoreOp.Inside k)
      fun c => ∀ n, o = some n → n.Held k c :=
    fun _ => Tables.Kept.forall fun n => Tables.Kept.imp _ (Tables.kept_held k n)
  -- the chain read is held, and so is its end, the parent of what vanished
  let R : Tables → Prop := fun c => P c ∧ ∀ chain, some below = some chain → ∀ x ∈ chain, x.Held k c
  have hR : Tables.Kept (StoreOp.Inside k) R := hP.and (Tables.Kept.forall fun chain =>
    Tables.Kept.imp (some below = some chain) (kept_allHeld (k := k) chain))
  have hchain : ∀ c, R c → ∀ x ∈ bucketNode :: below, x.Held k c :=
    fun c hc => List.forall_mem_cons.2 ⟨hb c hc.1, hc.2 below rfl⟩
  have hend : ∀ c, R c → (chainEnd bucketNode (bucketNode :: below)).Held k c :=
    fun c hc => chainEnd_held (hb c hc.1) (hchain c hc)
  refine Step.Moves.bind (Step.Moves.keeping hR (admittedOp_moves (.deleteItem _ _ _ _) hR
    (fun c hc => (hend c hc).id) fun _ => rfl)) fun _ => ?_
  refine Step.Moves.bind_kept hR (readCatalog_kept hR hQ
    fun c hw hc n hn => hw.child_held (hend c hc) hn) fun o => ?_
  rcases o with _ | node <;> dsimp only
  on_goal 2 => refine Step.Moves.bind (Step.Moves.keeping (hR.and (hQ _))
    (admittedOp_moves (.retireNode _ _) (hR.and (hQ _)) (fun c hc => (hc.2 node rfl).id)
      fun _ => rfl)) fun _ => ?_
  -- with a prefix retired or not, the emptied prefixes are pruned and what remains recomputed
  all_goals
    refine Step.Moves.bind (Step.Moves.pure (Q := fun _ => R) fun _ h => h.1) fun _ => ?_
    refine Step.Moves.bind_kept hR (pruneEmpty_inside _ 0 hR
      fun c hc x hx => hchain c hc x (List.mem_reverse.1 hx)) fun ⟨kept, _⟩ => ?_
    dsimp only
    split
    · exact Step.Moves.bind (rollUp_inside (hR.and (kept_allHeld (k := k) kept))
        fun _ hc x hx => hc.2 x (List.mem_reverse.1 hx)) fun _ => Step.Moves.pure fun _ _ => trivial
    · exact Step.Moves.pure fun _ _ => trivial

/-- An object-path pass stays inside the subtree of its bucket. -/
theorem reconcileObjectPath_inside (hP : Tables.Kept (StoreOp.Inside k) P)
    {resource : ResourceRow} {path bucket key : String}
    (hsplit : splitObjectPath path = some (bucket, key)) (hk : k = rootKey resource .bucket bucket) :
    (reconcileObjectPath resource path).Moves (StoreOp.Inside k) P fun _ _ => True := by
  subst hk
  unfold reconcileObjectPath
  rw [hsplit]
  dsimp only
  split
  · exact Step.Moves.pure fun _ _ => trivial
  refine Step.Moves.bind_kept hP (writeNode_inside hP fun _ _ => by
    simp [StoreOp.Inside, rootKey]) fun bucketNode => ?_
  have hPb := hP.and (Tables.kept_held _ bucketNode)
  split
  · exact reconcileSubtree_inside hPb (fun _ h => h.2) "" none
  refine Step.Moves.bind_kept hPb inObjects_moves fun records => ?_
  have hPr := hPb.and (Tables.kept_const True)
  split
  · exact refreshObject_inside hPr (fun _ h => h.1.2) _
  · exact forgetPath_inside hPr (fun _ h => h.1.2) key
  · -- a prefix: the chain down to it is ensured, its subtree rebuilt below the chain's end
    refine Step.Moves.bind_kept hPr (ensureChain_inside hPr (fun _ h => h.1.2) key)
      fun chain => ?_
    have hPc := hPr.and (kept_allHeld (k := rootKey resource .bucket bucket) chain)
    refine Step.Moves.bind (Step.Moves.keeping hPc (reconcileSubtree_inside hPc
      (fun _ h => chainEnd_held h.1.1.2 h.2) key _)) fun _ => ?_
    exact Step.Moves.bind (rollUp_inside hPc fun _ h n hn => h.2 n (List.dropLast_subset _ hn))
      fun _ => Step.Moves.pure fun _ _ => trivial

/-! ## Relational namespaces -/

/-- A schema pass stays inside the subtree of its namespace. -/
theorem reconcileSchema_inside (hP : Tables.Kept (StoreOp.Inside k) P) {resource : ResourceRow}
    {kind : ResourceKind} {schema : SchemaSummary}
    (hk : k = rootKey resource kind.namespaceKind schema.name) :
    (reconcileSchema resource kind schema).Moves (StoreOp.Inside k) P fun _ _ => True := by
  subst hk
  rw [reconcileSchema_eq]
  refine Step.Moves.bind_kept hP (writeNode_inside hP fun _ _ => by
    simp [StoreOp.Inside, rootKey]) fun node => ?_
  -- the namespace's node is the subtree's root, held from its write on
  have hPn := hP.and (Tables.kept_held _ node)
  exact subtreePass_moves hPn (fun _ hc => stamps_inside hc.2.id)
    (replaceTables_moves hPn (fun _ hc => hc.2.id) fun _ hc _ _ => hc.2.id)

/-- A table pass stays inside the subtree of its namespace, which it reads by the namespace's
key. -/
theorem reconcileTable_inside (hP : Tables.Kept (StoreOp.Inside k) P) {resource : ResourceRow}
    {kind : ResourceKind} {schema : String} (table : String)
    (hk : k = rootKey resource kind.namespaceKind schema) :
    (reconcileTable resource kind schema table).Moves (StoreOp.Inside k) P fun _ _ => True := by
  subst hk
  unfold reconcileTable
  dsimp only
  have hQ : ∀ o : Option NodeRow, Tables.Kept (StoreOp.Inside (rootKey resource kind.namespaceKind
      schema)) fun c => ∀ n, o = some n → n.Held (rootKey resource kind.namespaceKind schema) c :=
    fun _ => Tables.Kept.forall fun n => Tables.Kept.imp _ (Tables.kept_held _ n)
  refine Step.Moves.bind_kept hP (readCatalog_kept hP hQ fun c hw _ n hn => hw.root_held hn)
    fun o => ?_
  rcases o with _ | node
  · exact Step.Moves.throw
  have hPn := hP.and (hQ (some node))
  have hb : ∀ c, P c ∧ (∀ n, some node = some n →
      n.Held (rootKey resource kind.namespaceKind schema) c) →
      c.Below (rootKey resource kind.namespaceKind schema) node.id :=
    fun _ hc => (hc.2 node rfl).id
  -- the table is written again or removed; the namespace's aggregates are then recomputed
  have hrecompute : ∀ counts : ScanCounts, (do
      let agg ← inCatalog (sumChildren resource.tenant node.id)
      inCatalog (setNodeAggregate resource.tenant node.id agg)
      pure counts : Step ScanCounts).Moves (StoreOp.Inside _) _ fun _ _ => True := fun _ =>
    Step.Moves.bind (Step.Moves.keeping hPn (sumChildren_moves hPn)) fun _ =>
      Step.Moves.bind (admittedOp_moves (.setNodeAggregate _ _ _) hPn hb fun _ => rfl) fun _ =>
        Step.Moves.pure fun _ _ => trivial
  refine Step.Moves.bind (Step.Moves.keeping hPn inRelational_moves) fun _ => ?_
  split
  · exact Step.Moves.bind (Step.Moves.keeping hPn inRelational_moves) fun fields =>
      Step.Moves.bind (Step.Moves.keeping hPn
        (admittedOp_moves (.deleteItem _ _ _ _) hPn hb fun _ => rfl)) fun _ =>
        Step.Moves.bind (Step.Moves.keeping hPn (admittedOp_moves (.upsertItem _) hPn
          (fun c hc => by exact hb c hc) fun _ => rfl)) fun _ =>
          Step.Moves.bind (Step.Moves.pure (Q := fun _ c => _) fun _ h => h) hrecompute
  · exact Step.Moves.bind (Step.Moves.keeping hPn
      (admittedOp_moves (.deleteItem _ _ _ _) hPn hb fun _ => rfl)) fun _ =>
      Step.Moves.bind (Step.Moves.keeping hPn
        (admittedOp_moves (.deleteItem _ _ _ _) hPn hb fun _ => rfl)) fun _ =>
        Step.Moves.bind (Step.Moves.pure (Q := fun _ c => _) fun _ h => h) hrecompute

/-- Retiring a vanished namespace retires only its own live root, read by its key. -/
theorem retireNamespace_inside (hP : Tables.Kept (StoreOp.Inside k) P) {resource : ResourceRow}
    {kind : NodeKind} {name : String} (hk : k = rootKey resource kind name) :
    (retireNamespace resource kind name).Moves (StoreOp.Inside k) P fun _ _ => True := by
  subst hk
  unfold retireNamespace
  have hQ : ∀ o : Option NodeRow, Tables.Kept (StoreOp.Inside (rootKey resource kind name))
      fun c => ∀ n, o = some n → n.Held (rootKey resource kind name) c :=
    fun _ => Tables.Kept.forall fun n => Tables.Kept.imp _ (Tables.kept_held _ n)
  refine Step.Moves.bind_kept hP (readCatalog_kept hP hQ fun c hw _ n hn => hw.root_held hn)
    fun o => ?_
  rcases o with _ | node
  · exact Step.Moves.pure fun _ _ => trivial
  dsimp only
  have hPn := hP.and (hQ (some node))
  refine Step.Moves.bind (Step.Moves.keeping hPn Step.Moves.get) fun _ => ?_
  split
  · exact Step.Moves.pure fun _ _ => trivial
  · exact guarded_moves hPn (admittedOp_moves (.retireNode _ _) hPn
      (fun _ hc => (hc.2 node rfl).id) fun _ => rfl)

/-! ## Reconcilers are confined -/

/-- A step that writes only inside the subtree, run alone from a well-formed catalog, changes the
catalog only inside it, whether it succeeds or fails. -/
theorem Step.Moves.confined {x : Step α}
    (h : x.Moves (StoreOp.Inside k) (fun _ => True) fun _ _ => True) {w : World}
    (hw : w.catalog.Wf) : w.catalog.Confined k (x.runAlone w).2.catalog :=
  (h.run hw trivial).1.confined

/-- Each reconciler, run alone from a well-formed catalog, changes only the subtree of the root
namespace it targets, whether it succeeds or fails: a schema pass and a table pass that of their
namespace, an object-path pass that of its bucket, the retire of a vanished namespace that of the
namespace. Every node outside the subtree, every item of no node of it, the resources and the
scan runs stay as they were, and the root keeps its path. -/
theorem reconciliation_confined (w : World) (hw : w.catalog.Wf) (resource : ResourceRow) :
    (∀ kind schema, w.catalog.Confined (rootKey resource kind.namespaceKind schema.name)
        ((reconcileSchema resource kind schema).runAlone w).2.catalog) ∧
      (∀ kind schema table, w.catalog.Confined (rootKey resource kind.namespaceKind schema)
        ((reconcileTable resource kind schema table).runAlone w).2.catalog) ∧
      (∀ path bucket key, splitObjectPath path = some (bucket, key) →
        w.catalog.Confined (rootKey resource .bucket bucket)
          ((reconcileObjectPath resource path).runAlone w).2.catalog) ∧
      ∀ kind name, w.catalog.Confined (rootKey resource kind name)
        ((retireNamespace resource kind name).runAlone w).2.catalog :=
  ⟨fun _ _ => (reconcileSchema_inside (Tables.kept_const True) rfl).confined hw,
    fun _ _ table => (reconcileTable_inside (Tables.kept_const True) table rfl).confined hw,
    fun _ _ _ hsplit =>
      (reconcileObjectPath_inside (Tables.kept_const True) hsplit rfl).confined hw,
    fun _ _ => (retireNamespace_inside (Tables.kept_const True) rfl).confined hw⟩

/-- From the empty catalog, a pass over path logs/2024 changes only the subtree of bucket
logs. -/
theorem logs_pass_confined :
    let w : World := {}
    let r : ResourceRow := ⟨⟨"r"⟩, ⟨1⟩, ⟨1⟩, "s3", "", "r", [], .active, 0, none, ⟨0, 0⟩, ⟨0, 0⟩⟩
    w.catalog.Wf ∧ splitObjectPath "logs/2024" = some ("logs", "2024") ∧
      w.catalog.Confined (rootKey r .bucket "logs")
        ((reconcileObjectPath r "logs/2024").runAlone w).2.catalog := by
  intro w r
  have hw : w.catalog.Wf := Tables.wf_empty
  have hs : splitObjectPath "logs/2024" = some ("logs", "2024") := by decide
  exact ⟨hw, hs, (reconciliation_confined w hw r).2.2.1 _ _ _ hs⟩

end DataCatalog.Scan
