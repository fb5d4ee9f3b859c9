import DataCatalog.Scan.Reconcile.Relational
import DataCatalog.Storage.Connector
/-!
# Reconciling object storage

An object path `bucket[/key]` names a whole bucket, a prefix, a single object, or nothing
any more. A bucket pass clears the bucket node's subtree and rebuilds it from a walk of the
bucket: prefix nodes with the counts the walk reports, object items below them, and on each
prefix the number and size of the objects under it. A narrower path is walked first to learn
what it names:

* one object whose relative path is the key: that item is written again and the aggregates
  of its ancestors recomputed bottom-up;
* one empty aggregate record: the path vanished, so its item or prefix is removed, then every
  ancestor prefix left empty, and the aggregates of what remains are recomputed;
* anything else is a prefix: the chain of prefix nodes down to it is ensured, its subtree is
  rebuilt from the walk like a bucket, and the ancestors' aggregates are recomputed.

Paths with a reserved segment are skipped, and so are records outside the walked subtree.
-/

namespace DataCatalog.Scan

open DataCatalog.Catalog DataCatalog.Storage DataCatalog.Ident

/-- The node attributes a walk record reports. -/
def storageAttributes (r : ObjectRecord) : NodeAttributes :=
  .storage r.objectCount r.sizeBytes r.lastModified

/-- The item an object record is written as, below `parent`. -/
def objectItem (parent : NodeRow) (r : ObjectRecord) : ItemInput :=
  ⟨parent.tenant, parent.id, .object, baseName r.relativePath, none, r.sizeBytes, r.lastModified,
    .object r.fileType r.contentType r.etag⟩

/-- Sets an entry of a table keyed by relative path, replacing an entry of the same key. -/
def setEntry {α : Type} (key : String) (v : α) : List (String × α) → List (String × α)
  | [] => [(key, v)]
  | (k, w) :: rest => if k == key then (k, v) :: rest else (k, w) :: setEntry key v rest

/-- Walks down from `parent` along the segments of a relative path, writing the prefix nodes
that are not tracked yet (and the last one again when it brings attributes). -/
def walkSegments (rel : String) (attributes : Option NodeAttributes) :
    List (String × NodeRow) → String → NodeRow → List String →
      Step (NodeRow × List (String × NodeRow))
  | tracked, _, parent, [] => pure (parent, tracked)
  | tracked, current, parent, segment :: rest => do
    let here := joinRel current segment
    let isLeaf := here == rel
    match tracked.lookup here with
    | some existing =>
      if !(isLeaf && attributes.isSome) then walkSegments rel attributes tracked here existing rest
      else
        let node ← writeNode ⟨parent.tenant, parent.resource, some parent.id, .keyPrefix,
          segment, attributes⟩
        walkSegments rel attributes (setEntry here node tracked) here node rest
    | none =>
      let node ← writeNode ⟨parent.tenant, parent.resource, some parent.id, .keyPrefix,
        segment, if isLeaf then attributes else none⟩
      walkSegments rel attributes (setEntry here node tracked) here node rest

/-- The prefix node of `rel` below the walked root `base`, with any missing prefixes between
them written; `attributes` applies to `rel` only. -/
def ensurePrefix (tracked : List (String × NodeRow)) (base rel : String)
    (attributes : Option NodeAttributes) : Step (NodeRow × List (String × NodeRow)) := do
  let some root := tracked.lookup base
    | throw (.internal ("subtree root '" ++ base ++ "' not tracked"))
  if rel == base then return (root, tracked)
  let suffix := if base.isEmpty then rel else Text.dropChars rel (base.length + 1)
  walkSegments rel attributes tracked base root (Text.splitOn '/' suffix)

/-- Adds one object of `size` to the aggregate of `dir` and of every directory above it up to
the walked root `base`. -/
def addUpTo (base : String) (size : Int) :
    Nat → String → List (String × Aggregate) → List (String × Aggregate)
  | 0, _, totals => totals
  | fuel + 1, dir, totals =>
    let totals := setEntry dir (((totals.lookup dir).getD {}).addItem size) totals
    if dir == base then totals else addUpTo base size fuel (parentDir dir) totals

/-- What a subtree rebuild has written so far. -/
structure Placement where
  tracked : List (String × NodeRow)
  totals : List (String × Aggregate)
  counts : ScanCounts

/-- Writes one walk record into the subtree of `target`, rooted at `base` in `bucket`. -/
def placeRecord (target : NodeRow) (bucket base : String) (p : Placement) (record : ObjectRecord) :
    Step Placement := do
  let rel := collapseEmptySegments record.relativePath
  if hasReservedSegment rel then return { p with counts := { p.counts with skipped := p.counts.skipped + 1 } }
  if record.bucket != bucket || !isWithin base rel then return p
  match record.kind with
  | .bucket =>
    if base.isEmpty && rel.isEmpty then
      let updated ← writeNode ⟨target.tenant, target.resource, target.parent, target.kind,
        target.name, some (storageAttributes record)⟩
      return { p with tracked := setEntry base updated p.tracked }
    return p
  | .keyPrefix =>
    if rel.isEmpty then return p
    if rel == base then
      let updated ← writeNode ⟨target.tenant, target.resource, target.parent, target.kind,
        target.name, some (storageAttributes record)⟩
      return { p with tracked := setEntry base updated p.tracked }
    let (_, tracked) ← ensurePrefix p.tracked base rel (some (storageAttributes record))
    return { p with tracked := tracked }
  | .object =>
    let dir := parentDir rel
    if !isWithin base dir then return p
    let (parent, tracked) ← ensurePrefix p.tracked base dir none
    let _ ← writeItem (objectItem parent { record with relativePath := rel })
    return { tracked := tracked
             totals := addUpTo base record.sizeBytes (dir.length + 1) dir p.totals
             counts := { p.counts with items := p.counts.items + 1 } }

/-- Writes the walk records one by one. -/
def placeRecords (target : NodeRow) (bucket base : String) :
    Placement → List ObjectRecord → Step Placement
  | p, [] => pure p
  | p, r :: rest => do placeRecords target bucket base (← placeRecord target bucket base p r) rest

/-- Marks every rebuilt prefix below the walked root scanned with its aggregate. -/
def finishPrefixes (base : String) (totals : List (String × Aggregate)) :
    List (String × NodeRow) → Step Unit
  | [] => pure ()
  | (rel, node) :: rest => do
    if rel != base then
      inCatalog (finishNodeScan node.tenant node.id ((totals.lookup rel).getD {}))
    finishPrefixes base totals rest

/-- Clears the subtree of `target` and rebuilds it from a walk of `base`, the walk given or
made now. -/
def replaceObjects (target : NodeRow) (base : String) (walked : Option (List ObjectRecord)) :
    Step (Aggregate × ScanCounts) := do
  let _ ← clearNode target.tenant target.id
  let bucket := match Text.splitFirst '/' target.fullName with
    | some (b, _) => b
    | none => target.fullName
  let records ← match walked with
    | some rs => pure rs
    | none => inObjects (scanPath (joinRel bucket base))
  let p ← placeRecords target bucket base ⟨[(base, target)], [], {}⟩ records
  finishPrefixes base p.totals p.tracked
  pure ((p.totals.lookup base).getD {}, p.counts)

/-- Begins, rebuilds and finishes one subtree; a failed rebuild is recorded on its root. -/
def reconcileSubtree (target : NodeRow) (base : String) (walked : Option (List ObjectRecord)) :
    Step ScanCounts := do
  inCatalog (beginNodeScan target.tenant target.id)
  match ← Step.attempt (replaceObjects target base walked) with
  | .ok (agg, counts) =>
    inCatalog (finishNodeScan target.tenant target.id agg)
    pure { counts with namespaces := 1 }
  | .error e =>
    markFailed target.tenant target.id e.message
    throw e

/-- The prefix nodes below `parent` along the given segments, written where missing. -/
def chainFrom (parent : NodeRow) : List String → Step (List NodeRow)
  | [] => pure []
  | segment :: rest => do
    let node ← writeNode ⟨parent.tenant, parent.resource, some parent.id, .keyPrefix,
      segment, none⟩
    pure (node :: (← chainFrom node rest))

/-- The bucket node followed by one prefix node per segment of `rel`. -/
def ensureChain (bucketNode : NodeRow) (rel : String) : Step (List NodeRow) := do
  pure (bucketNode :: (← chainFrom bucketNode ((Text.splitOn '/' rel).filter (!·.isEmpty))))

/-- Recomputes the aggregates along a chain, deepest node first. -/
def rollUp (chain : List NodeRow) : Step Unit :=
  chain.reverse.forM fun node => do
    let agg ← inCatalog (sumChildren node.tenant node.id)
    inCatalog (setNodeAggregate node.tenant node.id agg)

/-- The last node of a chain, or the given fallback for an empty one. -/
def chainEnd (fallback : NodeRow) (chain : List NodeRow) : NodeRow := chain.getLastD fallback

/-- Writes one object again and recomputes its ancestors' aggregates. -/
def refreshObject (bucketNode : NodeRow) (record : ObjectRecord) : Step ScanCounts := do
  let chain ← ensureChain bucketNode (parentDir record.relativePath)
  let _ ← writeItem (objectItem (chainEnd bucketNode chain) record)
  rollUp chain
  pure { namespaces := 1, items := 1 }

/-- Retires the prefixes at the deep end of a chain (given deepest first) that hold nothing,
never the bucket at its root; returns what remains, deepest first, and how many were retired. -/
def pruneEmpty : List NodeRow → Nat → Step (List NodeRow × Nat)
  | [], n => pure ([], n)
  | [root], n => pure ([root], n)
  | node :: rest, n => do
    let childless ← readCatalog (·.listChildNodes node.tenant node.id |>.isEmpty)
    if childless && (← readCatalog (·.listItems node.tenant node.id |>.isEmpty)) then
      retireCatalogNode node.tenant node.id
      pruneEmpty rest (n + 1)
    else pure (node :: rest, n)

/-- The live prefix nodes below `parent` along the given segments, if all of them exist, read
one segment at a time. -/
def prefixChain (parent : NodeRow) : List String → Step (Option (List NodeRow))
  | [] => pure (some [])
  | segment :: rest => do
    match ← readCatalog (·.getNode parent.tenant parent.resource (some parent.id) .keyPrefix segment) with
    | some node => pure ((← prefixChain node rest).map (node :: ·))
    | none => pure none

/-- Removes a vanished path: its object item or prefix, then every ancestor prefix left
empty, and recomputes the aggregates of what remains when anything was removed. -/
def forgetPath (bucketNode : NodeRow) (key : String) : Step ScanCounts := do
  let tenant := bucketNode.tenant
  let segments := (Text.splitOn '/' (parentDir key)).filter (!·.isEmpty)
  let some below ← prefixChain bucketNode segments | return {}
  let chain := bucketNode :: below
  let parent := chainEnd bucketNode chain
  let name := baseName key
  let removedItem ← inCatalog (deleteItem tenant parent.id .object name)
  let removedPrefix ← match ← readCatalog (·.getNode tenant parent.resource (some parent.id)
      .keyPrefix name) with
    | some node => do
      retireCatalogNode tenant node.id
      pure true
    | none => pure false
  let (kept, pruned) ← pruneEmpty chain.reverse 0
  if removedItem || removedPrefix || pruned > 0 then rollUp kept.reverse
  pure { namespaces := 1 }

/-- What a narrower path turned out to name. -/
inductive ObjectTarget where
  | keyPrefix (records : List ObjectRecord)
  | object (record : ObjectRecord)
  | missing

/-- Classifies the walk of a non-empty key. -/
def ObjectTarget.classify (key : String) (records : List ObjectRecord) : ObjectTarget :=
  match records with
  | [only] =>
    if only.kind == .object && only.relativePath == key then .object only
    else if only.kind != .object && only.objectCount == 0 then .missing
    else .keyPrefix records
  | _ => .keyPrefix records

/-- Reconciles an object path of a resource: a bucket, a prefix subtree or one object. -/
def reconcileObjectPath (resource : ResourceRow) (path : String) : Step ScanCounts := do
  let some (bucket, key) := splitObjectPath path
    | throw (.configuration "object path must name a bucket")
  if hasReservedSegment bucket || hasReservedSegment key then return { skipped := 1 }
  let bucketNode ← writeNode ⟨resource.tenant, resource.id, none, .bucket, bucket, none⟩
  if key.isEmpty then return (← reconcileSubtree bucketNode "" none)
  let records ← inObjects (scanPath (joinRel bucket key))
  match ObjectTarget.classify key records with
  | .object record => refreshObject bucketNode record
  | .missing => forgetPath bucketNode key
  | .keyPrefix records =>
    let chain ← ensureChain bucketNode key
    let counts ← reconcileSubtree (chainEnd bucketNode chain) key (some records)
    rollUp chain.dropLast
    pure counts

end DataCatalog.Scan
