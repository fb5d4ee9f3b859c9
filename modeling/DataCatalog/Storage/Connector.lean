import DataCatalog.Storage.Backend
import DataCatalog.Connect.Descriptor
import DataCatalog.Word
/-!
# Browsing and walking object storage

An object-storage connector reads a store through an allow-list of buckets. An empty
allow-list means every bucket the store lists, reserved names left out, discovered on first
need and then kept for the connector's lifetime. A path naming a bucket outside the allow-list
is refused.

Walking a bucket or a prefix lists every key below it, drops directory markers (keys ending
in `/`) and keys with a reserved segment, and returns one aggregate record for the walked
bucket or prefix, one record per directory strictly below it (in code-point order) with the
count and size of the objects under it, and one record per object in key order. Walking a
path that names an object returns that object alone; walking a reserved path returns nothing.

Browsing lists the children one level below a path: prefixes first collected by name, then
objects, all ordered by name; a prefix counts the objects below it that are not markers.
-/

namespace DataCatalog.Storage

open DataCatalog.Connect DataCatalog.Time

/-- An allow-list and the buckets discovered when it is empty. -/
structure ObjectConnector where
  explicit : List String
  discovered : Option (List String) := none
deriving Repr

/-- A connector over the given allow-list, cleaned, sorted and without repeats. -/
def ObjectConnector.new (buckets : List String) : ObjectConnector :=
  ⟨sortDistinct ((buckets.map cleanPath).filter (!·.isEmpty)), none⟩

/-- A connector, the store it reads, and the platform's registry of media types by extension,
which names the content types of the objects it walks. -/
structure ObjectSide where
  connector : ObjectConnector
  store : ObjectStore
  mediaTypes : List (String × String)
deriving Repr

/-- A connector call: it may fail; its store counters and discovery cache change either way. -/
abbrev ConnectorCall := ExceptT ConnectorError (StateM ObjectSide)

/-- Runs a store call from a connector. -/
def onStore {α : Type} (call : StoreCall α) : ConnectorCall α := ExceptT.mk do
  let side ← get
  let (r, st) := Id.run ((ExceptT.run call).run side.store)
  set { side with store := st }
  pure r

/-- Sorts texts by code point. -/
def sortTexts (xs : List String) : List String := xs.mergeSort fun a b => decide (a ≤ b)

/-- The buckets this connector may read. -/
def allowedBuckets : ConnectorCall (List String) := do
  let side ← get
  if !side.connector.explicit.isEmpty then return side.connector.explicit
  match side.connector.discovered with
  | some bs => return bs
  | none =>
    let listed ← onStore listBuckets
    let bs := sortTexts (listed.filter (!hasReservedSegment ·))
    modify fun side => { side with connector := { side.connector with discovered := some bs } }
    return bs

/-- A cleaned path as bucket and key, refusing buckets outside the allow-list. -/
def splitAllowed (path : String) : ConnectorCall (String × String) := do
  let cleaned := cleanPath path
  let (bucket, key) := (Text.splitFirst '/' cleaned).getD (cleaned, "")
  if (← allowedBuckets).contains bucket then pure (bucket, key)
  else throw (.bucketNotAllowed bucket)

/-- Adds one object of `size` to the directory `dir` of a sorted directory table. -/
def bumpDir (dir : String) (size : Int) : List (String × Int × Int) → List (String × Int × Int)
  | [] => [(dir, size, 1)]
  | (d, s, n) :: rest =>
    if dir = d then (d, Word.wrap (s + size), n + 1) :: rest
    else if dir < d then (dir, size, 1) :: (d, s, n) :: rest
    else (d, s, n) :: bumpDir dir size rest

/-- The directories strictly above an object, below the listing prefix: the first one, two,
… segments of its relative key, all but the last. -/
def directoriesOf (listPrefix relative : String) : List String :=
  let segs := (Text.splitOn '/' relative).filter (!·.isEmpty)
  (List.range (segs.length - 1)).map fun k => listPrefix ++ Text.joinWith "/" (segs.take (k + 1))

/-- Walks a bucket below `pfx` (empty for the whole bucket, else without a trailing slash),
naming content types by `registry`. -/
def scanBucket (registry : List (String × String)) (bucket pfx : String) :
    ConnectorCall (List ObjectRecord) := do
  let listPrefix := if pfx.isEmpty then "" else pfx ++ "/"
  let listed ← onStore (listObjects bucket listPrefix)
  let objects := (listed.filter fun o => !Text.hasSuffix o.key "/" && !hasReservedSegment o.key).mergeSort
    fun a b => decide (a.key ≤ b.key)
  let total := Word.wrappingSum (objects.map (·.sizeBytes))
  let dirs := objects.foldl (fun acc o =>
    (directoriesOf listPrefix (Text.dropChars o.key listPrefix.length)).foldl
      (fun acc d => bumpDir d o.sizeBytes acc) acc) []
  let (rootName, rootKind) := if pfx.isEmpty then (bucketMarker, ObjectKind.bucket)
    else (baseName pfx, ObjectKind.keyPrefix)
  let root : ObjectRecord := ⟨bucket, pfx, rootName, joinBucket bucket pfx, rootKind, total,
    objects.length, none, none, none, objects.foldl (fun acc o => Instant.maxOpt acc o.lastModified) none⟩
  let dirRecords := dirs.map fun (d, size, n) =>
    (⟨bucket, d, baseName d, joinBucket bucket d, .keyPrefix, size, n, none, none, none, none⟩ :
      ObjectRecord)
  pure (root :: dirRecords ++ objects.map (·.record registry bucket))

/-- Walks everything below a path, naming content types by the platform's registry. -/
def scanPath (path : String) : ConnectorCall (List ObjectRecord) := do
  let registry := (← get).mediaTypes
  let cleaned := cleanPath path
  if cleaned.isEmpty then
    let buckets ← allowedBuckets
    let mut records := []
    for b in buckets do
      records := records ++ (← scanBucket registry b "")
    return records
  let (bucket, key) ← splitAllowed cleaned
  if key.isEmpty then return (← scanBucket registry bucket "")
  if hasReservedSegment key then return []
  match ← onStore (headObject bucket key) with
  | some o => return [o.record registry bucket]
  | none => scanBucket registry bucket key

/-- The prefix entry `dir` holding one object, or none when the object is a marker. -/
def freshPrefix (bucket listPrefix dir : String) (o : ListedObject) : ObjectNode :=
  let fresh : ObjectNode := ⟨dir, joinBucket bucket (listPrefix ++ dir), .keyPrefix, 0, none, none, 0⟩
  if Text.hasSuffix o.key "/" then fresh
  else { fresh with sizeBytes := o.sizeBytes, objectCount := 1, lastModified := o.lastModified }

/-- Adds an object to the prefix entry `dir` of a sorted prefix table, creating the entry. -/
def addToPrefix (bucket listPrefix dir : String) (o : ListedObject) :
    List ObjectNode → List ObjectNode
  | [] => [freshPrefix bucket listPrefix dir o]
  | n :: rest =>
    if dir = n.name then
      (if Text.hasSuffix o.key "/" then n
       else { n with sizeBytes := Word.wrap (n.sizeBytes + o.sizeBytes), objectCount := n.objectCount + 1,
                     lastModified := Instant.maxOpt n.lastModified o.lastModified }) :: rest
    else if dir < n.name then freshPrefix bucket listPrefix dir o :: n :: rest
    else n :: addToPrefix bucket listPrefix dir o rest

/-- The children one level below a path; the empty path lists the allowed buckets. -/
def listNodes (path : String) : ConnectorCall (List ObjectNode) := do
  if (cleanPath path).isEmpty then
    return (← allowedBuckets).map fun b => ⟨b, b, .bucket, 0, none, none, 0⟩
  let (bucket, key) ← splitAllowed path
  let listPrefix := if key.isEmpty then "" else key ++ "/"
  let listed ← onStore (listObjects bucket listPrefix)
  let (prefixes, leaves) := listed.foldl (fun (acc : List ObjectNode × List ObjectNode) o =>
    if hasReservedSegment o.key then acc
    else
      let relative := String.ofList ((Text.dropChars o.key listPrefix.length).toList.dropWhile (· = '/'))
      if relative.isEmpty then acc
      else match Text.splitFirst '/' relative with
        | some (dir, _) => (addToPrefix bucket listPrefix dir o acc.1, acc.2)
        | none => (acc.1, acc.2 ++ [⟨relative, joinBucket bucket o.key, .object, o.sizeBytes,
            fileType relative, o.lastModified, 1⟩])) ([], [])
  pure ((prefixes ++ leaves).mergeSort fun a b => decide (a.name ≤ b.name))

end DataCatalog.Storage
