import DataCatalog.Storage.Listing
import DataCatalog.Connect.Error
import DataCatalog.Text.Segments
/-!
# An in-memory object store

Buckets sorted by name, each holding keys sorted by code point. Putting an object creates
its bucket and replaces an object of the same key. Every call is counted first; then an
offline store fails with a connection error, and an injected failure for a bucket fails the
calls that name it. Listing a missing bucket is an enumeration error; looking up a key in a
missing bucket finds nothing.
-/

namespace DataCatalog.Storage

open DataCatalog.Connect DataCatalog.Time

/-- Call counters of an object store. -/
structure ObjectCalls where
  listBuckets : Nat := 0
  listObjects : Nat := 0
  headObject : Nat := 0
deriving Repr

/-- An in-memory object store. -/
structure ObjectStore where
  buckets : List (String × List ListedObject) := []
  failures : List (String × ConnectorError) := []
  offline : Bool := false
  calls : ObjectCalls := {}
deriving Repr

/-- Inserts into a list sorted by key, replacing an entry with the same key. -/
def insertSorted {α : Type} (key : α → String) (x : α) : List α → List α
  | [] => [x]
  | y :: ys =>
    if key x = key y then x :: ys
    else if key x < key y then x :: y :: ys
    else y :: insertSorted key x ys

/-- Adds an empty bucket unless it exists. -/
def ObjectStore.createBucket (s : ObjectStore) (bucket : String) : ObjectStore :=
  if s.buckets.any (·.1 == bucket) then s
  else { s with buckets := insertSorted (·.1) (bucket, []) s.buckets }

/-- Puts an object, creating its bucket. -/
def ObjectStore.putObject (s : ObjectStore) (bucket : String) (o : ListedObject) : ObjectStore :=
  let s := s.createBucket bucket
  { s with buckets := s.buckets.map fun (b, os) =>
    if b == bucket then (b, insertSorted (·.key) o os) else (b, os) }

/-- Removes an object; tells whether it existed. -/
def ObjectStore.removeObject (s : ObjectStore) (bucket key : String) : ObjectStore × Bool :=
  let existed := s.buckets.any fun (b, os) => b == bucket && os.any (·.key == key)
  ({ s with buckets := s.buckets.map fun (b, os) =>
    if b == bucket then (b, os.filter (·.key != key)) else (b, os) }, existed)

/-- Removes a bucket with its objects; tells whether it existed. -/
def ObjectStore.dropBucket (s : ObjectStore) (bucket : String) : ObjectStore × Bool :=
  ({ s with buckets := s.buckets.filter (·.1 != bucket) }, s.buckets.any (·.1 == bucket))

/-- Makes calls naming a bucket fail. -/
def ObjectStore.failBucket (s : ObjectStore) (bucket : String) (e : ConnectorError) : ObjectStore :=
  { s with failures := (bucket, e) :: s.failures.filter (·.1 != bucket) }

/-- Lets calls naming a bucket succeed again. -/
def ObjectStore.unfailBucket (s : ObjectStore) (bucket : String) : ObjectStore :=
  { s with failures := s.failures.filter (·.1 != bucket) }

/-- An object-store call: it may fail, and it changes the counters either way. -/
abbrev StoreCall := ExceptT ConnectorError (StateM ObjectStore)

/-- Fails when the store is offline. -/
def checkOnline : StoreCall Unit := do
  if (← get).offline then throw (.connection "object store endpoint unreachable")

/-- Fails with the injected failure of a bucket, if any. -/
def checkBucket (bucket : String) : StoreCall Unit := do
  match (← get).failures.lookup bucket with
  | some e => throw e
  | none => pure ()

/-- The names of all buckets. -/
def listBuckets : StoreCall (List String) := do
  modify fun s => { s with calls := { s.calls with listBuckets := s.calls.listBuckets + 1 } }
  checkOnline
  pure ((← get).buckets.map (·.1))

/-- The objects of a bucket whose key starts with `pfx`, in key order. -/
def listObjects (bucket pfx : String) : StoreCall (List ListedObject) := do
  modify fun s => { s with calls := { s.calls with listObjects := s.calls.listObjects + 1 } }
  checkOnline
  checkBucket bucket
  match (← get).buckets.lookup bucket with
  | some os => pure (os.filter (Text.hasPrefix ·.key pfx))
  | none => throw (.enumeration bucket "bucket does not exist")

/-- The object under a key, if any. -/
def headObject (bucket key : String) : StoreCall (Option ListedObject) := do
  modify fun s => { s with calls := { s.calls with headObject := s.calls.headObject + 1 } }
  checkOnline
  checkBucket bucket
  pure (((← get).buckets.lookup bucket).bind fun os => os.find? (·.key == key))

end DataCatalog.Storage
