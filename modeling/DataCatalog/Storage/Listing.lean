import DataCatalog.Storage.MediaType
import DataCatalog.Time.Instant
import DataCatalog.Json.Value
/-!
# What object storage reports

A flat listing reports keys with their size, modification time and entity tag. Browsing one
level gives nodes: buckets, prefixes and objects, each with a size and an object count. A
recursive walk gives records: one aggregate for the bucket or prefix walked, one per prefix
below it, and one per object.
-/

namespace DataCatalog.Storage

open DataCatalog.Json DataCatalog.Time

/-- One key of a flat listing. -/
structure ListedObject where
  key : String
  sizeBytes : Int
  lastModified : Option Instant
  etag : Option String
deriving Repr

/-- What an entry of object storage is. -/
inductive ObjectKind where
  | bucket | keyPrefix | object
deriving Repr, DecidableEq

/-- The name of an entry kind. -/
def ObjectKind.name : ObjectKind → String
  | .bucket => "bucket" | .keyPrefix => "prefix" | .object => "object"

/-- One child of a path, for browsing. -/
structure ObjectNode where
  name : String
  path : String
  kind : ObjectKind
  sizeBytes : Int
  fileType : Option String
  lastModified : Option Instant
  objectCount : Int
deriving Repr

/-- One record of a recursive walk. -/
structure ObjectRecord where
  bucket : String
  relativePath : String
  name : String
  path : String
  kind : ObjectKind
  sizeBytes : Int
  objectCount : Int
  fileType : Option String
  contentType : Option String
  etag : Option String
  lastModified : Option Instant
deriving Repr

/-- `bucket/key`, or the bucket alone for an empty key. -/
def joinBucket (bucket key : String) : String := if key.isEmpty then bucket else bucket ++ "/" ++ key

/-- The record of one listed object: its relative path drops empty segments of the key,
its path keeps the key as listed, and its content type is the one `registry` names by
extension. -/
def ListedObject.record (registry : List (String × String)) (bucket : String)
    (o : ListedObject) : ObjectRecord :=
  let rel := normalizeKey o.key
  let name := baseName rel
  ⟨bucket, rel, name, joinBucket bucket o.key, .object, o.sizeBytes, 1, fileType name,
    contentType registry name, o.etag, o.lastModified⟩

/-- Optional instant as JSON. -/
def instantValue (t : Option Instant) : Value := Value.ofOption (fun t => .string t.rfc3339) t

/-- The JSON object of a browse entry. -/
def ObjectNode.toJson (n : ObjectNode) : Value := Value.ofMembers [
  ("name", .string n.name), ("path", .string n.path), ("kind", .string n.kind.name),
  ("sizeBytes", .int n.sizeBytes), ("fileType", Value.ofString? n.fileType),
  ("lastModified", instantValue n.lastModified), ("objectCount", .int n.objectCount)]

/-- The JSON object of a walk record. -/
def ObjectRecord.toJson (r : ObjectRecord) : Value := Value.ofMembers [
  ("bucket", .string r.bucket), ("relativePath", .string r.relativePath), ("name", .string r.name),
  ("path", .string r.path), ("kind", .string r.kind.name), ("sizeBytes", .int r.sizeBytes),
  ("objectCount", .int r.objectCount), ("fileType", Value.ofString? r.fileType),
  ("contentType", Value.ofString? r.contentType), ("etag", Value.ofString? r.etag),
  ("lastModified", instantValue r.lastModified)]

end DataCatalog.Storage
