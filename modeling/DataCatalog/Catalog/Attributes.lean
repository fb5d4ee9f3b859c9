import DataCatalog.Json.Fields
import DataCatalog.Time.Reading
/-!
# Shape-specific attributes of nodes and items

Nodes and items carry attributes tagged by a `shape`. A node is empty, a relational
namespace with the counts its source reports, a storage aggregate, or free-form extra
values. An item is empty, a relational table with its columns, an object with its file
type, media type and entity tag, or extra values.

Attributes are stored and shown as JSON objects: the tag under `shape`, node fields in
snake case, item fields in camel case. Reading them back ignores unknown members and
refuses a member of the wrong type. Attributes may also be read from a sequence whose first
element is the tag and whose other elements are the fields in declaration order.
-/

namespace DataCatalog.Catalog

open DataCatalog.Json DataCatalog.Time

/-- Metadata attached to a node. -/
inductive NodeAttributes where
  | empty
  | namespaceInfo (tableCount : Option Int) (sizeBytes : Option Int) (charset : Option String)
      (collation : Option String)
  | storage (objectCount : Int) (sizeBytes : Int) (lastModified : Option Instant)
  | extra (values : List (String × Value))
deriving Repr

/-- One column of a relational table. -/
structure Column where
  name : String
  ordinal : Int
  dataType : String
  nullable : Bool
  defaultValue : Option String := none
  comment : Option String := none
  isPrimaryKey : Bool := false
  isUniqueKey : Bool := false
  charset : Option String := none
  collation : Option String := none
  precision : Option Int := none
  scale : Option Int := none
deriving Repr, DecidableEq

/-- Metadata attached to an item. -/
inductive ItemAttributes where
  | empty
  | table (tableType : String) (comment : Option String) (fields : List Column)
  | object (fileType : Option String) (contentType : Option String) (etag : Option String)
  | extra (values : List (String × Value))
deriving Repr

/-- The columns recorded on an item. -/
def ItemAttributes.fields : ItemAttributes → List Column
  | .table _ _ fs => fs
  | _ => []

/-- The table comment recorded on an item. -/
def ItemAttributes.comment? : ItemAttributes → Option String
  | .table _ c _ => c
  | _ => none

/-- Optional text as JSON. -/
def textOrNull (s : Option String) : Value := Value.ofString? s

/-- Optional signed word as JSON. -/
def intOrNull (i : Option Int) : Value := Value.ofInt? i

/-- Optional instant as JSON. -/
def instantOrNull (t : Option Instant) : Value := Value.ofOption (fun t => .string t.rfc3339) t

/-- The JSON object of node attributes. -/
def NodeAttributes.toJson : NodeAttributes → Value
  | .empty => Value.ofMembers [("shape", .string "empty")]
  | .namespaceInfo tc sb cs co => Value.ofMembers [("shape", .string "namespace"),
      ("reported_table_count", intOrNull tc), ("reported_size_bytes", intOrNull sb),
      ("charset", textOrNull cs), ("collation", textOrNull co)]
  | .storage oc sb lm => Value.ofMembers [("shape", .string "storage"),
      ("reported_object_count", .int oc), ("reported_size_bytes", .int sb),
      ("last_modified_at", instantOrNull lm)]
  | .extra vs => Value.ofMembers [("shape", .string "extra"), ("values", .object vs)]

/-- The JSON object of a column. -/
def Column.toJson (c : Column) : Value := Value.ofMembers [
  ("name", .string c.name), ("ordinal", .int c.ordinal), ("dataType", .string c.dataType),
  ("nullable", .bool c.nullable), ("defaultValue", textOrNull c.defaultValue),
  ("comment", textOrNull c.comment), ("isPrimaryKey", .bool c.isPrimaryKey),
  ("isUniqueKey", .bool c.isUniqueKey), ("charset", textOrNull c.charset),
  ("collation", textOrNull c.collation), ("precision", intOrNull c.precision),
  ("scale", intOrNull c.scale)]

/-- The JSON object of item attributes. -/
def ItemAttributes.toJson : ItemAttributes → Value
  | .empty => Value.ofMembers [("shape", .string "empty")]
  | .table tt c fs => Value.ofMembers [("shape", .string "relational_table"),
      ("tableType", .string tt), ("comment", textOrNull c), ("fields", .array (fs.map Column.toJson))]
  | .object ft ct et => Value.ofMembers [("shape", .string "object"), ("fileType", textOrNull ft),
      ("contentType", textOrNull ct), ("etag", textOrNull et)]
  | .extra vs => Value.ofMembers [("shape", .string "extra"), ("values", .object vs)]

/-- A value as an instant written in RFC 3339. -/
def Value.instant : Value → Decoded Instant
  | .string s => match Instant.read s with
    | .ok t => pure t
    | .error f => throw f.message
  | v => throw (invalidType v "an RFC 3339 formatted date and time string")

/-- A field that must be given. -/
def needs {α : Type} (key : String) (read : Value → Decoded α) : FieldRule := ⟨key, checking read, false⟩

/-- A field with a default, read by `read` when given. -/
def mayHave {α : Type} (key : String) (read : Value → Decoded α) : FieldRule := ⟨key, checking read, true⟩

/-- The fields of a column. -/
def columnRules : List FieldRule :=
  [needs "name" Value.text, needs "ordinal" Value.int32, needs "dataType" Value.text,
    needs "nullable" Value.flag, mayHave "defaultValue" (Json.nullable Value.text),
    mayHave "comment" (Json.nullable Value.text), mayHave "isPrimaryKey" Value.flag,
    mayHave "isUniqueKey" Value.flag, mayHave "charset" (Json.nullable Value.text),
    mayHave "collation" (Json.nullable Value.text), mayHave "precision" (Json.nullable Value.int64),
    mayHave "scale" (Json.nullable Value.int64)]

/-- Reads a column from an object or a sequence. -/
def Column.ofJson (v : Value) : Decoded Column := do
  let ms ← structMembers "struct ColumnAttribute" columnRules v
  pure {
    name := ← required ms "name" Value.text
    ordinal := ← required ms "ordinal" Value.int32
    dataType := ← required ms "dataType" Value.text
    nullable := ← required ms "nullable" Value.flag
    defaultValue := ← optional ms "defaultValue" Value.text
    comment := ← optional ms "comment" Value.text
    isPrimaryKey := ← withDefault ms "isPrimaryKey" Value.flag false
    isUniqueKey := ← withDefault ms "isUniqueKey" Value.flag false
    charset := ← optional ms "charset" Value.text
    collation := ← optional ms "collation" Value.text
    precision := ← optional ms "precision" Value.int64
    scale := ← optional ms "scale" Value.int64 }

/-- The `shape` tag of attributes and the content that describes the shape: an object's
`shape` member and the object, or a sequence's first element and the elements after it;
`what` names the attribute type. -/
def shapeOf (what : String) (v : Value) : Decoded (String × Value) := do
  let tagText (t : Value) : Decoded String := match t with
    | .string s => pure s
    | _ => throw (invalidType t "variant identifier")
  match v with
  | .object ms => pure (← required ms "shape" tagText, v)
  | .array [] => throw (missingField "shape")
  | .array (t :: rest) => pure (← tagText t, .array rest)
  | _ => throw (invalidType v ("internally tagged enum " ++ what))

/-- The shapes of node attributes. -/
def nodeShapes : List String := ["empty", "namespace", "storage", "extra"]

/-- Reads node attributes. -/
def NodeAttributes.ofJson (v : Value) : Decoded NodeAttributes := do
  let (shape, content) ← shapeOf "NodeAttributes" v
  match shape with
  | "empty" => unitContent content; pure .empty
  | "namespace" =>
    let ms ← structMembers "struct variant NodeAttributes::Namespace"
      [mayHave "reported_table_count" (Json.nullable Value.int64),
        mayHave "reported_size_bytes" (Json.nullable Value.int64),
        mayHave "charset" (Json.nullable Value.text), mayHave "collation" (Json.nullable Value.text)]
      content
    pure (.namespaceInfo (← optional ms "reported_table_count" Value.int64)
      (← optional ms "reported_size_bytes" Value.int64) (← optional ms "charset" Value.text)
      (← optional ms "collation" Value.text))
  | "storage" =>
    let ms ← structMembers "struct variant NodeAttributes::Storage"
      [needs "reported_object_count" Value.int64, needs "reported_size_bytes" Value.int64,
        mayHave "last_modified_at" (Json.nullable Value.instant)]
      content
    pure (.storage (← required ms "reported_object_count" Value.int64)
      (← required ms "reported_size_bytes" Value.int64)
      (← optional ms "last_modified_at" Value.instant))
  | "extra" =>
    let ms ← structMembers "struct variant NodeAttributes::Extra" [needs "values" Value.members?]
      content
    pure (.extra (← required ms "values" Value.members?))
  | other => throw (unknownVariant other nodeShapes)

/-- The shapes of item attributes. -/
def itemShapes : List String := ["empty", "relational_table", "object", "extra"]

/-- Reads item attributes. -/
def ItemAttributes.ofJson (v : Value) : Decoded ItemAttributes := do
  let (shape, content) ← shapeOf "ItemAttributes" v
  match shape with
  | "empty" => unitContent content; pure .empty
  | "relational_table" =>
    let ms ← structMembers "struct TableAttributes"
      [needs "tableType" Value.text, mayHave "comment" (Json.nullable Value.text),
        mayHave "fields" (Value.listOf Column.ofJson)]
      content
    pure (.table (← required ms "tableType" Value.text) (← optional ms "comment" Value.text)
      (← withDefault ms "fields" (Value.listOf Column.ofJson) []))
  | "object" =>
    let ms ← structMembers "struct ObjectAttributes"
      [mayHave "fileType" (Json.nullable Value.text), mayHave "contentType" (Json.nullable Value.text),
        mayHave "etag" (Json.nullable Value.text)]
      content
    pure (.object (← optional ms "fileType" Value.text) (← optional ms "contentType" Value.text)
      (← optional ms "etag" Value.text))
  | "extra" =>
    let ms ← structMembers "struct variant ItemAttributes::Extra" [needs "values" Value.members?]
      content
    pure (.extra (← required ms "values" Value.members?))
  | other => throw (unknownVariant other itemShapes)

end DataCatalog.Catalog
