import DataCatalog.Text.Blank
import DataCatalog.Text.Case
/-!
# Resource kinds

A resource declares its kind as free text. Trimmed and lowercased, `postgres` and
`postgresql` name PostgreSQL, `mysql` names MySQL, and `s3`, `minio`, `oss`,
`object_storage` and `object-storage` name S3-compatible object storage. PostgreSQL and
MySQL are relational; S3 is object storage. Every other text is refused with its
lowercased form.
-/

namespace DataCatalog.Connect

/-- A supported kind of external system. -/
inductive ResourceKind where
  | postgres
  | mysql
  | s3
deriving Repr, DecidableEq

/-- How a kind of system is enumerated. -/
inductive Family where
  | relational
  | objectStorage
deriving Repr, DecidableEq

/-- The canonical name of a kind. -/
def ResourceKind.name : ResourceKind → String
  | .postgres => "postgres"
  | .mysql => "mysql"
  | .s3 => "s3"

/-- The family of a kind. -/
def ResourceKind.family : ResourceKind → Family
  | .postgres => .relational
  | .mysql => .relational
  | .s3 => .objectStorage

/-- The name of a family. -/
def Family.name : Family → String
  | .relational => "relational"
  | .objectStorage => "object_storage"

/-- The kind named by a trimmed, lowercased declaration. -/
def ResourceKind.ofCanonical? (s : String) : Option ResourceKind :=
  if s = "postgres" ∨ s = "postgresql" then some .postgres
  else if s = "mysql" then some .mysql
  else if s = "s3" ∨ s = "minio" ∨ s = "oss" ∨ s = "object_storage" ∨ s = "object-storage" then
    some .s3
  else none

/-- A declaration trimmed and lowercased, as kinds and engines are compared. -/
def normalizeDeclared (declared : String) : String := Text.lower (Text.trim declared)

/-- Reads a declared kind; a refusal carries the normalized text. -/
def ResourceKind.parse (declared : String) : Except String ResourceKind :=
  let s := normalizeDeclared declared
  match ResourceKind.ofCanonical? s with
  | some k => .ok k
  | none => .error s

end DataCatalog.Connect
