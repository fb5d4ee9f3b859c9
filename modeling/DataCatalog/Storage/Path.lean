import DataCatalog.Text.Blank
import DataCatalog.Text.Case
import DataCatalog.Text.Segments
/-!
# Object paths

An object path is `bucket/key`, keys being `/`-separated segments. Paths typed by people are
cleaned: blanks around the whole path are trimmed and blank segments dropped, other segments
kept as written. Keys reported by a store are normalized by dropping empty segments only,
since blanks inside a key are part of it; a rebuild drops them once more from the relative
paths a walk reports, skipping the split when no empty segment can occur. The segments
`__bucket__` and `.minio.sys` belong to the storage infrastructure and are reserved.
-/

namespace DataCatalog.Storage

/-- The name of the record that describes a bucket's own aggregate. -/
def bucketMarker : String := "__bucket__"

/-- Segments that never name user content. -/
def reservedSegments : List String := [bucketMarker, ".minio.sys"]

/-- Whether some `/`-separated segment of a key is reserved. -/
def hasReservedSegment (key : String) : Bool :=
  (Text.splitOn '/' key).any (reservedSegments.contains ·)

/-- A segment that is empty after trimming blanks. -/
def isBlankSegment (s : String) : Bool := s.toList.all Text.isBlank

/-- The non-blank segments of a trimmed path, as written. -/
def pathSegments (path : String) : List String :=
  (Text.splitOn '/' (Text.trim path)).filter (!isBlankSegment ·)

/-- A path with blanks trimmed and blank segments dropped. -/
def cleanPath (path : String) : String := Text.joinWith "/" (pathSegments path)

/-- A key with empty segments dropped. -/
def normalizeKey (key : String) : String :=
  Text.joinWith "/" ((Text.splitOn '/' key).filter (!·.isEmpty))

/-- A relative path with empty segments dropped. A path that neither begins nor ends with `/`
and has no `//` is given back as it is, without being split. -/
def collapseEmptySegments (rel : String) : String :=
  if !Text.hasPrefix rel "/" && !Text.hasSuffix rel "/" && !Text.hasInfix rel "//" then rel
  else Text.joinWith "/" ((Text.splitOn '/' rel).filter (!·.isEmpty))

/-- The bucket and the key of a path, or nothing when the path has no segment. -/
def splitObjectPath (path : String) : Option (String × String) :=
  match pathSegments path with
  | [] => none
  | bucket :: rest => some (bucket, Text.joinWith "/" rest)

/-- The last segment of a key. -/
def baseName (key : String) : String :=
  match Text.splitLast '/' key with
  | some (_, name) => name
  | none => key

/-- The directory part of a relative path: everything before its last `/`. -/
def parentDir (rel : String) : String :=
  match Text.splitLast '/' rel with
  | some (dir, _) => dir
  | none => ""

/-- `base/segment`, or the segment alone below the empty base. -/
def joinRel (base segment : String) : String :=
  if base.isEmpty then segment else base ++ "/" ++ segment

/-- Whether `rel` is `base` or lies below it; everything lies below the empty base. -/
def isWithin (base rel : String) : Bool :=
  base.isEmpty || rel == base || Text.hasPrefix rel (base ++ "/")

/-- The extension of a file name: the text after its last dot, when the dot is not the
first character. -/
def extension? (name : String) : Option String :=
  if name = ".." then none
  else match Text.splitLast '.' name with
    | some (before, after) => if before.isEmpty then none else some after
    | none => none

/-- The lowercased extension of a name, when it has a non-empty one. -/
def fileType (name : String) : Option String :=
  match extension? name with
  | some e => let l := Text.lower e; if l.isEmpty then none else some l
  | none => none

end DataCatalog.Storage
