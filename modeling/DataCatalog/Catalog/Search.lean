import DataCatalog.Catalog.Items
import DataCatalog.Text.Blank
import DataCatalog.Text.Case
/-!
# Keyword search and tenant statistics

A keyword is looked up with the database's `LIKE` and the escape character `\`: the pattern is
the trimmed keyword with each `%`, `_` and `\` escaped, between two `%`. In a `LIKE` pattern `%`
matches any run of characters, `_` any one character, an escaped character itself, and other
characters match up to ASCII case. The database reads the pattern and the text only up to their
first NUL character; a keyword cut short that way loses its closing `%`, so it must end the
text rather than merely occur in it.
Table search finds a tenant's tables and views whose name or table comment matches, by
full name; column search finds the columns of those items whose name or comment matches,
by the item's full name and then the column's ordinal. Both stop at a limit.
-/

namespace DataCatalog.Catalog

open DataCatalog.Ident

/-- The characters a `LIKE` pattern gives a meaning to. -/
def isLikeSpecial (c : Char) : Bool := c == '%' || c == '_' || c == '\\'

/-- Characters with each special one preceded by the escape character `\`. -/
def escapeLike : List Char → List Char
  | [] => []
  | c :: rest => if isLikeSpecial c then '\\' :: c :: escapeLike rest else c :: escapeLike rest

/-- The pattern a keyword is looked up with: the trimmed keyword, escaped, between two `%`. -/
def likePattern (keyword : String) : String :=
  String.ofList ('%' :: escapeLike (Text.trim keyword).toList ++ ['%'])

/-- Whether two characters are equal once ASCII capitals are folded. -/
def likeEq (c d : Char) : Bool := Text.asciiLowerChar c == Text.asciiLowerChar d

/-- Whether `f` holds of some suffix of `s`, `s` itself and the empty list included. -/
def someSuffix (f : List Char → Bool) : List Char → Bool
  | [] => f []
  | c :: s => f (c :: s) || someSuffix f s

/-- `LIKE` with the escape character `\`: `%` matches any run of characters, `_` any one
character, `\` takes the next character literally (and matches nothing at the end of the
pattern), and characters match up to ASCII case. -/
def likeMatch : List Char → List Char → Bool
  | [], s => s.isEmpty
  | '%' :: p, s => someSuffix (likeMatch p) s
  | ['\\'], _ => false
  | '\\' :: c :: p, s => match s with
    | [] => false
    | d :: s => likeEq c d && likeMatch p s
  | '_' :: p, s => match s with
    | [] => false
    | _ :: s => likeMatch p s
  | c :: p, s => match s with
    | [] => false
    | d :: s => likeEq c d && likeMatch p s

/-- The characters of a text before its first NUL character, as the database reads it. -/
def beforeNul (s : String) : List Char := s.toList.takeWhile (· ≠ '\x00')

/-- Whether `text` matches the keyword's pattern, both read up to a NUL character. -/
def keywordMatches (keyword text : String) : Bool :=
  likeMatch (beforeNul (likePattern keyword)) (beforeNul text)

/-- Whether optional text contains the keyword. -/
def keywordMatches? (keyword : String) : Option String → Bool
  | some t => keywordMatches keyword t
  | none => false

/-- Tables and views. -/
def ItemKind.isRelational : ItemKind → Bool
  | .table => true
  | .view => true
  | .object => false

/-- A tenant's tables and views. -/
def Tables.relationalItems (c : Tables) (tenant : TenantId) : List ItemRow :=
  c.items.filter fun i => i.tenant == tenant && i.kind.isRelational

/-- Tables and views whose name or comment contains the keyword, first `limit` by full name. -/
def Tables.searchItems (c : Tables) (tenant : TenantId) (keyword : String) (limit : Nat) :
    List ItemRow :=
  let hits := (c.relationalItems tenant).filter fun i =>
    keywordMatches keyword i.name || keywordMatches? keyword i.attributes.comment?
  sortOn compareFullName (takeLimit limit (sortOn (fun a b => compare a.fullName b.fullName) hits))

/-- A column found by keyword, with the item that holds it. -/
structure FieldMatch where
  item : ItemId
  resource : ResourceId
  tableFullName : String
  field : Column

/-- Columns whose name or comment contains the keyword, first `limit` by the item's full
name and the column's ordinal. -/
def Tables.searchFields (c : Tables) (tenant : TenantId) (keyword : String) (limit : Nat) :
    List FieldMatch :=
  let hits := (c.relationalItems tenant).flatMap fun i =>
    (i.attributes.fields.filter fun f =>
      keywordMatches keyword f.name || keywordMatches? keyword f.comment).map
      fun f => (⟨i.id, i.resource, i.fullName, f⟩ : FieldMatch)
  takeLimit limit (sortOn (fun a b => (compare a.tableFullName b.tableFullName).then
    (compare a.field.ordinal b.field.ordinal)) hits)

/-- Tenant-wide counts. -/
structure MetadataStats where
  resources : Nat
  namespaces : Nat
  scannedNamespaces : Nat
  tables : Nat
  fields : Nat
  objects : Nat
  totalSize : Int

/-- Resource, namespace, table, column and object counts of a tenant, and its items' size,
summed as the database sums it: a partial sum that overflows is refused. -/
def metadataStats (tenant : TenantId) : Store MetadataStats := do
  let c ← get
  let roots := c.nodes.filter fun n => n.tenant == tenant && n.parent.isNone && n.isLive
  let items := c.items.filter (·.tenant == tenant)
  let rel := c.relationalItems tenant
  match Word.checkedSum? 0 (items.map (·.sizeBytes)) with
  | none => Store.fail integerOverflow
  | some size =>
    pure ⟨(c.resources.filter (·.tenant == tenant)).length, roots.length,
      (roots.filter (·.scanStatus == .scanned)).length, rel.length,
      (rel.map (·.attributes.fields.length)).foldr (· + ·) 0, (items.filter (·.kind == .object)).length, size⟩

end DataCatalog.Catalog
