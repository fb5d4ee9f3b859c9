import DataCatalog.Catalog.Attributes
import DataCatalog.Connect.Error
import DataCatalog.Text.Case
import DataCatalog.Text.Segments
import DataCatalog.Word
/-!
# An in-memory relational source

A relational source answers three questions: its schemas with reported counts, the tables
of a schema, and the columns of a table. This one holds its schemas in memory, counts every
call, and can be told to fail a call: the failure keys are `schemas`, `tables:<schema>` and
`fields:<schema>.<table>`. A call is counted before its failure is checked.

A schema reports its table count and size as given, or else its number of tables and the
sum of the table sizes that are known.
-/

namespace DataCatalog.Source

open DataCatalog.Catalog DataCatalog.Connect

/-- A schema as a relational source reports it. -/
structure SchemaSummary where
  name : String
  tableCount : Option Int
  sizeBytes : Option Int
  charset : Option String
  collation : Option String
deriving Repr

/-- A table as a relational source reports it. -/
structure TableSummary where
  name : String
  kind : String
  comment : Option String
  rowEstimate : Option Int
  sizeBytes : Option Int
deriving Repr

/-- A table reported as a view: its type contains `VIEW` in any case. -/
def TableSummary.isView (t : TableSummary) : Bool := Text.hasInfix (Text.upper t.kind) "VIEW"

/-- A table held by the source. -/
structure TableSpec where
  name : String
  kind : String := "BASE TABLE"
  comment : Option String := none
  rows : Option Int := some 100
  size : Option Int := some 8192
  fields : List Column := []
deriving Repr

/-- A schema held by the source; absent overrides are computed from the tables. -/
structure SchemaSpec where
  name : String
  tables : List TableSpec := []
  charset : Option String := none
  collation : Option String := none
  tableCountOverride : Option (Option Int) := none
  sizeOverride : Option (Option Int) := none
deriving Repr

/-- The columns generated for a table asked to have `n` of them: an `id` key first, then
nullable text columns named after the table. -/
def generatedColumns (table : String) (n : Nat) : List Column :=
  (List.range n).map fun k =>
    if k = 0 then
      { name := "id", ordinal := 1, dataType := "int8", nullable := false
        isPrimaryKey := true, isUniqueKey := true }
    else
      { name := table ++ "_col" ++ String.ofList (Nat.toDigits 10 (k + 1)), ordinal := k + 1
        dataType := "text", nullable := true }

/-- The summary a schema reports. -/
def SchemaSpec.summary (s : SchemaSpec) : SchemaSummary :=
  ⟨s.name, s.tableCountOverride.getD (some s.tables.length),
    s.sizeOverride.getD (some (Word.wrappingSum (s.tables.filterMap (·.size)))), s.charset, s.collation⟩

/-- The summary a table reports. -/
def TableSpec.summary (t : TableSpec) : TableSummary := ⟨t.name, t.kind, t.comment, t.rows, t.size⟩

/-- Call counters of a relational source. -/
structure RelationalCalls where
  listSchemas : Nat := 0
  scanTables : Nat := 0
  scanFields : Nat := 0
  close : Nat := 0
deriving Repr

/-- An in-memory relational source. -/
structure RelationalSource where
  schemas : List SchemaSpec := []
  failures : List (String × ConnectorError) := []
  calls : RelationalCalls := {}
deriving Repr

/-- A source call: it may fail, and it changes the counters either way. -/
abbrev RelationalCall := ExceptT ConnectorError (StateM RelationalSource)

/-- The injected failure under a key, if any. -/
def RelationalSource.failure? (s : RelationalSource) (key : String) : Option ConnectorError :=
  s.failures.lookup key

/-- The schema of a name, if the source has it. -/
def RelationalSource.schema? (s : RelationalSource) (name : String) : Option SchemaSpec :=
  s.schemas.find? (·.name == name)

/-- Lists the schemas. -/
def listSchemas : RelationalCall (List SchemaSummary) := do
  modify fun s => { s with calls := { s.calls with listSchemas := s.calls.listSchemas + 1 } }
  let s ← get
  match s.failure? "schemas" with
  | some e => throw e
  | none => pure (s.schemas.map SchemaSpec.summary)

/-- Lists the tables of a schema. -/
def scanTables (schema : String) : RelationalCall (List TableSummary) := do
  modify fun s => { s with calls := { s.calls with scanTables := s.calls.scanTables + 1 } }
  let s ← get
  match s.failure? ("tables:" ++ schema) with
  | some e => throw e
  | none => match s.schema? schema with
    | some sc => pure (sc.tables.map TableSpec.summary)
    | none => throw (.enumeration schema "schema does not exist")

/-- Lists the columns of the first table of a name in a schema. -/
def scanFields (schema table : String) : RelationalCall (List Column) := do
  modify fun s => { s with calls := { s.calls with scanFields := s.calls.scanFields + 1 } }
  let s ← get
  match s.failure? ("fields:" ++ schema ++ "." ++ table) with
  | some e => throw e
  | none => match (s.schema? schema).bind fun sc => sc.tables.find? (·.name == table) with
    | some t => pure t.fields
    | none => throw (.enumeration (schema ++ "." ++ table) "table does not exist")

/-- Closes the connection: counted only. -/
def closeSource : StateM RelationalSource Unit :=
  modify fun s => { s with calls := { s.calls with close := s.calls.close + 1 } }

/-- Replaces the schema of the same name in place, or appends it. -/
def RelationalSource.putSchema (s : RelationalSource) (spec : SchemaSpec) : RelationalSource :=
  if s.schemas.any (·.name == spec.name) then
    { s with schemas := s.schemas.map fun x => if x.name == spec.name then spec else x }
  else { s with schemas := s.schemas ++ [spec] }

/-- Removes the schemas of a name. -/
def RelationalSource.dropSchema (s : RelationalSource) (name : String) : RelationalSource :=
  { s with schemas := s.schemas.filter (·.name != name) }

/-- Replaces the table of the same name in place or appends it; `none` when the schema is
missing. -/
def RelationalSource.putTable (s : RelationalSource) (schema : String) (t : TableSpec) :
    Option RelationalSource :=
  if s.schemas.any (·.name == schema) then
    let put (sc : SchemaSpec) : SchemaSpec :=
      if sc.tables.any (·.name == t.name) then
        { sc with tables := sc.tables.map fun x => if x.name == t.name then t else x }
      else { sc with tables := sc.tables ++ [t] }
    some { s with schemas := s.schemas.map fun x => if x.name == schema then put x else x }
  else none

/-- Removes the tables of a name from a schema. -/
def RelationalSource.dropTable (s : RelationalSource) (schema name : String) : RelationalSource :=
  { s with schemas := s.schemas.map fun x =>
    if x.name == schema then { x with tables := x.tables.filter (·.name != name) } else x }

/-- Makes calls under a key fail with an error. -/
def RelationalSource.fail (s : RelationalSource) (key : String) (e : ConnectorError) :
    RelationalSource :=
  { s with failures := (key, e) :: s.failures.filter (·.1 != key) }

/-- Lets calls under a key succeed again. -/
def RelationalSource.unfail (s : RelationalSource) (key : String) : RelationalSource :=
  { s with failures := s.failures.filter (·.1 != key) }

end DataCatalog.Source
