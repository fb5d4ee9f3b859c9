/-!
# Catalog store errors

A store operation fails when a row it needs is missing, when a write would break a rule of
the tree (a parent in another resource), when a stored value is outside the known set (a
scan run that cannot finish), or when the database refuses a write (a row that points at a
missing resource or node). One failure is not answered at all but ends the run: a sum of
two words that leaves the words is a real number in the database, and a column of words that
holds a real cannot be read back.
-/

namespace DataCatalog.Catalog

/-- Why a store operation failed. -/
inductive StoreError where
  | notFound (what : String)
  | constraint (detail : String)
  | invalidState (detail : String)
  | refused (detail : String)
  | realInWordColumn (column : String)
deriving Repr, DecidableEq

/-- The message of a store error. -/
def StoreError.message : StoreError → String
  | .notFound w => w ++ " not found in catalog"
  | .constraint d => "catalog constraint violated: " ++ d
  | .invalidState d => "unrecognised catalog value: " ++ d
  | .refused d => "catalog query failed: " ++ d
  | .realInWordColumn col =>
    "called \x60Result::unwrap()\x60 on an \x60Err\x60 value: ColumnDecode \x7b index: \"\\\"" ++ col ++
      "\\\"\", source: \"mismatched types; Rust type \x60i64\x60 (as SQL type \x60INTEGER\x60) is not " ++
      "compatible with SQL type \x60REAL\x60\" \x7d"

/-- Whether the failure ends the run instead of being answered. -/
def StoreError.fatal : StoreError → Bool
  | .realInWordColumn _ => true
  | _ => false

/-- The database's refusal of a sum whose partial sums leave the signed words. -/
def integerOverflow : StoreError :=
  .refused "error returned from database: (code: 1) integer overflow"

/-- The database's refusal of a row that points at a missing row. -/
def foreignKeyFailure : StoreError :=
  .refused "error returned from database: (code: 787) FOREIGN KEY constraint failed"

end DataCatalog.Catalog
