import DataCatalog.Connect.Kind
import DataCatalog.Catalog.Kinds
/-!
# Namespace kinds

The top level of each kind of system is recorded as one node kind: PostgreSQL schemas,
MySQL databases and S3 buckets.
-/

namespace DataCatalog.Connect

/-- The node kind of a top-level namespace of this kind of system. -/
def ResourceKind.namespaceKind : ResourceKind → Catalog.NodeKind
  | .postgres => .schema
  | .mysql => .database
  | .s3 => .bucket

end DataCatalog.Connect
