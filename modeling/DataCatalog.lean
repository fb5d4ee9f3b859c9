import DataCatalog.Catalog.Attributes
import DataCatalog.Catalog.Encode
import DataCatalog.Catalog.Error
import DataCatalog.Catalog.Items
import DataCatalog.Catalog.Kinds
import DataCatalog.Catalog.Nodes
import DataCatalog.Catalog.Resources
import DataCatalog.Catalog.Rows
import DataCatalog.Catalog.Runs
import DataCatalog.Catalog.Search
import DataCatalog.Connect.Descriptor
import DataCatalog.Connect.Error
import DataCatalog.Connect.Kind
import DataCatalog.Connect.Namespace
import DataCatalog.Decimal.Binary64
import DataCatalog.Decimal.Scaled
import DataCatalog.Decimal.Shortest
import DataCatalog.Ident.Basic
import DataCatalog.Ident.Uuid
import DataCatalog.Json.Fields
import DataCatalog.Json.Read
import DataCatalog.Json.Value
import DataCatalog.Json.Write
import DataCatalog.Proofs.Catalog.Drift
import DataCatalog.Proofs.Catalog.Effects
import DataCatalog.Proofs.Catalog.FullNames
import DataCatalog.Proofs.Catalog.Lineage
import DataCatalog.Proofs.Catalog.Minted
import DataCatalog.Proofs.Catalog.Paths
import DataCatalog.Proofs.Catalog.Reachable
import DataCatalog.Proofs.Catalog.Shape
import DataCatalog.Proofs.Catalog.Tally
import DataCatalog.Proofs.Scan.Chains
import DataCatalog.Proofs.Scan.Confined
import DataCatalog.Proofs.Scan.Ensures
import DataCatalog.Proofs.Scan.Exclusion
import DataCatalog.Proofs.Scan.Guards
import DataCatalog.Proofs.Scan.Isolation
import DataCatalog.Proofs.Scan.Keeps
import DataCatalog.Proofs.Scan.Moves
import DataCatalog.Proofs.Scan.Namespaces
import DataCatalog.Proofs.Scan.Placement
import DataCatalog.Proofs.Scan.Rebuild
import DataCatalog.Proofs.Scan.RebuildWrites
import DataCatalog.Proofs.Scan.Reserved
import DataCatalog.Proofs.Scan.Sessions
import DataCatalog.Proofs.Scan.Writes
import DataCatalog.Proofs.Schedule.Keeps
import DataCatalog.Proofs.Schedule.Locks
import DataCatalog.Proofs.Schedule.Moves
import DataCatalog.Proofs.Storage.Keys
import DataCatalog.Proofs.Storage.Walks
import DataCatalog.Proofs.Words
import DataCatalog.Scan.Directory
import DataCatalog.Scan.Error
import DataCatalog.Scan.Locks
import DataCatalog.Scan.Orchestrator
import DataCatalog.Scan.Pass
import DataCatalog.Scan.Reconcile.Objects
import DataCatalog.Scan.Reconcile.Relational
import DataCatalog.Scan.Tree
import DataCatalog.Scan.World
import DataCatalog.Schedule.Interleave
import DataCatalog.Schedule.Turns
import DataCatalog.Source.Relational
import DataCatalog.Storage.Backend
import DataCatalog.Storage.Connector
import DataCatalog.Platform.MediaTypes
import DataCatalog.Storage.Listing
import DataCatalog.Storage.MediaType
import DataCatalog.Storage.Path
import DataCatalog.Text.Blank
import DataCatalog.Text.Case
import DataCatalog.Text.CaseTable
import DataCatalog.Text.Segments
import DataCatalog.Time.Instant
import DataCatalog.Time.Reading
import DataCatalog.Word
import DataCatalog.Proofs.Scan.Outcomes
import DataCatalog.Proofs.Scan.Subtrees
import DataCatalog.Proofs.Scan.Footprint
import DataCatalog.Proofs.Scan.Traces
import DataCatalog.Proofs.Scan.FailedPasses
import DataCatalog.Proofs.Scan.TableEntries
import DataCatalog.Proofs.Scan.ManualRuns
import DataCatalog.Proofs.Scan.BucketTrees
import DataCatalog.Proofs.Catalog.Keywords
import DataCatalog.Proofs.Scan.Forest
import DataCatalog.Proofs.Storage.Tables
import DataCatalog.Proofs.Storage.Reads
import DataCatalog.Proofs.Storage.Flattening
import DataCatalog.Proofs.Storage.Browsing
import DataCatalog.Proofs.Scan.BucketPass
import DataCatalog.Proofs.Scan.RunLifecycle
import DataCatalog.Proofs.Scan.Registrations
import DataCatalog.Proofs.Scan.NarrowPaths
import DataCatalog.Proofs.Storage.Normalizers
import DataCatalog.Proofs.Scan.PrefixTable
import DataCatalog.Schedule.Runtime
import DataCatalog.Scan.Service
import DataCatalog.Proofs.Schedule.Threads
import DataCatalog.Proofs.Schedule.ThreadLocks
