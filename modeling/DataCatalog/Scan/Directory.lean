import DataCatalog.Scan.Error
import DataCatalog.Connect.Descriptor
import DataCatalog.Ident.Basic
/-!
# The resource directory

The directory is the system of record for resource definitions, credentials included. A
lookup takes the first entry with the external id, whatever its tenant, and refuses it when
it belongs to another tenant. Listing the active resources of a tenant keeps that tenant's
active entries ordered by external id, entries with equal ids in directory order. While the
directory is failing, every call reports its failure.
-/

namespace DataCatalog.Scan

open DataCatalog.Connect DataCatalog.Ident

/-- A resource as the directory describes it. -/
structure RegisteredResource where
  tenant : TenantId
  externalId : ExternalId
  name : String
  /-- The declared kind, possibly an alias. -/
  kind : String
  active : Bool
  attributes : Attributes
deriving Repr

/-- The directory's entries and its injected failure. -/
structure Directory where
  entries : List RegisteredResource := []
  failure : Option String := none
deriving Repr

/-- The first entry with an external id. -/
def Directory.find (d : Directory) (externalId : ExternalId) :
    Except ScanError (Option RegisteredResource) :=
  match d.failure with
  | some m => .error (.directory m)
  | none => .ok (d.entries.find? (·.externalId == externalId))

/-- A tenant's entries in directory order. -/
def Directory.ofTenant (d : Directory) (tenant : TenantId) :
    Except ScanError (List RegisteredResource) :=
  match d.failure with
  | some m => .error (.directory m)
  | none => .ok (d.entries.filter (·.tenant == tenant))

/-- The resource a tenant asks for: missing, or denied when another tenant owns it. -/
def Directory.lookup (d : Directory) (tenant : TenantId) (externalId : ExternalId) :
    Except ScanError RegisteredResource := do
  match ← d.find externalId with
  | none => throw (.resourceNotFound externalId.text)
  | some r =>
    if r.tenant == tenant then pure r
    else throw (.accessDenied ("resource " ++ externalId.text ++ " does not belong to tenant " ++
      tenant.text))

/-- A tenant's active resources by external id. -/
def Directory.listActive (d : Directory) (tenant : TenantId) :
    Except ScanError (List RegisteredResource) := do
  let rs ← d.ofTenant tenant
  pure ((rs.filter fun r => r.tenant == tenant && r.active).mergeSort
    fun a b => decide (a.externalId.val ≤ b.externalId.val))

/-- The connection descriptor of a resource, refusing unknown kinds. -/
def RegisteredResource.descriptor (r : RegisteredResource) : Except ScanError Descriptor :=
  (Descriptor.new r.kind r.attributes).mapError ScanError.ofConnector

end DataCatalog.Scan
