import DataCatalog.Catalog.Rows
/-!
# Resources in the catalog

There is one resource row per tenant and external id. Writing a registration inserts it
with sync version 1, or updates it in place, raising the version by one exactly when the
kind, engine, name, configuration or status changed. Every write refreshes the sync time.
Listings are ordered by name and then external id.
-/

namespace DataCatalog.Catalog

open DataCatalog.Json DataCatalog.Time DataCatalog.Ident

/-- What a registration writes. -/
structure ResourceInput where
  tenant : TenantId
  externalId : ExternalId
  kind : String
  engine : String
  name : String
  config : List (String × Value)
  status : EntityStatus

/-- Whether a row is the registration of `(tenant, externalId)`. -/
def ResourceRow.isFor (r : ResourceRow) (tenant : TenantId) (externalId : ExternalId) : Bool :=
  r.tenant == tenant && r.externalId == externalId

/-- Whether a registration differs from the stored row in a recorded field. -/
def ResourceInput.differsFrom (i : ResourceInput) (r : ResourceRow) : Bool :=
  i.kind != r.kind || i.engine != r.engine || i.name != r.name ||
    !(Value.object i.config == Value.object r.config) || i.status != r.status

/-- The resource row of a tenant's external id. -/
def Tables.getResource (c : Tables) (tenant : TenantId) (externalId : ExternalId) :
    Option ResourceRow :=
  c.resources.find? (·.isFor tenant externalId)

/-- Inserts or updates a registration and returns the stored row. -/
def upsertResource (i : ResourceInput) : Store ResourceRow := do
  let c ← get
  let now ← Tables.now
  match c.getResource i.tenant i.externalId with
  | none =>
    let id ← Tables.mint
    let row : ResourceRow := ⟨⟨id⟩, i.tenant, i.externalId, i.kind, i.engine, i.name, i.config,
      i.status, 1, some now, now, now⟩
    modify fun c => { c with resources := c.resources ++ [row] }
    pure row
  | some old =>
    let bump := if i.differsFrom old then 1 else 0
    let row : ResourceRow := { old with
      kind := i.kind
      engine := i.engine
      name := i.name
      config := i.config
      status := i.status
      syncVersion := old.syncVersion + bump
      lastSyncedAt := some now
      updatedAt := now }
    let rows := replaceWhere (·.isFor i.tenant i.externalId) (fun _ => row) c.resources
    modify fun c => { c with resources := rows }
    pure row

/-- Orders resources by name, then external id. -/
def compareResources (a b : ResourceRow) : Ordering :=
  (compare a.name b.name).then (compare a.externalId.val b.externalId.val)

/-- A tenant's resources by name and external id. -/
def Tables.listResources (c : Tables) (tenant : TenantId) : List ResourceRow :=
  sortOn compareResources (c.resources.filter (·.tenant == tenant))

/-- Scan statistics of a resource's live root nodes. -/
structure ResourceStats where
  resource : ResourceRow
  totalNodes : Nat
  scannedNodes : Nat
  unscannedNodes : Nat
  lastScanAt : Option Instant

/-- The live root nodes of a resource. -/
def Tables.liveRoots (c : Tables) (tenant : TenantId) (resource : ResourceId) : List NodeRow :=
  c.nodes.filter fun n => n.tenant == tenant && n.resource == resource && n.parent.isNone && n.isLive

/-- Root-node statistics for each of a tenant's resources. -/
def Tables.resourceStats (c : Tables) (tenant : TenantId) : List ResourceStats :=
  (c.listResources tenant).map fun r =>
    let roots := c.liveRoots r.tenant r.id
    ⟨r, roots.length, (roots.filter (·.scanStatus == .scanned)).length,
      (roots.filter (·.scanStatus == .unscanned)).length,
      roots.foldl (fun acc n => Instant.maxOpt acc n.lastScanAt) none⟩

end DataCatalog.Catalog
