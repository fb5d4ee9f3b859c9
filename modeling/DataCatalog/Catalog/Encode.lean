import DataCatalog.Catalog.Search
import DataCatalog.Catalog.Runs
import DataCatalog.Json.Read
/-!
# JSON form of catalog rows

Rows are shown as JSON objects with camel-case member names; optional values are `null`
when absent and instants are RFC 3339 text. A row keeps its configuration and attributes as
JSON text and shows them as that text reads back (`Value.readBack`): a double in them may
move by a unit in the last place, while comparisons of stored values see the text itself.
-/

namespace DataCatalog.Catalog

open DataCatalog.Json DataCatalog.Time DataCatalog.Ident

/-- An instant as JSON text. -/
def instantJson (t : Instant) : Value := .string t.rfc3339

/-- The JSON object of a resource row. -/
def ResourceRow.toJson (r : ResourceRow) : Value := Value.ofMembers [
  ("id", .string r.id.text), ("tenantId", .int r.tenant.val), ("externalId", .int r.externalId.val),
  ("kind", .string r.kind), ("engine", .string r.engine), ("name", .string r.name),
  ("config", (Value.object r.config).readBack), ("status", .string r.status.name),
  ("syncVersion", .int r.syncVersion), ("lastSyncedAt", instantOrNull r.lastSyncedAt),
  ("createdAt", instantJson r.createdAt), ("updatedAt", instantJson r.updatedAt)]

/-- The JSON object of a node row. -/
def NodeRow.toJson (n : NodeRow) : Value := Value.ofMembers [
  ("id", .string n.id.text), ("tenantId", .int n.tenant.val), ("resourceId", .string n.resource.text),
  ("parentId", Value.ofOption (fun p => .string p.text) n.parent), ("kind", .string n.kind.name),
  ("name", .string n.name), ("depth", .int n.depth), ("path", .string n.path),
  ("fullName", .string n.fullName), ("status", .string n.status.name),
  ("scanStatus", .string n.scanStatus.name), ("scanStartedAt", instantOrNull n.scanStartedAt),
  ("lastScanAt", instantOrNull n.lastScanAt), ("itemCount", .int n.itemCount),
  ("totalSizeBytes", .int n.totalSize), ("attributes", n.attributes.toJson.readBack),
  ("errorMessage", textOrNull n.errorMessage), ("syncVersion", .int n.syncVersion),
  ("deletedAt", instantOrNull n.deletedAt)]

/-- The JSON object of an item row. -/
def ItemRow.toJson (i : ItemRow) : Value := Value.ofMembers [
  ("id", .string i.id.text), ("tenantId", .int i.tenant.val), ("resourceId", .string i.resource.text),
  ("nodeId", .string i.node.text), ("kind", .string i.kind.name), ("name", .string i.name),
  ("fullName", .string i.fullName), ("status", .string i.status.name),
  ("rowCount", intOrNull i.rowCount), ("sizeBytes", .int i.sizeBytes),
  ("lastModifiedAt", instantOrNull (i.lastModifiedMs.map Instant.ofMillis)),
  ("attributes", i.attributes.toJson.readBack), ("syncVersion", .int i.syncVersion)]

/-- The JSON object of scan counters. -/
def ScanCounts.toJson (c : ScanCounts) : Value := Value.ofMembers [
  ("namespacesScanned", .int c.namespaces), ("itemsScanned", .int c.items),
  ("fieldsScanned", .int c.fields), ("skipped", .int c.skipped)]

/-- The JSON object of a run row. -/
def RunRow.toJson (r : RunRow) : Value := Value.ofMembers [
  ("id", .string r.id.text), ("tenantId", .int r.tenant.val),
  ("externalResourceId", Value.ofOption (fun e => .int e.val) r.externalId),
  ("mode", .string r.mode.name), ("targets", .array (r.targets.map .string)),
  ("status", .string r.status.name), ("errorMessage", textOrNull r.errorMessage),
  ("counts", r.counts.toJson), ("startedAt", instantJson r.startedAt),
  ("completedAt", instantOrNull r.completedAt), ("durationMs", intOrNull r.durationMs)]

/-- The JSON object of a run as a scan summary: its outcome without tenant, resource, mode,
targets or completion time. -/
def RunRow.summaryJson (r : RunRow) : Value := Value.ofMembers [
  ("runId", .string r.id.text), ("status", .string r.status.name),
  ("message", textOrNull r.errorMessage), ("namespacesScanned", .int r.counts.namespaces),
  ("itemsScanned", .int r.counts.items), ("fieldsScanned", .int r.counts.fields),
  ("skipped", .int r.counts.skipped), ("durationMs", intOrNull r.durationMs),
  ("startedAt", instantJson r.startedAt)]

/-- The JSON object of an aggregate. -/
def Aggregate.toJson (a : Aggregate) : Value := Value.ofMembers [
  ("itemCount", .int a.itemCount), ("totalSizeBytes", .int a.totalSize)]

/-- The JSON object of resource statistics. -/
def ResourceStats.toJson (s : ResourceStats) : Value := Value.ofMembers [
  ("resource", s.resource.toJson), ("totalNodes", .int s.totalNodes),
  ("scannedNodes", .int s.scannedNodes), ("unscannedNodes", .int s.unscannedNodes),
  ("lastScanAt", instantOrNull s.lastScanAt)]

/-- The JSON object of tenant statistics. -/
def MetadataStats.toJson (s : MetadataStats) : Value := Value.ofMembers [
  ("resourceCount", .int s.resources), ("namespaceCount", .int s.namespaces),
  ("scannedNamespaceCount", .int s.scannedNamespaces), ("tableCount", .int s.tables),
  ("fieldCount", .int s.fields), ("objectCount", .int s.objects),
  ("totalSizeBytes", .int s.totalSize)]

/-- The JSON object of a column found by keyword. -/
def FieldMatch.toJson (m : FieldMatch) : Value := Value.ofMembers [
  ("itemId", .string m.item.text), ("resourceId", .string m.resource.text),
  ("tableFullName", .string m.tableFullName), ("field", m.field.toJson)]

end DataCatalog.Catalog
