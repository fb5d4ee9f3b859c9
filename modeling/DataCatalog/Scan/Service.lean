import DataCatalog.Scan.Orchestrator
import DataCatalog.Schedule.Runtime
/-!
# The scan service

A catalog service runs scans on request. Served alone, a request is its step run to the end
(`ScanRequest.serve`). Served beside others, each request is a thread of the service's runtime
(`scanRuntime`), and the threads interleave at their visits to the catalog connection in any
order. A discovery request records its run and then forks one task per resource, at most
`maxConcurrentScans` of them running at a time, each beside every other request and task; its
supervisor, the rest of the request's thread, closes the run once every task has finished.
-/

namespace DataCatalog.Scan

open DataCatalog.Catalog DataCatalog.Ident DataCatalog.Schedule DataCatalog.Storage

/-- The scans a catalog service runs on request. -/
inductive ScanRequest where
  /-- Refreshes the named namespaces or object paths of a resource, or all of them. -/
  | scan (tenant : TenantId) (externalId : ExternalId) (namespaces : List String)
  /-- Refreshes one table of a relational resource. -/
  | scanTable (tenant : TenantId) (externalId : ExternalId) (schema table : String)
  /-- Discovers the unscanned namespaces of every active resource of a tenant. -/
  | scanUnscanned (tenant : TenantId)
  /-- Reconciles one object path of a catalog resource. -/
  | reconcilePath (resource : ResourceRow) (path : String)

/-- The tenant a request is made for. -/
def ScanRequest.tenant : ScanRequest → TenantId
  | .scan t .. => t
  | .scanTable t .. => t
  | .scanUnscanned t => t
  | .reconcilePath r _ => r.tenant

/-- The step that serves a request alone; its answer is dropped. -/
def ScanRequest.serve : ScanRequest → Step Unit
  | .scan t e ns => scanResource t e ns >>= fun _ => pure ()
  | .scanTable t e s tb => Scan.scanTable t e s tb >>= fun _ => pure ()
  | .scanUnscanned t => scanAllUnscanned t >>= fun _ => pure ()
  | .reconcilePath r p => reconcileObjectPath r p >>= fun _ => pure ()

/-- What a thread or task of the service finishes with: a request's outcome, a discovery run
dispatched with its resources and the number of passes that may run at once, or the outcome of
one discovery pass. -/
inductive Reply where
  | answered (outcome : Except ScanError Unit)
  | dispatched (tenant : TenantId) (run : RunRow) (resources : List RegisteredResource)
      (slots : Nat)
  | passed (outcome : Except ScanError (ScanCounts × Option ScanError))

/-- The outcome of a discovery pass, read off the reply of its task. -/
def Reply.pass? : Reply → Option (Except ScanError (ScanCounts × Option ScanError))
  | .passed o => some o
  | _ => none

/-- The reply of a dispatch: its run and resources, or its failure. -/
def Reply.ofDispatch (tenant : TenantId) :
    Except ScanError (List RegisteredResource × RunRow × Nat) → Reply
  | .ok (resources, run, slots) => .dispatched tenant run resources slots
  | .error e => .answered (.error e)

/-- The task that makes the discovery pass over one resource. -/
def passTask (r : RegisteredResource) : Turns World Reply :=
  ExceptT.run (discoveryPass r) >>= fun o => pure (.passed o)

/-- The supervisor of a discovery run, given the replies of its tasks in order. -/
def superviseTask (tenant : TenantId) (run : RunRow) (resources : List RegisteredResource)
    (replies : List Reply) : Turns World Reply :=
  ExceptT.run (superviseUnscanned tenant run resources (replies.map Reply.pass?)) >>= fun d =>
    pure (.answered (d.map fun _ => ()))

/-- The tasks a reply forks: one discovery pass per resource of a dispatched run, at most
`slots` at a time, then its supervisor. -/
def Reply.fork : Reply → Option (Fork World Reply)
  | .dispatched t run resources slots =>
    some ⟨slots, resources.map passTask, superviseTask t run resources⟩
  | _ => none

/-- The thread that serves a request beside others: a discovery request dispatches its run and
forks its passes; any other request is served to its end. -/
def ScanRequest.thread : ScanRequest → Turns World Reply
  | .scanUnscanned t => ExceptT.run (dispatchUnscanned t) >>= fun d => pure (Reply.ofDispatch t d)
  | r => ExceptT.run r.serve >>= fun o => pure (.answered o)

/-- The service's runtime: each thread and task has its own object connector, a task starts
with its parent's, and a dispatched discovery run forks its passes. -/
def scanRuntime : Runtime ObjectConnector World Reply :=
  ⟨connectorSwitch, id, Reply.fork⟩

end DataCatalog.Scan
