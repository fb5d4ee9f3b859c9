import Mathlib
import DataCatalog.Proofs.Scan.Confined
import DataCatalog.Proofs.Schedule.Threads
import DataCatalog.Scan.Service
/-!
# Sessions of scan requests

A catalog service serves scan requests one after another, or side by side as the threads of
its runtime, with the passes of a discovery run as tasks beside them, all interleaved at their
visits to the catalog in any order. Between requests anything outside the catalog may change:
the sources and the object store, the directory, injected failures, the held guards and the
connector. A catalog invariant that the writes of each request's tenant keep holds after every
such session.
-/

namespace DataCatalog.Scan

open DataCatalog.Catalog DataCatalog.Ident DataCatalog.Schedule

/-- A reply that, if it dispatched a run, did so for a tenant `K` holds of, over resources of
that tenant. -/
def Reply.Dispatches (K : TenantId → Prop) : Reply → Prop
  | .dispatched t _ resources _ => K t ∧ ∀ r ∈ resources, r.tenant = t
  | _ => True

variable {J : Tables → Prop}

theorem ScanRequest.serve_keeps (r : ScanRequest) (hJ : ScansKeep r.tenant J) :
    r.serve.Keeps J fun _ => True := by
  cases r with
  | scan t e ns =>
    exact Step.Keeps.bind (scanResource_keeps hJ e ns) fun _ _ => Step.Keeps.pure trivial
  | scanTable t e s tb =>
    exact Step.Keeps.bind (scanTable_keeps hJ e s tb) fun _ _ => Step.Keeps.pure trivial
  | scanUnscanned t =>
    exact Step.Keeps.bind (scanAllUnscanned_keeps hJ) fun _ _ => Step.Keeps.pure trivial
  | reconcilePath res p =>
    exact Step.Keeps.bind (reconcileObjectPath_keeps (u := res.tenant) hJ.passes rfl p) fun _ _ =>
      Step.Keeps.pure trivial

/-- A step that keeps `J`, its outcome made into a reply, keeps `J`. -/
theorem Step.Keeps.reply {α : Type} {x : Step α} {Q : α → Prop} {f : Except ScanError α → Reply}
    {R : Reply → Prop} (h : x.Keeps J Q) (hf : ∀ o, (∀ a, o = .ok a → Q a) → R (f o)) :
    Turns.Keeps (fun w : World => J w.catalog) R (ExceptT.run x >>= fun o => Pure.pure (f o)) :=
  Turns.Keeps.bind h fun o ho => Turns.Keeps.pure (hf o ho)

/-- Served beside others, a request keeps what the writes of its tenant keep, and a run it
dispatches is over resources of its tenant. -/
theorem ScanRequest.thread_keeps (r : ScanRequest) (hJ : ScansKeep r.tenant J) :
    Turns.Keeps (fun w : World => J w.catalog) (Reply.Dispatches fun t => ScansKeep t J)
      r.thread := by
  cases r with
  | scanUnscanned t =>
    refine (dispatchUnscanned_keeps hJ).reply fun d hd => ?_
    rcases d with e | ⟨resources, run, slots⟩
    · trivial
    · exact ⟨hJ, (hd _ rfl).1⟩
  | scan t e ns => exact ((ScanRequest.scan t e ns).serve_keeps hJ).reply fun _ _ => trivial
  | scanTable t e s tb =>
    exact ((ScanRequest.scanTable t e s tb).serve_keeps hJ).reply fun _ _ => trivial
  | reconcilePath res p =>
    exact ((ScanRequest.reconcilePath res p).serve_keeps hJ).reply fun _ _ => trivial

/-- The service's runtime keeps `J` at every step when the writes of every tenant it dispatches
for keep it: entering a connector leaves the catalog, and the passes and the supervisor of a
dispatched run keep `J`. -/
theorem scanRuntime_keeps :
    scanRuntime.Keeps (fun w : World => J w.catalog) (Reply.Dispatches fun t => ScansKeep t J) where
  enter _ _ hs := hs
  fork a f ha hf := by
    cases a with
    | dispatched t run resources slots =>
      obtain ⟨hJ, hres⟩ := ha
      cases hf
      refine ⟨fun p hp => ?_, fun replies _ => ?_⟩
      · obtain ⟨r, hr, rfl⟩ := List.mem_map.1 hp
        exact (discoveryPass_keeps hJ (hres r hr)).reply fun _ _ => trivial
      · exact (superviseUnscanned_keeps hJ run resources _).reply fun _ _ => trivial
    | answered o => cases hf
    | passed o => cases hf

/-- The worlds a session of requests satisfying `P` leads to from `w`: each request served
alone, or several side by side as threads of the service's runtime, in any interleaving and
stopped at any point, and any change outside the catalog between them. -/
inductive Served (P : ScanRequest → Prop) (w : World) : World → Prop
  | start : Served P w w
  | alone {w' : World} (r : ScanRequest) : P r → Served P w w' →
      Served P w (r.serve.runAlone w').2
  | together {w' : World} (rs : List ScanRequest)
      {c : Config Storage.ObjectConnector World Reply} : (∀ r ∈ rs, P r) → Served P w w' →
      scanRuntime.Runs (Config.launch (rs.map ScanRequest.thread) w'.connector w') c →
      Served P w c.state
  | upstream {w' w'' : World} : Served P w w' → w''.catalog = w'.catalog → Served P w w''

/-- A catalog invariant kept by the writes of every tenant a session serves holds after the
session. -/
theorem Served.keeps {P : ScanRequest → Prop} (hJ : ∀ r, P r → ScansKeep r.tenant J)
    {w w' : World} (h : Served P w w') (hw : J w.catalog) : J w'.catalog := by
  induction h with
  | start => exact hw
  | alone r hr _ ih => exact ((r.serve_keeps (hJ r hr)).run ih).1
  | together rs hrs _ hruns ih =>
    -- every request's thread keeps `J`, and so does every run of the runtime from them
    refine (Config.Keeps.runs scanRuntime_keeps hruns
      (Config.keeps_launch (fun t ht => ?_) _ ih)).state
    obtain ⟨r, hr, rfl⟩ := List.mem_map.1 ht
    exact r.thread_keeps (hJ r (hrs r hr))
  | upstream _ hc ih => rwa [hc]

end DataCatalog.Scan
