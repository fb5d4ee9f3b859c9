import DataCatalog.Connect.Error
import DataCatalog.Catalog.Error
/-!
# Scan errors

Connector and store failures fold into the categories a scan acts on. A connector's
configuration message is kept as it is; a lost connection or a timeout, an enumeration
failure and a refused bucket keep the connector's whole message inside their own, so the
category word appears twice in the text. Enumeration failures and busy subtrees only skip
the namespace at hand; every other error ends the pass over the resource. A fatal store
failure, and a discovery run asking for more concurrent scans than permits can be handed out,
end the whole run.
-/

namespace DataCatalog.Scan

open DataCatalog.Connect DataCatalog.Catalog

/-- The most permits a discovery run can hand out to scans running at once: `2 ^ 61 - 1`. -/
def maxPermits : Nat := Nat.pow 2 61 - 1

/-- Why a scan, or a step of one, failed. -/
inductive ScanError where
  | configuration (message : String)
  | connection (message : String)
  | enumeration (message : String)
  | persistence (error : StoreError)
  | resourceNotFound (id : String)
  | accessDenied (message : String)
  | subtreeBusy (subtree : String)
  | directory (message : String)
  | internal (message : String)
  /-- A discovery run asked to run more scans at once than `maxPermits`. -/
  | permitLimit (requested : Nat)
deriving Repr, DecidableEq

/-- The text of a scan error. -/
def ScanError.message : ScanError → String
  | .configuration m => "Configuration error: " ++ m
  | .connection m => "Connection error: " ++ m
  | .enumeration m => "Enumeration error: " ++ m
  | .persistence e => "Persistence error: " ++ e.message
  | .resourceNotFound id => "Resource " ++ id ++ " not found"
  | .accessDenied m => "Access denied: " ++ m
  | .subtreeBusy s => "Subtree " ++ s ++ " is already being scanned"
  | .directory m => "Resource directory error: " ++ m
  | .internal m => "Internal error: " ++ m
  | .permitLimit _ =>
    "a semaphore may not have more than MAX_PERMITS permits (" ++ toString maxPermits ++ ")"

/-- Whether the error ends the pass over the whole resource. -/
def ScanError.abortsResource : ScanError → Bool
  | .enumeration _ | .subtreeBusy _ => false
  | _ => true

/-- Whether the error ends the run: no scan step recovers from it. -/
def ScanError.fatal : ScanError → Bool
  | .persistence e => e.fatal
  | .permitLimit _ => true
  | _ => false

/-- The scan error a connector error stands for. -/
def ScanError.ofConnector (e : ConnectorError) : ScanError :=
  match e with
  | .configuration m => .configuration m
  | .connection _ | .timeout _ _ => .connection e.message
  | .enumeration _ _ => .enumeration e.message
  | .bucketNotAllowed _ => .accessDenied e.message

end DataCatalog.Scan
