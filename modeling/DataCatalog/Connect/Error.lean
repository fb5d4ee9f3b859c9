/-!
# Connector errors

What can go wrong while talking to an external system: its configuration is unusable, it
cannot be reached, one listing cannot be read, a call ran past its deadline, or a path names
a bucket outside the resource's allow-list. Unreachable systems and expired deadlines make
the whole resource unusable for a scan.
-/

namespace DataCatalog.Connect

/-- A failure reported by a connector. -/
inductive ConnectorError where
  | configuration (message : String)
  | connection (message : String)
  | enumeration (target : String) (message : String)
  | timeout (operation : String) (seconds : Nat)
  | bucketNotAllowed (bucket : String)
deriving Repr, DecidableEq

/-- Whole seconds as a duration is written: `30s`, and `0ns` for zero. -/
def durationText (seconds : Nat) : String :=
  if seconds = 0 then "0ns" else String.ofList (Nat.toDigits 10 seconds) ++ "s"

/-- The message of a connector error. -/
def ConnectorError.message : ConnectorError → String
  | .configuration m => "Configuration error: " ++ m
  | .connection m => "Connection error: " ++ m
  | .enumeration t m => "Failed to enumerate " ++ t ++ ": " ++ m
  | .timeout op s => op ++ " timed out after " ++ durationText s
  | .bucketNotAllowed b => "Bucket '" ++ b ++ "' is not allowed for this resource"

/-- The name of the error's kind. -/
def ConnectorError.kindName : ConnectorError → String
  | .configuration _ => "Configuration"
  | .connection _ => "Connection"
  | .enumeration _ _ => "Enumeration"
  | .timeout _ _ => "Timeout"
  | .bucketNotAllowed _ => "BucketNotAllowed"

/-- Errors after which the resource cannot be used for the rest of a scan. -/
def ConnectorError.isConnectionLevel : ConnectorError → Bool
  | .connection _ => true
  | .timeout _ _ => true
  | _ => false

end DataCatalog.Connect
