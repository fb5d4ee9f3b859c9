import DataCatalog.Connect.Kind
import DataCatalog.Connect.Error
import DataCatalog.Json.Value
import DataCatalog.Text.Segments
/-!
# Connection descriptors

A descriptor is a parsed resource kind, the declared kind trimmed and lowercased (the
engine), and the attributes the system of record delivers, credentials included.

Attributes are read leniently: a string attribute is trimmed and missing when blank, a
number stands for its JSON text and a boolean for `true` or `false`; a flag is a boolean, a
nonzero signed-word number, or one of `true 1 yes on` / `false 0 no off` in any case; a
list is an array of strings or one comma-separated string, each entry trimmed, blanks
dropped. A required attribute may have several names, the first present one wins, and a
missing one is reported by its first name.

A key is secret when, lowercased, it is `password`, `secret_key`, `access_key`, `token` or
`secret`, or contains `secret` or `password`. The sanitized attributes drop secret keys.
-/

namespace DataCatalog.Connect

open DataCatalog.Json

/-- Connection attributes: object members sorted by key. -/
abbrev Attributes := List (String × Value)

/-- A resource kind with its connection attributes. -/
structure Descriptor where
  kind : ResourceKind
  engine : String
  attributes : Attributes
deriving Repr

/-- Builds a descriptor from a declared kind, refusing unknown kinds. -/
def Descriptor.new (declared : String) (attributes : Attributes) :
    Except ConnectorError Descriptor :=
  match ResourceKind.parse declared with
  | .ok kind => .ok ⟨kind, normalizeDeclared declared, attributes⟩
  | .error lowered => .error (.configuration ("unsupported resource kind '" ++ lowered ++ "'"))

/-- The raw attribute under a key. -/
def Descriptor.raw? (d : Descriptor) (key : String) : Option Value := d.attributes.lookup key

/-- An attribute as text. -/
def Descriptor.stringAttr (d : Descriptor) (key : String) : Option String :=
  match d.raw? key with
  | some (.string s) => let t := Text.trim s; if t.isEmpty then none else some t
  | some (.number n) => some n.toText
  | some (.bool b) => some (if b then "true" else "false")
  | _ => none

/-- A flag word, in any case after trimming. -/
def flagWord? (s : String) : Option Bool :=
  let w := Text.lower (Text.trim s)
  if w = "true" ∨ w = "1" ∨ w = "yes" ∨ w = "on" then some true
  else if w = "false" ∨ w = "0" ∨ w = "no" ∨ w = "off" then some false
  else none

/-- An attribute as a flag. -/
def Descriptor.boolAttr (d : Descriptor) (key : String) : Option Bool :=
  match d.raw? key with
  | some (.bool b) => some b
  | some (.number n) => n.toInt?.map (· ≠ 0)
  | some (.string s) => flagWord? s
  | _ => none

/-- An attribute as a list of texts. -/
def Descriptor.listAttr (d : Descriptor) (key : String) : List String :=
  let raw : List String := match d.raw? key with
    | some (.array vs) => vs.filterMap Value.string?
    | some (.string s) => Text.splitOn ',' s
    | _ => []
  (raw.map Text.trim).filter (!·.isEmpty)

/-- The first present attribute among `keys`, or a configuration error naming the first. -/
def Descriptor.require (d : Descriptor) (keys : List String) : Except ConnectorError String :=
  match keys.findSome? d.stringAttr with
  | some v => .ok v
  | none => .error (.configuration (d.kind.name ++ " resource is missing required attribute '" ++
      keys.headD "" ++ "'"))

/-- Keys that always hold credentials. -/
def secretKeys : List String := ["password", "secret_key", "access_key", "token", "secret"]

/-- Whether an attribute key names a credential. -/
def isSecretKey (key : String) : Bool :=
  let k := Text.lower key
  secretKeys.contains k || Text.hasInfix k "secret" || Text.hasInfix k "password"

/-- The attributes without credentials. -/
def sanitize (attributes : Attributes) : Attributes :=
  attributes.filter fun m => !isSecretKey m.1

/-- The credential-free attributes of a descriptor. -/
def Descriptor.sanitized (d : Descriptor) : Attributes := sanitize d.attributes

/-- Reads a port: decimal digits with an optional `+`, at most 65535. -/
def readPort? (s : String) : Option Nat :=
  let ds := match s.toList with
    | '+' :: rest => rest
    | cs => cs
  if !ds.isEmpty && ds.all Char.isDigit then
    let n := ds.foldl (fun acc c => acc * 10 + (c.toNat - '0'.toNat)) 0
    if n ≤ 65535 then some n else none
  else none

/-- How to reach a relational database. -/
structure RelationalSettings where
  host : String
  port : Nat
  username : String
  password : String
  database : String
  sslMode : Option String
deriving Repr, DecidableEq

/-- Relational settings from a descriptor: host, port, user, password and database are
required in that order. -/
def RelationalSettings.ofDescriptor (d : Descriptor) : Except ConnectorError RelationalSettings := do
  let host ← d.require ["host"]
  let portText ← d.require ["port"]
  let port ← match readPort? portText with
    | some p => pure p
    | none => throw (.configuration ("invalid port '" ++ portText ++ "'"))
  let username ← d.require ["username", "user"]
  let password ← d.require ["password"]
  let database ← d.require ["database", "dbname"]
  pure ⟨host, port, username, password, database, d.stringAttr "sslmode"⟩

/-- How to reach an object store. -/
structure ObjectStoreSettings where
  endpoint : String
  accessKey : String
  secretKey : String
  region : String
  pathStyle : Bool
  buckets : List String
deriving Repr, DecidableEq

/-- Sorts texts by code point and drops repeats. -/
def sortDistinct (xs : List String) : List String :=
  (xs.mergeSort fun a b => decide (a ≤ b)).eraseDups

/-- Object-store settings from a descriptor: the endpoint gets a scheme when it has none
(`https://` with the `use_ssl` flag, else `http://`), the `buckets` and `bucket` lists are
merged, sorted and deduplicated, the region defaults to `us-east-1` and path-style
addressing to on. -/
def ObjectStoreSettings.ofDescriptor (d : Descriptor) :
    Except ConnectorError ObjectStoreSettings := do
  let endpoint ← d.require ["endpoint"]
  let useSsl := (d.boolAttr "use_ssl").getD false
  let endpoint :=
    if Text.hasInfix endpoint "://" then endpoint
    else if useSsl then "https://" ++ endpoint
    else "http://" ++ endpoint
  let buckets := sortDistinct (d.listAttr "buckets" ++ d.listAttr "bucket")
  let accessKey ← d.require ["access_key"]
  let secretKey ← d.require ["secret_key"]
  pure ⟨endpoint, accessKey, secretKey, (d.stringAttr "region").getD "us-east-1",
    (d.boolAttr "path_style").getD true, buckets⟩

end DataCatalog.Connect
