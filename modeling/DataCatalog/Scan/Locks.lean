import DataCatalog.Scan.Error
import DataCatalog.Catalog.Kinds
import DataCatalog.Ident.Basic
/-!
# Subtree guards

At most one reconciliation runs against a root namespace at a time. A guard is keyed by
tenant, catalog resource, node kind and name; taking a guard never waits, and a held subtree
is reported busy. The held guards are a plain list without repeats.
-/

namespace DataCatalog.Scan

open DataCatalog.Catalog DataCatalog.Ident

/-- The root namespace a guard protects. -/
structure SubtreeKey where
  tenant : TenantId
  resource : ResourceId
  kind : NodeKind
  name : String
deriving Repr, DecidableEq

/-- `resource:kind/name`, the way busy subtrees are named. -/
def SubtreeKey.text (k : SubtreeKey) : String :=
  k.resource.text ++ ":" ++ k.kind.name ++ "/" ++ k.name

/-- Whether a guard for `k` is held. -/
def isHeld (held : List SubtreeKey) (k : SubtreeKey) : Bool := held.contains k

/-- Takes the guard for `k`, or reports the subtree busy. -/
def tryAcquire (held : List SubtreeKey) (k : SubtreeKey) : Except ScanError (List SubtreeKey) :=
  if isHeld held k then .error (.subtreeBusy k.text) else .ok (held ++ [k])

/-- Drops the guard for `k`. -/
def release (held : List SubtreeKey) (k : SubtreeKey) : List SubtreeKey := held.erase k

end DataCatalog.Scan
