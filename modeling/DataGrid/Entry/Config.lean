import DataGrid.Entry.Token

/-
Flags of single operations and settings of a region.
-/

namespace DataGrid

open Json

/-- How one operation is to be done. -/
structure OperationConfig where
  /-- call the invalidate callbacks even if there was nothing to invalidate -/
  forceInvalidateEvent : Bool := false
  /-- a bulk load is under way: destroys leave a mark -/
  inTokenMode : Bool := false
  /-- the operation comes with the region's initial image -/
  duringInitialImage : Bool := false
  /-- whether the region is asked to tell its listeners -/
  invokeCallbacks : Bool := true
deriving DecidableEq, Repr

namespace OperationConfig

def fieldNames : List String :=
  ["force_invalidate_event", "in_token_mode", "during_initial_image", "invoke_callbacks"]

def toJson (c : OperationConfig) : Json := .object [
  ("force_invalidate_event", .bool c.forceInvalidateEvent),
  ("in_token_mode", .bool c.inTokenMode),
  ("during_initial_image", .bool c.duringInitialImage),
  ("invoke_callbacks", .bool c.invokeCallbacks)]

def ofJson? : Read OperationConfig := fun j => do
  match ← fieldsNamed fieldNames j with
  | [force, tokenMode, image, callbacks] =>
    return {
      forceInvalidateEvent := ← force.required asBool
      inTokenMode := ← tokenMode.required asBool
      duringInitialImage := ← image.required asBool
      invokeCallbacks := ← callbacks.required asBool }
  | _ => none

end OperationConfig

/-- Conditions of a put. -/
structure PutOptions where
  ifNew : Bool := false
  ifOld : Bool := false
  expectedOldValue : Option Value := none
deriving DecidableEq, Repr

/-- Conditions and kinds of a destroy. -/
structure DestroyOptions where
  /-- the destroy came while the answer to a registration of interest was applied -/
  duringRegistration : Bool := false
  evict : Bool := false
  expectedOldValue : Option Value := none
  /-- the entry was recovered from disk and is to leave no mark -/
  removeRecovered : Bool := false
deriving DecidableEq, Repr

def DestroyOptions.eviction : DestroyOptions := { evict := true }

/-- How long tombstones are kept, and how many one expiry may collect. -/
structure TombstoneConfig where
  timeoutMs : Nat := 600000
  batchLimit : Nat := 100000
deriving DecidableEq, Repr

namespace TombstoneConfig

def toJson (c : TombstoneConfig) : Json := .object [
  ("timeout_ms", .nat c.timeoutMs), ("expired_batch_limit", .nat c.batchLimit)]

def ofJson? : Read TombstoneConfig := fun j => do
  match ← fieldsNamed ["timeout_ms", "expired_batch_limit"] j with
  | [timeout, limit] =>
    return {
      timeoutMs := ← timeout.required (asNat 64)
      batchLimit := ← limit.required (asNat 64) }
  | _ => none

end TombstoneConfig

/-- How a region keeps its data. -/
inductive DataPolicy
  | empty | normal | replicate | partition
deriving DecidableEq, Repr

namespace DataPolicy

def name : DataPolicy → String
  | .empty => "Empty"
  | .normal => "Normal"
  | .replicate => "Replicate"
  | .partition => "Partition"

def hasStorage (p : DataPolicy) : Bool := p != .empty

def byName : List (String × DataPolicy) :=
  [.empty, .normal, .replicate, .partition].map fun p => (p.name, p)

end DataPolicy

structure RegionAttributes where
  concurrencyChecks : Bool := true
  dataPolicy : DataPolicy := .partition
  tombstone : TombstoneConfig := {}
deriving DecidableEq, Repr

namespace RegionAttributes

def fieldNames : List String := ["concurrency_checks_enabled", "data_policy", "tombstone"]

def toJson (a : RegionAttributes) : Json := .object [
  ("concurrency_checks_enabled", .bool a.concurrencyChecks),
  ("data_policy", .text a.dataPolicy.name),
  ("tombstone", a.tombstone.toJson)]

def ofJson? : Read RegionAttributes := fun j => do
  match ← fieldsNamed fieldNames j with
  | [checks, policy, tombstone] =>
    return {
      concurrencyChecks := ← checks.required asBool
      dataPolicy := ← policy.required (asVariant DataPolicy.byName)
      tombstone := ← tombstone.withDefault {} TombstoneConfig.ofJson? }
  | _ => none

end RegionAttributes
end DataGrid
