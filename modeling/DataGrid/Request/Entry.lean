import DataGrid.Request.Basic
import DataGrid.Version.Vector
import DataGrid.Entry.Copy

/-
Requests about versions and entries: tags, vectors, the settings of a region
and the conditions of an operation.
-/

namespace DataGrid

open Request

instance : Request VersionTag where
  read j := {
    member := arg j "m"
    entryVersion := arg j "ev"
    regionVersion := arg j "rv"
    timestamp := arg j "ts"
    previousMember := arg j "prev" }

/-- A stamp is written as the tag it is made from. -/
instance : Request VersionStamp where
  read
    | .null => {}
    | j => .ofTag (read j)

/-- A vector is written as what it is to record. -/
def VersionVector.recorded (j : Json) : Checked VersionVector := do
  let v ← (args j "rec").foldlM (fun v (p : Member × Nat) => do return (← v.record p.1 p.2).2)
    ({ owner := arg j "owner" } : VersionVector)
  return (args j "gc").foldl (fun v (p : Member × Nat) => v.recordGc p.1 p.2) v

instance : Request TombstoneConfig where
  read j := { timeoutMs := argOr 600000 j "timeout_ms", batchLimit := argOr 100000 j "limit" }

instance : Request RegionAttributes where
  read j := {
    concurrencyChecks := argOr true j "cc"
    dataPolicy := (DataPolicy.byName.lookup (arg j "policy")).getD .partition
    tombstone := arg j "tombstone" }

instance : Request OperationConfig where
  read j := {
    forceInvalidateEvent := arg j "force"
    inTokenMode := arg j "token_mode"
    duringInitialImage := arg j "image"
    invokeCallbacks := argOr true j "callbacks" }

instance : Request PutOptions where
  read j := { ifNew := arg j "if_new", ifOld := arg j "if_old", expectedOldValue := arg j "expect" }

instance : Request DestroyOptions where
  read j := {
    duringRegistration := arg j "ri"
    evict := arg j "evict"
    expectedOldValue := arg j "expect"
    removeRecovered := arg j "recovered" }

/-- An event, with the operation that it is if it names none. -/
def EntryEvent.requested (default : Operation) (j : Json) : EntryEvent where
  key := arg j "k"
  operation := (Operation.byName.lookup (arg j "eop")).getD default
  newValue := arg j "v"
  tag := arg j "tag"
  remote := arg j "remote"
  transaction := arg j "tx"

/-- The decisions of a region whose local operations are done by a member. -/
def Rules.requested (self : Member) (initialized : Bool) (j : Json) : Rules where
  initialized := initialized
  concurrencyChecks := arg j "cc"
  toleratesMissing := fun _ => arg j "not_found_ok"
  assignTag := if flag j "gen" then Rules.nextTag self else Rules.noTag

/-- A change of one counter. -/
def Stats.requested (j : Json) : Stats → Stats :=
  match text j "do" with
  | "puts" => Stats.countPut
  | "invalidates" => Stats.countInvalidate
  | "destroys" => Stats.countDestroy
  | "tombstone_gcs" => Stats.countTombstoneGc
  | "evictions" => Stats.countEviction
  | "retries" => Stats.countRetry
  | "clears" => Stats.countClear
  | "conflicts" => Stats.countConflict
  | _ => (·.addTombstones (arg j "delta"))

end DataGrid
