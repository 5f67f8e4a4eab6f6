import DataGrid.Report.Entry
import DataGrid.Bucket.AdvisorText
import DataGrid.Bucket.Store

/-
Reports of buckets: advisors and their delegates, gates, locations, single
buckets and the store that keeps them.
-/

namespace DataGrid

open Report

instance : Report PrimaryState := ⟨fun s => .text s.text⟩

def AdvisorCall.name : AdvisorCall → String
  | .openGate => "open_gate"
  | .setHosting _ => "hosting"
  | .addHosting _ => "add_hosting"
  | .removeHosting _ => "remove_hosting"
  | .setElector _ => "elector"
  | .volunteer => "reenter"
  | .becomePrimary => "become"
  | .resignPrimary => "resign"
  | .setPrimary _ => "set_primary"
  | .awaitPrimary => "wait"
  | .observe => "observe"
  | .close => "close"

instance : Report AdvisorAnswer where
  report
    | .nothing => .null
    | .flag b => report b
    | .member m => report m
    | .seen state isPrimary hasPrimary =>
      .array [report state, report isPrimary, report hasPrimary]

instance : Report DelegateReport where
  report
    | .did call a => .array [report call.name, report a]
    | .askedAgain state => .array [report "nested", report state]

/-- The advisor's knowledge, where so many copies beyond the first are wanted. -/
def Advisor.parts (a : Advisor) (wanted : Nat) : List (String × Json) := [
  part "state" a.state, part "st_hosting" a.state.isHosting,
  part "st_primary" a.state.hasPrimary, part "is_primary" a.isPrimary,
  part "has_primary" a.hasPrimary, part "hosting" a.hosting, part "primary" a.primary,
  part "elector" a.elector, part "hosts" a.hostingMembers, part "redundancy" a.redundancy,
  part "satisfied" (a.isRedundancySatisfied wanted), part "gate" a.gateOpen,
  part "closed" a.isClosed]

instance : Report ServerLocation where
  report l := .object [part "disp" l.text, part "json" l.toJson.render]

def BucketError.kind : BucketError → String
  | .notPrimary _ _ => "NotPrimary"
  | .serverLocation (.bindAddressNotAvailable _) => "ServerLocation/BindAddressNotAvailable"
  | .serverLocation (.illegalState _) => "ServerLocation/IllegalState"
  | .closed _ => "Closed"
  | .notHosted _ => "NotHosted"
  | .clearInProgress _ => "ClearInProgress"
  | .entry e => "Entry/" ++ e.kind

instance : Report BucketError := ⟨fun e => failure e.kind e.message⟩

def ClearGate.parts (g : ClearGate) : List (String × Json) := [
  part "holder" g.holder, part "closed" g.isClosed, part "waiting" (!g.waiting.isEmpty)]

/-- The bucket with its entries. -/
def Bucket.details (b : Bucket) : Json := .object ([
  part "state" b.advisor.state, part "primary" b.advisor.primary, part "size" b.size,
  part "map" b.copy.map, part "stats" b.copy.stats, part "clears" b.clears,
  part "locked" b.isLockedForClear] ++ b.copy.vectorPart)

/-- The bucket without its entries. -/
def Bucket.summary (b : Bucket) : List Json := [
  report b.advisor.state, report b.size, report b.copy.map.tombstoneCount, report b.clears,
  report b.isLockedForClear]

/-- Who leads the bucket, and how large it is. -/
def Bucket.leadership (b : Bucket) : Json := .array [
  report b.id, report b.advisor.isPrimary, report b.advisor.hasPrimary, report b.size]

def BucketStore.bucketReports (s : BucketStore) (f : Bucket → List Json) : Json :=
  .object (s.all.map fun b => (toString b.id, .array (f b)))

def BucketStore.parts (s : BucketStore) : List (String × Json) := [
  part "ids" s.ids,
  ("buckets", s.bucketReports fun b => b.summary ++ [report b.copy.stats]),
  part "size" s.size, part "tomb" s.tombstoneCount,
  part "creation_locked" s.isCreationLocked,
  part "all" (s.all.map Bucket.leadership),
  part "primaries" (s.primaries.map Bucket.id),
  part "primary_buckets" (s.primaries.map Bucket.leadership)]

end DataGrid
