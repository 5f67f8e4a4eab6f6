import DataGrid.Bucket.Basic
import DataGrid.Bucket.Placement

/-
The buckets of a region that one member keeps, by id. While the region is
being cleared no new buckets are made.
-/

namespace DataGrid

structure BucketStore where
  member : Member
  regionPath : String
  config : BucketConfig := {}
  buckets : OrdMap Nat Bucket := .empty
  creationGate : ClearGate := {}

namespace BucketStore

def bucket? (s : BucketStore) (id : Nat) : Option Bucket := s.buckets.find? id

/-- The buckets in order of their ids. -/
def all (s : BucketStore) : List Bucket := s.buckets.values

/-- The buckets whose primary this member is. -/
def primaries (s : BucketStore) : List Bucket := s.all.filter (·.advisor.isPrimary)

def ids (s : BucketStore) : List Nat := s.buckets.keys

/-- Counts of all buckets together. -/
def total (counts : List Nat) : Nat := counts.foldr (· + ·) 0

/-- Present keys in all buckets. -/
def size (s : BucketStore) : Nat := total (s.all.map Bucket.size)

def tombstoneCount (s : BucketStore) : Nat := total (s.all.map (·.copy.map.tombstoneCount))

def setBucket (s : BucketStore) (id : Nat) (b : Bucket) : BucketStore :=
  { s with buckets := s.buckets.insert id b }

/-- A bucket that this member begins to host. -/
def newBucket (s : BucketStore) (id : Nat) (delegate : Delegate) : Bucket :=
  let advisor : Advisor := { bucketId := id, member := s.member, delegate := delegate }
  .new s.regionPath { advisor.setHosting true with gateOpen := true } s.config.attributes

/-- Host a bucket, or find that it is hosted already. -/
def create (s : BucketStore) (id : Nat) (delegate : Delegate) :
    Except BucketError (Bucket × BucketStore) :=
  if s.config.totalBuckets ≤ id then .error (.notHosted id)
  else if !s.creationGate.passes then .error (.clearInProgress id)
  else match s.bucket? id with
    | some b => .ok (b, s)
    | none =>
      let b := s.newBucket id delegate
      .ok (b, s.setBucket id b)

/-- Stop hosting a bucket: the bucket, closed. -/
def remove (s : BucketStore) (id : Nat) : Option Bucket × BucketStore :=
  match s.bucket? id with
  | some b =>
    (some { b with advisor := b.advisor.close }, { s with buckets := s.buckets.erase id })
  | none => (none, s)

/-- Do something to each bucket in turn, with an answer for each. -/
def mapBuckets {α : Type} (s : BucketStore) (f : Bucket → α × Bucket) : List α × BucketStore :=
  (s.all.map fun b => (f b).1, { s with buckets := s.buckets.mapValues fun _ b => (f b).2 })

/-- Expire the tombstones of all buckets: how many were collected. -/
def expireTombstones (s : BucketStore) (now : Int) : Nat × BucketStore :=
  let (counts, s) := s.mapBuckets (·.expireTombstones now)
  (total counts, s)

/-- A member left the cluster. The advisors of all buckets hear of it: what their delegates
report. -/
def memberDeparted {m : Type → Type} [Monad m] (hostsRegion : Member → m Bool)
    (s : BucketStore) (p : Member) : m (BucketStore × List DelegateReport) :=
  s.all.foldlM (fun (s, reports) b => do
    let (a, more) ← Advisor.memberDeparted hostsRegion b.advisor p
    return (s.setBucket b.id { b with advisor := a }, reports ++ more)) (s, [])

/-! ## The clear of the region -/

def lockCreation? (s : BucketStore) : Option BucketStore :=
  (s.creationGate.close? s.member).map fun g => { s with creationGate := g }

def unlockCreation (s : BucketStore) : BucketStore :=
  { s with creationGate := s.creationGate.open_.2 }

def isCreationLocked (s : BucketStore) : Bool := s.creationGate.isClosed

end BucketStore
end DataGrid
