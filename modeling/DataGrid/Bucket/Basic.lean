import DataGrid.Bucket.Advisor
import DataGrid.Bucket.Gate
import DataGrid.Entry.Operations
import DataGrid.Entry.Collection

/-
One bucket of a region as kept by one member: its copy of the entries, the
advisor that knows the bucket's primary, and the gate that a clear closes.

Local operations are only for the primary; operations received from another
member are applied by every copy. Neither passes while the gate is closed.
-/

namespace DataGrid

inductive BucketError
  | notPrimary (bucketId : Nat) (primary : Option String)
  | serverLocation (e : ServerError)
  | closed (bucketId : Nat)
  | notHosted (bucketId : Nat)
  | clearInProgress (bucketId : Nat)
  | entry (e : EntryError)
deriving DecidableEq, Repr

def BucketError.message : BucketError → String
  | .notPrimary id primary =>
    "Member is not primary for bucket " ++ toString id ++ " (primary: "
      ++ Text.quotedOption primary ++ ")"
  | .serverLocation e => "Server location error: " ++ e.message
  | .closed id => "Bucket " ++ toString id ++ " is closed"
  | .notHosted id => "Bucket " ++ toString id ++ " is not hosted by this member"
  | .clearInProgress id =>
    "Timed out waiting for a clear of bucket " ++ toString id ++ " to finish"
  | .entry e => e.message

structure Bucket where
  path : String
  advisor : Advisor
  attributes : RegionAttributes := {}
  copy : RegionCopy
  gate : ClearGate := {}
  clears : Nat := 0

namespace Bucket

/-- An empty bucket. It keeps versions if its attributes ask for concurrency checks. -/
def new (regionPath : String) (advisor : Advisor) (attributes : RegionAttributes) : Bucket where
  path := regionPath ++ "/bucket-" ++ toString advisor.bucketId
  advisor := advisor
  attributes := attributes
  copy := {
    map := { config := attributes.tombstone }
    vector := if attributes.concurrencyChecks then some { owner := advisor.member } else none }

def id (b : Bucket) : Nat := b.advisor.bucketId

def size (b : Bucket) : Nat := b.copy.map.size

def get? (b : Bucket) (k : Key) : Option Value := b.copy.map.get? k

/-- The decisions the bucket makes for its entries: local operations get the next version. -/
def rules (b : Bucket) : Rules where
  initialized := b.advisor.gateOpen
  concurrencyChecks := b.attributes.concurrencyChecks
  assignTag := Rules.nextTag b.advisor.member

/-- Why a local operation is not for this member, if it is not. -/
def notForLocal (b : Bucket) : Option BucketError :=
  if b.advisor.isClosed then some (.closed b.id)
  else if !b.advisor.hosting then some (.notHosted b.id)
  else if !b.advisor.isPrimary then
    some (.notPrimary b.id (b.advisor.primary.map Member.text))
  else none

/-- Why an event may not pass now, if it may not. -/
def held (b : Bucket) (e : EntryEvent) : Option BucketError :=
  match if e.remote then none else b.notForLocal with
  | some err => some err
  | none => if b.gate.passes then none else some (.clearInProgress b.id)

/-- Remove the entries whose versions this bucket has seen: how many present keys went. -/
def clear (b : Bucket) : Nat × Bucket :=
  let (n, copy) := b.copy.clear b.copy.vector
  (n, { b with copy := copy, clears := b.clears + 1 })

/-- Do to the entries what an event asks for, if it is an operation on a key. -/
def applyToEntry (b : Bucket) (now : Int) (e : EntryEvent) : Option (Checked (Applied × Task)) :=
  let w : Task := { copy := b.copy, event := e }
  match e.operation with
  | .create | .update => some (w.put b.rules now {} {})
  | .invalidate | .localInvalidate => some (w.invalidate b.rules now false false {})
  | .destroy => some (w.destroy b.rules now {} {})
  | .evict => some (w.destroy b.rules now {} .eviction)
  | .regionClear => none

/-- Apply an event: whether it took effect, the event with what it has learnt, and the bucket. -/
def apply (b : Bucket) (now : Int) (e : EntryEvent) :
    Checked (Except BucketError Bool × EntryEvent × Bucket) :=
  match b.held e with
  | some err => .ok (.error err, e, b)
  | none =>
    match b.applyToEntry now e with
    | some done => do
      let (applied, w) ← done
      return (applied.mapError .entry, w.event, { b with copy := w.copy })
    | none => .ok (.ok true, e, b.clear.2)

/-- Apply a new local event: the event, to be passed on to the other copies. -/
def submit (b : Bucket) (now : Int) (e : EntryEvent) :
    Checked (Except BucketError EntryEvent × Bucket) := do
  let (applied, e, b) ← b.apply now e
  return (applied.map fun _ => e, b)

def put (b : Bucket) (now : Int) (k : Key) (v : Value) :
    Checked (Except BucketError EntryEvent × Bucket) := b.submit now (.ofPut k v)

def destroy (b : Bucket) (now : Int) (k : Key) :
    Checked (Except BucketError EntryEvent × Bucket) := b.submit now (.ofDestroy k)

def invalidate (b : Bucket) (now : Int) (k : Key) :
    Checked (Except BucketError EntryEvent × Bucket) := b.submit now (.ofInvalidate k)

def expireTombstones (b : Bucket) (now : Int) : Nat × Bucket :=
  let (n, copy) := b.copy.expireTombstones now
  (n, { b with copy := copy })

def gcTombstones (b : Bucket) (gc : VersionVector) : Nat × Bucket :=
  let (n, copy) := b.copy.gcTombstones gc
  (n, { b with copy := copy })

/-! ## The gate of a clear -/

/-- Hold operations back for a member. None if another member does already. -/
def lockForClear? (b : Bucket) (m : Member) : Option Bucket :=
  (b.gate.close? m).map fun g => { b with gate := g }

def releaseForClear (b : Bucket) : Bucket := { b with gate := b.gate.open_.2 }

def isLockedForClear (b : Bucket) : Bool := b.gate.isClosed

end Bucket
end DataGrid
