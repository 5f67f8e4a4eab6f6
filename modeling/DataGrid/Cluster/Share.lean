import DataGrid.Bucket.Store
import DataGrid.Bucket.Placement
import DataGrid.Clear.Surroundings

/-
One member's share of a partitioned region: its buckets, its listeners and
clients, and its coordinator of clears.
-/

namespace DataGrid

/-- A message that waits to be fetched by a client. -/
structure ClientNotification where
  client : String
  event : RegionEvent

/-- An event that a listener heard of. Listeners are numbered in the order in which they came. -/
structure Hearing where
  listener : Nat
  event : RegionEvent

structure Share where
  store : BucketStore
  coordinator : Coordinator
  /-- how many listeners there are -/
  listeners : Nat := 0
  /-- what the listeners heard and was not asked for yet -/
  hearings : List Hearing := []
  /-- the clients that want to be told of events on the region -/
  clients : OrdSet String := .empty
  notifications : List ClientNotification := []
  /-- the reason why the cache writer does not let a clear pass, if it has one -/
  writer : RegionEvent → Option String := fun _ => none

namespace Share

def member (s : Share) : Member := s.store.member

/-! ## Entries -/

/-- The bucket that a key belongs to. -/
def bucketOf (s : Share) (k : Key) : Nat := bucketOfText s.store.config.totalBuckets k

def hosts (s : Share) (k : Key) : Bool := (s.store.bucket? (s.bucketOf k)).isSome

def get? (s : Share) (k : Key) : Option Value := (s.store.bucket? (s.bucketOf k)).bind (·.get? k)

/-- Do something to the bucket of a key, which must be here. -/
def submit (s : Share) (k : Key) (f : Bucket → Checked (Except BucketError EntryEvent × Bucket)) :
    Checked (Except ClearError Unit × Share) :=
  let id := s.bucketOf k
  match s.store.bucket? id with
  | none => .ok (.error (.bucket (.notHosted id)), s)
  | some b => do
    let (answer, b) ← f b
    return (answer.mapError .bucket |>.map fun _ => (), { s with store := s.store.setBucket id b })

def put (s : Share) (now : Int) (k : Key) (v : Value) : Checked (Except ClearError Unit × Share) :=
  s.submit k (·.put now k v)

def destroy (s : Share) (now : Int) (k : Key) : Checked (Except ClearError Unit × Share) :=
  s.submit k (·.destroy now k)

/-- Collect the tombstones whose time is over: how many there were. -/
def sweep (s : Share) (now : Int) : Nat × Share :=
  let (n, store) := s.store.expireTombstones now
  (n, { s with store })

/-! ## Buckets -/

/-- Make a call on the advisor of a bucket. None if the bucket is not here. -/
def advise? (hostsRegion : Member → Bool) (call : AdvisorCall) (id : Nat) (s : Share) :
    Option (AdvisorAnswer × Share) :=
  (s.store.bucket? id).map fun b =>
    let (answer, a, _) := Id.run (Advisor.perform (fun m => pure (hostsRegion m)) call b.advisor)
    (answer, { s with store := s.store.setBucket id { b with advisor := a } })

/-- Volunteer as the primary of a bucket. -/
def volunteer (hostsRegion : Member → Bool) (id : Nat) (s : Share) : Share :=
  ((s.advise? hostsRegion .volunteer id).map (·.2)).getD s

/-- Host a bucket and volunteer as its primary. -/
def hostBucket (hostsRegion : Member → Bool) (id : Nat) (s : Share) :
    Except ClearError Unit × Share :=
  match s.store.create id .immediate with
  | .error e => (.error (.bucket e), s)
  | .ok (_, store) => (.ok (), volunteer hostsRegion id { s with store })

/-- Stop hosting a bucket: the bucket, if it was here. -/
def removeBucket (s : Share) (id : Nat) : Option Bucket × Share :=
  let (b, store) := s.store.remove id
  (b, { s with store })

/-- Volunteer for every bucket that has no primary. -/
def assignPrimaries (hostsRegion : Member → Bool) (s : Share) : Share :=
  s.store.all.foldl (fun s b =>
    if b.advisor.hasPrimary then s else s.volunteer hostsRegion b.id) s

/-- A member left the cluster: the buckets hear of it. -/
def bucketsHearOf (hostsRegion : Member → Bool) (p : Member) (s : Share) : Share :=
  let (store, _) := Id.run (s.store.memberDeparted (fun m => pure (hostsRegion m)) p)
  { s with store }

/-! ## Listeners and clients -/

def tellListeners (e : RegionEvent) (s : Share) : Share :=
  { s with hearings := s.hearings ++ (List.range s.listeners).map (⟨·, e⟩) }

/-- Queue an event for the clients it names. -/
def tellClients (e : RegionEvent) (s : Share) : Share :=
  let clients := (e.clients.map OrdSet.toList).getD []
  { s with notifications := s.notifications ++ clients.map (⟨·, e⟩) }

/-- What the listeners heard, whoever it was. -/
def heard (s : Share) : List RegionEvent := s.hearings.map (·.event)

/-- Take what the listeners heard. -/
def takeHeard (s : Share) : List RegionEvent × Share := (s.heard, { s with hearings := [] })

/-- Fetch what waits for the clients. -/
def takeNotifications (s : Share) : List ClientNotification × Share :=
  (s.notifications, { s with notifications := [] })

end Share
end DataGrid
