import DataGrid.Bucket.Region
import DataGrid.Clear.Region
import DataGrid.Clear.NodeSet

/-
A clear rehearsed: one coordinator among buckets, members and services that
answer from a script. It shows what a coordinator asks of its surroundings and
how it bears each way in which they can fail.
-/

namespace DataGrid

structure RehearsedBucket where
  id : Nat
  isPrimary : Bool := true
  /-- whether it has a primary, each time it is asked -/
  answers : List Bool := [true]
  size : Nat := 3
  /-- who leaves the cluster while it is cleared, each time it is -/
  leavers : List (Option Member) := []
  polls : Nat := 0
  clears : Nat := 0
  locks : Nat := 0
  releases : Nat := 0
  lockedBy : Option Member := none

/-- What another member does with a message. -/
inductive RehearsedReply
  | cleared (ids : List Nat)
  | fails (reason : String)
  /-- it gets the message and says nothing -/
  | silent
  /-- it is taken for departed -/
  | lost
  | departs
  /-- it is taken for departed, and the clearing member begins to shut down -/
  | cancels

structure Rehearsal where
  region : String
  totalBuckets : Nat
  current : OrdSet Member
  buckets : Option (List RehearsedBucket)
  nodes : NodeSet := {}
  hasListener : Bool := false
  clients : OrdSet String := .empty
  veto : Option String := none
  assignError : Option ClearError := none
  /-- how the lock service fails, by the name of the lock -/
  lockError : Option (String → LockError) := none
  unlockError : Option (String → LockError) := none
  cancelled : Bool := false
  /-- messages are not taken -/
  refuses : Bool := false
  /-- the answers of members, by their texts -/
  script : List (String × List RehearsedReply) := []
  /-- who left and was not heard of yet -/
  gone : List Member := []
  /-- how many ids were given out -/
  ids : Nat := 0

namespace Rehearsal

def bucketList (r : Rehearsal) : List RehearsedBucket := r.buckets.getD []

def modifyBucket (r : Rehearsal) (i : Nat) (f : RehearsedBucket → RehearsedBucket) : Rehearsal :=
  { r with buckets := r.buckets.map (·.modify i f) }

def depart (r : Rehearsal) (m : Member) : Rehearsal :=
  { r with current := r.current.erase m, gone := r.gone ++ [m] }

def numbers (l : List RehearsedBucket) (p : RehearsedBucket → Bool) : List Nat :=
  (l.zipIdx.filter fun b => p b.1).map (·.2)

def localBuckets (r : Rehearsal) : Option (LocalBuckets Nat) :=
  r.buckets.map fun l => ⟨numbers l fun _ => true, numbers l (·.isPrimary)⟩

def poll (i : Nat) (r : Rehearsal) : Bool × Rehearsal :=
  match r.bucketList[i]? with
  | none => (false, r)
  | some b =>
    let (answer, answers) := (nextAnswer b.answers).getD (false, [])
    (answer, r.modifyBucket i fun b => { b with answers := answers, polls := b.polls + 1 })

def clearBucket (i : Nat) (r : Rehearsal) : Rehearsal :=
  match r.bucketList[i]? with
  | none => r
  | some b =>
    let r := match b.leavers[b.clears]? with
      | some (some m) => r.depart m
      | _ => r
    r.modifyBucket i fun b => { b with size := 0, clears := b.clears + 1 }

/-- A lock service that fails, or does not. -/
def serveLock (error : Option (String → LockError)) (name : String) : Except LockError Unit :=
  match error with
  | some e => .error (e name)
  | none => .ok ()

/-- Take the next answer of a member. -/
def takeReply (r : Rehearsal) (m : Member) : Option RehearsedReply × Rehearsal :=
  match nextAnswer ((r.script.lookup m.text).getD []) with
  | none => (none, r)
  | some (answer, rest) =>
    (some answer,
      { r with script := r.script.map fun p => if p.1 == m.text then (p.1, rest) else p })

/-- Give a message to one member. -/
def deliver (message : ClearMessage) (acc : Collector × Rehearsal) (m : Member) :
    Collector × Rehearsal :=
  let (c, r) := acc
  match r.takeReply m with
  | (none, r) => (c.reply (.ok message m []), r)
  | (some (.cleared ids), r) => (c.reply (.ok message m ids), r)
  | (some (.fails reason), r) => (c.reply (.failed message m reason), r)
  | (some .silent, r) => (c, r)
  | (some .lost, r) => (c.memberDeparted m, r)
  | (some .departs, r) => (c.memberDeparted m, r.depart m)
  | (some .cancels, r) => (c.memberDeparted m, { r with cancelled := true })

def send (message : ClearMessage) (recipients : List Member) (r : Rehearsal) :
    Except ClearError Collector × Rehearsal :=
  if r.refuses then (.error .cancelled, r)
  else
    let (c, r) := recipients.foldl (deliver message) (.new recipients, r)
    (.ok c, r)

/-- The surroundings of the coordinator in a rehearsal; buckets are known by their places. -/
def surroundings (start : Rehearsal) : Surroundings Rehearsal Nat where
  region := start.region
  totalBuckets := start.totalBuckets
  isCurrent r m := r.current.contains m
  buckets := localBuckets
  bucketId i := ((start.bucketList[i]?).map (·.id)).getD i
  hasPrimary := poll
  clearBucket := clearBucket
  lockBucket i m r :=
    some (r.modifyBucket i fun b => { b with lockedBy := some m, locks := b.locks + 1 })
  releaseBucket i r :=
    r.modifyBucket i fun b => { b with lockedBy := none, releases := b.releases + 1 }
  lockCreation r := some r
  unlockCreation r := r
  hasListener r := r.hasListener
  clients r := r.clients
  tellListeners _ r := r
  tellClients _ r := r
  departures r := (r.gone, { r with gone := [] })
  lock name _ _ r := some (serveLock r.lockError name, r)
  unlock name r := (serveLock r.unlockError name, r)
  askWriter _ r :=
    (match r.veto with
      | some reason => .error (.cacheWriter reason)
      | none => .ok (), r)
  assignPrimaries r :=
    (match r.assignError with
      | some e => .error e
      | none => .ok (), r)
  isCancelled r := r.cancelled
  nodes r := r.nodes.members
  newId r := (⟨BitVec.ofNat 128 r.ids⟩, { r with ids := r.ids + 1 })
  send := send

end Rehearsal
end DataGrid
