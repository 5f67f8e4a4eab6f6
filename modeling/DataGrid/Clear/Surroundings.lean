import DataGrid.Clear.Collector
import DataGrid.Clear.State
import DataGrid.Clear.Config

/-
The coordinator of clears on one member, what it works with, and a record of
what it did.

A coordinator works on its site, the member's own share of the region, and
with the surroundings that a clear of the whole region needs: the lock
service, the cache writer and the other members. Both are records of functions
on a state `σ` about which nothing is assumed, so that whatever holds of a
coordinator holds for all ways in which the outside can answer. `β` are the
handles of the local buckets.

Where a call may block for ever it answers none, and so does all that waits
for it.
-/

namespace DataGrid

/-- The buckets of a member that stores data for the region. -/
structure LocalBuckets (β : Type) where
  all : List β
  /-- those whose primary the member is -/
  primaries : List β

/-- The share of a region on one member. -/
structure Site (σ β : Type) where
  region : String
  totalBuckets : Nat
  isCurrent : σ → Member → Bool
  /-- none if the member stores no data -/
  buckets : σ → Option (LocalBuckets β)
  bucketId : β → Nat
  /-- whether anyone is primary for a bucket -/
  hasPrimary : β → σ → Bool × σ
  clearBucket : β → σ → σ
  /-- hold the operations on a bucket back for a member -/
  lockBucket : β → Member → σ → Option σ
  releaseBucket : β → σ → σ
  /-- let no new buckets be made -/
  lockCreation : σ → Option σ
  unlockCreation : σ → σ
  hasListener : σ → Bool
  /-- the clients that want to be told of events on the region -/
  clients : σ → OrdSet String
  tellListeners : RegionEvent → σ → σ
  tellClients : RegionEvent → σ → σ
  /-- the members whose departure the coordinator has not heard of yet -/
  departures : σ → List Member × σ

/-- What a clear of the whole region needs besides. -/
structure Surroundings (σ β : Type) extends Site σ β where
  lock : String → Option Nat → Option Nat → σ → Option (Except LockError Unit × σ)
  unlock : String → σ → Except LockError Unit × σ
  askWriter : RegionEvent → σ → Except ClearError Unit × σ
  /-- make sure that every bucket has a primary -/
  assignPrimaries : σ → Except ClearError Unit × σ
  /-- the member is shutting down -/
  isCancelled : σ → Bool
  /-- the members recorded as hosting the region -/
  nodes : σ → List Member
  /-- an id that was not used before -/
  newId : σ → Ulid × σ
  /-- send a message and gather what comes back in time -/
  send : ClearMessage → List Member → σ → Except ClearError Collector × σ

/-- One thing that a coordinator did, or that it heard of. -/
inductive Effect
  | advanced (old new : ClearPhase)
  | lockAsked (name : String) (wait lease : Option Nat)
  | unlocked (name : String)
  | writerAsked (e : RegionEvent)
  | primariesAssigned
  | creationLocked
  | creationUnlocked
  | bucketPolled (id : Nat)
  | bucketCleared (id : Nat)
  | bucketLocked (id : Nat) (requester : Member)
  | bucketReleased (id : Nat)
  | listenersTold (e : RegionEvent)
  | clientsTold (e : RegionEvent)
  | sent (m : ClearMessage) (recipients : List Member)
  | memberLeft (m : Member)

structure Coordinator where
  member : Member
  config : ClearConfig
  phase : ClearPhase := .idle
  lock : ClearLock := {}
  /-- a member left since this was last looked at -/
  membershipChanged : Bool := false

/-- A coordinator at work. -/
structure Scene (σ : Type) where
  coordinator : Coordinator
  outside : σ
  effects : List Effect := []

/-- Something a coordinator does; none if it never ends. -/
abbrev Act (σ : Type) := StateT (Scene σ) Option

/-- Something a coordinator does that may fail. -/
abbrev Attempt (σ : Type) := ExceptT ClearError (Act σ)

/-- An act as an attempt that does not fail. -/
def sure {σ α : Type} (work : Act σ α) : Attempt σ α := ExceptT.lift work

/-- How an attempt ended, in a larger one that goes on in either case. -/
def Attempt.outcome {σ α : Type} (work : Attempt σ α) : Attempt σ (Except ClearError α) :=
  sure work.run

namespace Coordinator

section

variable {σ β α : Type} (site : Site σ β)

def note (e : Effect) : Act σ Unit := modify fun s => { s with effects := s.effects ++ [e] }

def alter (f : Coordinator → Coordinator) : Act σ Unit :=
  modify fun s => { s with coordinator := f s.coordinator }

/-- Go on to a phase, allowed or not. -/
def advance (next : ClearPhase) : Act σ Unit := do
  note (.advanced (← get).coordinator.phase next)
  alter ({ · with phase := next })

/-- A call to the outside. -/
def call (e : Effect) (f : σ → Option (α × σ)) : Act σ α := do
  let (a, outside) ← f (← get).outside
  modify ({ · with outside })
  note e
  return a

/-- A call that answers nothing. -/
def perform (e : Effect) (f : σ → σ) : Act σ Unit := call e fun s => some ((), f s)

/-! ## The clear lock of this member -/

/-- Hold the clear lock, and the local primary buckets with it, for a member that is still there. -/
def obtainLocal (requester : Member) : Act σ Unit := do
  let outside := (← get).outside
  if site.isCurrent outside requester then
    alter fun c => { c with lock := c.lock.lockFor requester }
    if let some buckets := site.buckets outside then
      buckets.primaries.forM fun b =>
        call (.bucketLocked (site.bucketId b) requester) fun s =>
          (site.lockBucket b requester s).map ((), ·)

/-- Give the clear lock up. All local buckets are released, since the member may have ceased to be
primary for some. -/
def releaseLocal : Act σ Unit := do
  let s ← get
  if s.coordinator.lock.isLocked then
    if let some buckets := site.buckets s.outside then
      buckets.all.forM fun b =>
        perform (.bucketReleased (site.bucketId b)) (site.releaseBucket b)
    alter fun c => { c with lock := c.lock.unlock.2 }

/-- Give the clear lock up if the member that left held it. -/
def releaseFor (m : Member) : Act σ Unit := do
  if (← get).coordinator.lock.isHeldBy m then releaseLocal site

/-- A member left the cluster. -/
def memberDeparted (m : Member) : Act σ Unit := do
  note (.memberLeft m)
  alter ({ · with membershipChanged := true })
  releaseFor site m

/-- Hear of the members that left in the meantime. -/
def hearDepartures : Act σ Unit := do
  let (gone, outside) := site.departures (← get).outside
  modify ({ · with outside })
  gone.forM (memberDeparted site)

/-- A call during which members may leave. -/
def consult (e : Effect) (f : σ → Option (α × σ)) : Act σ α := do
  let a ← call e f
  hearDepartures site
  return a

/-- A call during which members may leave, and which may fail. -/
def tryTo (e : Effect) (f : σ → Except ClearError α × σ) : Attempt σ α :=
  ExceptT.mk (consult site e fun s => some (f s))

end

end Coordinator
end DataGrid
