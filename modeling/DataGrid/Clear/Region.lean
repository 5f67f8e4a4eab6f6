import DataGrid.Clear.Local

/-
A clear of the whole region, as run by one member:

1. take the lock of the region in the cluster, so that one clear runs at a time;
2. ask the cache writer, if it is to be asked;
3. if there are listeners or clients to tell, take the clear lock here and on
   every other member;
4. see that every bucket has a primary;
5. clear the local buckets, then have every other member clear its own;
6. release the locks in the opposite order.

The clear is complete when the buckets cleared are all buckets of the region.
-/

namespace DataGrid.Coordinator

variable {σ β : Type} (sur : Surroundings σ β)

/-! ## Messages to the other members -/

/-- What became of one broadcast: all recipients replied, or some left. -/
inductive Broadcast
  | replied (ids : List Nat)
  | departed (first : Member)

/-- The other members recorded as hosting the region that are still there. -/
def recipients (s : Scene σ) : List Member :=
  (sur.nodes s.outside).filter fun m =>
    !m.same s.coordinator.member && sur.isCurrent s.outside m

/-- The bucket ids of replies, unless one tells of a failure. -/
def collectReplies : List ClearReply → Except ClearError (List Nat)
  | [] => .ok []
  | r :: rest =>
    match r.error with
    | some reason => .error (.remote r.sender reason)
    | none => (collectReplies rest).map (r.cleared ++ ·)

/-- Send a message to the other members and wait for their replies. -/
def broadcast (event : RegionEvent) (operation : ClearOperation) : Attempt σ Broadcast := do
  let s ← get
  match recipients sur s with
  | [] => return .replied []
  | members =>
    let (id, outside) := sur.newId s.outside
    modify ({ · with outside })
    let message := ClearMessage.about id s.coordinator.member operation event
    let collector ← tryTo sur.toSite (.sent message members) (sur.send message members)
    let outcome ← MonadExcept.ofExcept collector.take.1
    match outcome.departed with
    | first :: _ => return .departed first
    | [] => return .replied (← MonadExcept.ofExcept (collectReplies outcome.replies))

/-- One attempt to send a message, with what to do when a recipient leaves before it replies. -/
def sendOnce (event : RegionEvent) (operation : ClearOperation)
    (whenDeparted : Member → Attempt σ (List Nat)) : Attempt σ (List Nat) := do
  if sur.isCancelled (← get).outside then throw .cancelled
  match ← broadcast sur event operation with
  | .replied ids => return ids
  | .departed first => whenDeparted first

/-- Send a message, and again as long as recipients leave and there are further attempts. -/
def sendRepeatedly (event : RegionEvent) (operation : ClearOperation) : Nat → Attempt σ (List Nat)
  | 0 => sendOnce sur event operation fun first => throw (.memberDeparted first operation)
  | further + 1 => sendOnce sur event operation fun _ => sendRepeatedly event operation further

/-- Have every other member do something: the ids of the buckets they cleared. -/
def send (event : RegionEvent) (operation : ClearOperation) : Attempt σ (List Nat) := do
  sendRepeatedly sur event operation ((← get).coordinator.config.sendAttempts - 1)

/-! ## Locks -/

/-- The name of the lock that lets one clear of the region run at a time. -/
def lockName (region : String) : String := "_clearOperation" ++ region

def acquireLock (name : String) : Attempt σ Unit := do
  let config := (← get).coordinator.config
  match ← sure (consult sur.toSite (.lockAsked name config.lockWaitMs config.lockLeaseMs)
      (sur.lock name config.lockWaitMs config.lockLeaseMs)) with
  | .ok _ => return ()
  | .error (.timeout name) => throw (.lockTimeout name)
  | .error e => throw (.membership e)

def releaseLock (name : String) : Attempt σ Unit :=
  tryTo sur.toSite (.unlocked name) fun s =>
    let (answer, s) := sur.unlock name s
    (answer.mapError .membership, s)

/-- Take the clear lock here and on every other member. -/
def obtainAll (event : RegionEvent) : Attempt σ Unit := do
  sure (obtainLocal sur.toSite (← get).coordinator.member)
  let _ ← send sur event .lock
  return ()

/-- Give the clear lock up here and on every other member. -/
def releaseAll (event : RegionEvent) : Attempt σ Unit := do
  sure (releaseLocal sur.toSite)
  let _ ← send sur event .unlock
  return ()

/-! ## The clear -/

/-- Clear here, then on every other member. -/
def clearEverywhere (rounds : Nat) (event : RegionEvent) : Attempt σ (List Nat) := do
  let ids ← clearLocal sur.toSite rounds event
  return ids ++ (← send sur event .clear)

def askWriter (event : RegionEvent) : Attempt σ Unit :=
  tryTo sur.toSite (.writerAsked event) (sur.askWriter event)

def assignPrimaries : Attempt σ Unit :=
  tryTo sur.toSite .primariesAssigned sur.assignPrimaries

def assignAndClear (rounds : Nat) (event : RegionEvent) : Attempt σ (List Nat) := do
  assignPrimaries sur
  sure (advance .clearing)
  clearEverywhere sur rounds event

/-- Someone wants to be told of the clear. -/
def mustTell (s : σ) : Bool := !(sur.clients s).isEmpty || sur.hasListener s

/-- The clear, while the lock of the region is held. Of two failures the first is reported. -/
def clearWhileLocked (rounds : Nat) (event : RegionEvent) (cacheWrite : Bool) :
    Attempt σ (List Nat) := do
  if cacheWrite then askWriter sur event
  let lockAndClear : Attempt σ (List Nat) := do
    obtainAll sur event
    assignAndClear sur rounds event
  if mustTell sur (← get).outside then
    let cleared ← lockAndClear.outcome
    let released ← (releaseAll sur event).outcome
    let ids ← MonadExcept.ofExcept cleared
    MonadExcept.ofExcept released
    return ids
  else assignAndClear sur rounds event

/-- The buckets cleared are all buckets of the region. -/
def coversRegion (ids : List Nat) : Bool := ids.eraseDups.length == sur.totalBuckets

/-- Clear the region on every member: the ids of the cleared buckets. -/
def doClear (rounds : Nat) (event : RegionEvent) (cacheWrite : Bool) : Attempt σ (List Nat) := do
  let name := lockName sur.region
  sure (advance .idle)
  acquireLock sur name
  sure (advance .lockAcquired)
  let cleared ← (clearWhileLocked sur rounds event cacheWrite).outcome
  if !cleared.toBool && (← get).coordinator.phase == .clearing then sure (advance .partialFailure)
  let released ← (releaseLock sur name).outcome
  if (← get).coordinator.phase != .partialFailure then sure (advance .unlocked)
  match cleared, released with
  | .error e, _ | .ok _, .error e =>
    sure (advance .partialFailure)
    throw e
  | .ok ids, .ok _ =>
    if coversRegion sur ids then
      sure (advance .done)
      return ids
    else
      sure (advance .partialFailure)
      throw (.incomplete sur.region)

end DataGrid.Coordinator
