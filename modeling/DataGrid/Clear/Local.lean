import DataGrid.Clear.Surroundings
import DataGrid.Clear.Retry

/-
The part that each member has in a clear: wait until all local buckets have a
primary, clear those whose primary the member is, again if a member left in
the meantime, and tell listeners and clients.

Loops that end only when the outside answers in a certain way are given a
number of rounds; where it does not suffice the answer is none.
-/

namespace DataGrid

/-- The time that a member waits for primaries, and the pauses it takes. -/
def ClearConfig.keeper (c : ClearConfig) : TimeKeeper := ⟨c.retryTimeoutMs, c.retryIntervalMs, 0, 0⟩

namespace Coordinator

variable {σ β τ : Type} (site : Site σ β)

/-! ## Waiting for primaries -/

/-- Whether all buckets have a primary. Nobody is asked for the buckets after one without. -/
def allHavePrimary : List β → Act σ Bool
  | [] => return true
  | b :: r => do
    if ← consult site (.bucketPolled (site.bucketId b)) fun s => some (site.hasPrimary b s) then
      allHavePrimary r
    else return false

/-- Look for primaries until all local buckets have one, or until the time of the timer is over:
whether all have one, and the timer. -/
def awaitPrimaries (timer : RetryTimer τ) : Nat → τ → Act σ (Bool × τ)
  | 0, _ => failure
  | rounds + 1, t => do
    match site.buckets (← get).outside with
    | none => return (true, t)
    | some buckets =>
      if ← allHavePrimary site buckets.all then return (true, t)
      else if timer.isOver t then return (false, t)
      else awaitPrimaries timer rounds (timer.pause t)

/-- Wait until all local buckets have a primary, and fail if the time is over before: the timer. -/
def waitForPrimaries (timer : RetryTimer τ) (rounds : Nat) (t : τ) : Attempt σ τ := do
  let (found, t) ← sure (awaitPrimaries site timer rounds t)
  if found then return t else throw (.primaryNotFound site.region)

/-! ## Clearing -/

/-- Clear the buckets whose primary the member is: their ids. -/
def clearPrimaries : Attempt σ (List Nat) := do
  match site.buckets (← get).outside with
  | none => return []
  | some buckets => buckets.primaries.mapM fun b => do
    sure (consult site (.bucketCleared (site.bucketId b)) fun s => some ((), site.clearBucket b s))
    return site.bucketId b

/-- Once all local buckets have a primary, clear them. -/
def clearPass (rounds : Nat) : Attempt σ (List Nat) := do
  let keeper := (← get).coordinator.config.keeper
  let _ ← waitForPrimaries site TimeKeeper.timer rounds keeper
  clearPrimaries site

/-- Look whether a member left, and look away again. -/
def takeMembershipChange : Act σ Bool := do
  let changed := (← get).coordinator.membershipChanged
  alter ({ · with membershipChanged := false })
  return changed

/-- Make passes until no member leaves during one: the ids of all passes. -/
def clearUntilStable (rounds : Nat) : Nat → Attempt σ (List Nat)
  | 0 => sure failure
  | passes + 1 => do
    let ids ← clearPass site rounds
    if ← sure takeMembershipChange then return ids ++ (← clearUntilStable rounds passes)
    else return ids

/-- Tell the clients that want to know, then the listeners. -/
def tellAfterClear (event : RegionEvent) : Act σ Unit := do
  let clients := site.clients (← get).outside
  if !clients.isEmpty then
    let routed := { event with clients := some clients }
    consult site (.clientsTold routed) fun s => some ((), site.tellClients routed s)
  if site.hasListener (← get).outside then
    consult site (.listenersTold event) fun s => some ((), site.tellListeners event s)

/-- Clear what the member has to clear: the ids of the buckets, once for each pass. -/
def clearLocal (rounds : Nat) (event : RegionEvent) : Attempt σ (List Nat) := do
  sure (alter ({ · with membershipChanged := false }))
  match site.buckets (← get).outside with
  | none =>
    sure (tellAfterClear site event)
    return []
  | some _ =>
    sure (consult site .creationLocked fun s => (site.lockCreation s).map ((), ·))
    let cleared ← (clearUntilStable site rounds rounds).outcome
    sure (consult site .creationUnlocked fun s => some ((), site.unlockCreation s))
    let ids ← MonadExcept.ofExcept cleared
    sure (tellAfterClear site event)
    return ids

/-! ## Messages of other members -/

/-- Do what a message asks, and reply. -/
def process (rounds : Nat) (message : ClearMessage) : Act σ ClearReply := do
  let self := (← get).coordinator.member
  if message.region ≠ site.region then
    return .failed message self ("region " ++ message.region ++ " is not hosted here")
  else match message.operation with
    | .lock => do
      obtainLocal site message.sender
      return .ok message self []
    | .unlock => do
      releaseLocal site
      return .ok message self []
    | .clear => do
      match ← (clearLocal site rounds message.event).run with
      | .ok ids => return .ok message self ids
      | .error e => return .failed message self e.message

end Coordinator
end DataGrid
