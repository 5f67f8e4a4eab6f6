import DataGrid.Bucket.Server
import DataGrid.Ordered.Set
import DataGrid.Member.Basic
import DataGrid.Counter
import DataGrid.Text.Quoted

/-
What one member knows of one bucket: who hosts it, who is its primary, and
how it bids to become primary itself.

A member that hosts the bucket and knows no primary volunteers, unless a
member that is still there was named to choose the first primary, the elector.
The bid itself is left to a delegate, which makes calls on the advisor while it
volunteers. When the primary leaves, a hosting member volunteers again.

Whether an elector still hosts the region is asked of the region, through a
function that the calls take; it may do more than look, so it answers in a
monad.
-/

namespace DataGrid

inductive PrimaryState
  | noPrimaryNotHosting
  | noPrimaryHosting
  | otherPrimaryNotHosting
  | otherPrimaryHosting
  | volunteering
  | isPrimaryHosting
  | closed
deriving DecidableEq, Repr

namespace PrimaryState

def isHosting : PrimaryState → Bool
  | .noPrimaryHosting | .otherPrimaryHosting | .volunteering | .isPrimaryHosting => true
  | _ => false

def hasPrimary : PrimaryState → Bool
  | .otherPrimaryNotHosting | .otherPrimaryHosting | .isPrimaryHosting => true
  | _ => false

end PrimaryState

/-- The calls a member can make on its advisor. -/
inductive AdvisorCall
  | openGate
  | setHosting (on : Bool)
  | addHosting (m : Member)
  | removeHosting (m : Member)
  | setElector (m : Option Member)
  | volunteer
  | becomePrimary
  | resignPrimary
  | setPrimary (m : Option Member)
  | awaitPrimary
  | observe
  | close

/-- What a call answers. -/
inductive AdvisorAnswer
  | nothing
  | flag (b : Bool)
  | member (m : Option Member)
  | seen (state : PrimaryState) (isPrimary hasPrimary : Bool)

/-- What a delegate did: a call and its answer, or nothing, since it was asked to bid again while
it was at work. -/
inductive DelegateReport
  | did (call : AdvisorCall) (answer : AdvisorAnswer)
  | askedAgain (state : PrimaryState)

/-- How a member bids for primary: the calls it makes while it volunteers. -/
structure Delegate where
  calls : List AdvisorCall
  /-- whether it reports what it does -/
  isReporting : Bool := false

namespace Delegate

/-- Take the primary if nobody has it. -/
def immediate : Delegate := { calls := [.becomePrimary] }

/-- Leave the bid to others. -/
def passive : Delegate := { calls := [] }

/-- A delegate that reports each of its calls. -/
def reporting (calls : List AdvisorCall) : Delegate := { calls, isReporting := true }

end Delegate

structure Advisor where
  bucketId : Nat
  member : Member
  delegate : Delegate := .immediate
  state : PrimaryState := .noPrimaryNotHosting
  hosting : Bool := false
  primary : Option Member := none
  elector : Option Member := none
  hostingMembers : OrdSet Member := .empty
  /-- the bucket is initialized and may volunteer -/
  gateOpen : Bool := false
  shadows : OrdMap String Bool := .empty
  servers : List CacheServer := []

namespace Advisor

def isClosed (a : Advisor) : Bool := a.state == .closed

def isPrimary (a : Advisor) : Bool := a.state == .isPrimaryHosting

def hasPrimary (a : Advisor) : Bool := a.primary.isSome

/-- The recorded primary is this member. -/
def primaryIsSelf (a : Advisor) : Bool := Member.isNamed a.primary a.member

/-- The state that goes with a primary and with hosting. -/
def settledState (a : Advisor) : PrimaryState :=
  match a.primary, a.hosting with
  | some p, true => if p.same a.member then .isPrimaryHosting else .otherPrimaryHosting
  | some _, false => .otherPrimaryNotHosting
  | none, true => .noPrimaryHosting
  | none, false => .noPrimaryNotHosting

/-- Bring the state in line. A closed advisor stays closed. -/
def settle (a : Advisor) : Advisor :=
  if a.isClosed then a else { a with state := a.settledState }

/-! ## Hosting and primary -/

/-- Start or stop hosting the bucket. A primary that stops hosting gives primary up. -/
def setHosting (a : Advisor) (on : Bool) : Advisor :=
  if a.isClosed then a
  else if on then
    { a with hosting := true, hostingMembers := a.hostingMembers.insert a.member }.settle
  else
    { a with
      hosting := false
      hostingMembers := a.hostingMembers.erase a.member
      primary := if a.primaryIsSelf then none else a.primary }.settle

def addHosting (a : Advisor) (m : Member) : Bool × Advisor :=
  (!a.hostingMembers.contains m, { a with hostingMembers := a.hostingMembers.insert m })

def removeHosting (a : Advisor) (m : Member) : Bool × Advisor :=
  (a.hostingMembers.contains m, { a with hostingMembers := a.hostingMembers.erase m })

/-- Become primary, unless another member is; whether this member is primary now. -/
def becomePrimary (a : Advisor) : Bool × Advisor :=
  if a.isClosed || !a.hosting then (false, a)
  else match a.primary with
    | some p => (p.same a.member, a)
    | none => (true, { a with primary := some a.member }.settle)

def resignPrimary (a : Advisor) : Bool × Advisor :=
  if a.primaryIsSelf then (true, { a with primary := none }.settle) else (false, a)

/-- Another member says who is primary. -/
def setPrimary (a : Advisor) (m : Option Member) : Advisor :=
  if a.isClosed then a
  else
    let hosts := match m with
      | some p => a.hostingMembers.insert p
      | none => a.hostingMembers
    { a with hostingMembers := hosts, primary := m }.settle

def close (a : Advisor) : Advisor :=
  { a with
    state := .closed
    hosting := false
    primary := if a.primaryIsSelf then none else a.primary }

/-! ## Volunteering -/

section

variable {m : Type → Type} [Monad m] (hostsRegion : Member → m Bool)

/-- Name the member expected to choose the first primary, if it hosts the region. -/
def setElector (a : Advisor) : Option Member → m Advisor
  | none => return { a with elector := none }
  | some e => return { a with elector := if ← hostsRegion e then some e else none }

/-- Whether an elector holds the bid back. Otherwise it is forgotten. -/
def deferToElector (a : Advisor) : m (Bool × Advisor) :=
  match a.elector with
  | none => return (false, a)
  | some e => do
    if e.same a.member then return (false, { a with elector := none })
    else if ← hostsRegion e then return (true, a)
    else return (false, { a with elector := none })

/-- The advisor may bid: it hosts the bucket, knows no primary, and is not bidding already. -/
def mayBid (a : Advisor) : Bool :=
  a.hosting && a.primary.isNone && a.state != .volunteering && !a.isClosed

/-- Volunteer, leaving the bid to `ask`: whether it was asked, and what was done. -/
def volunteerThrough (ask : Advisor → m (Advisor × List DelegateReport)) (a : Advisor) :
    m (Bool × Advisor × List DelegateReport) := do
  if !a.gateOpen then return (false, a, [])
  else
    let (deferred, a) ← deferToElector hostsRegion a
    if deferred || !a.mayBid then return (false, a, [])
    else
      let (a, reports) ← ask { a with state := .volunteering }
      return (true, if a.state = .volunteering then a.settle else a, reports)

/-- Make one call, where a bid is left to `ask`. -/
def performThrough (ask : Advisor → m (Advisor × List DelegateReport)) (call : AdvisorCall)
    (a : Advisor) : m (AdvisorAnswer × Advisor × List DelegateReport) :=
  match call with
  | .openGate => return (.nothing, { a with gateOpen := true }, [])
  | .setHosting on => return (.nothing, a.setHosting on, [])
  | .addHosting p =>
    let (new, a) := a.addHosting p
    return (.flag new, a, [])
  | .removeHosting p =>
    let (was, a) := a.removeHosting p
    return (.flag was, a, [])
  | .setElector e => return (.nothing, ← setElector hostsRegion a e, [])
  | .volunteer => do
    let (asked, a, reports) ← volunteerThrough hostsRegion ask a
    return (.flag asked, a, reports)
  | .becomePrimary =>
    let (now, a) := a.becomePrimary
    return (.flag now, a, [])
  | .resignPrimary =>
    let (was, a) := a.resignPrimary
    return (.flag was, a, [])
  | .setPrimary p => return (.nothing, a.setPrimary p, [])
  | .awaitPrimary => return (.member a.primary, a, [])
  | .observe => return (.seen a.state a.isPrimary a.hasPrimary, a, [])
  | .close => return (.nothing, a.close, [])

/-- A delegate that is at work already does nothing more. -/
def noteAskedAgain (a : Advisor) : m (Advisor × List DelegateReport) :=
  return (a, [.askedAgain a.state])

/-- Let the delegate make its calls. -/
def askDelegate (a : Advisor) : m (Advisor × List DelegateReport) := do
  let (a, reports) ← a.delegate.calls.foldlM (fun (a, reports) call => do
    let (answer, a, inner) ← performThrough hostsRegion noteAskedAgain call a
    return (a, reports ++ inner ++ [.did call answer])) (a, [])
  return (a, if a.delegate.isReporting then reports else [])

/-- Offer this member as primary: whether its delegate was asked to bid. -/
def volunteer (a : Advisor) : m (Bool × Advisor × List DelegateReport) :=
  volunteerThrough hostsRegion (askDelegate hostsRegion) a

def perform (call : AdvisorCall) (a : Advisor) :
    m (AdvisorAnswer × Advisor × List DelegateReport) :=
  performThrough hostsRegion (askDelegate hostsRegion) call a

/-- A member left the cluster. If it was primary, a hosting member volunteers. -/
def memberDeparted (a : Advisor) (p : Member) : m (Advisor × List DelegateReport) := do
  if a.isClosed then return (a, [])
  else
    let a := { a with
      hostingMembers := a.hostingMembers.erase p
      elector := if Member.isNamed a.elector p then none else a.elector }
    if Member.isNamed a.primary p then
      let a := { a with primary := none }.settle
      if a.hosting then
        let (_, a, reports) ← volunteer hostsRegion a
        return (a, reports)
      else return (a, [])
    else return (a, [])

end

/-! ## Redundancy -/

/-- Copies beyond the first; -1 if nobody hosts the bucket. -/
def redundancy (a : Advisor) : Int := (a.hostingMembers.size : Int) - 1

/-- The number of copies wanted is compared as a signed one. -/
def isRedundancySatisfied (a : Advisor) (wanted : Nat) : Bool := signed32 wanted ≤ a.redundancy

/-! ## Shadow buckets -/

def destroyShadow (a : Advisor) (path : String) : Advisor :=
  { a with shadows := a.shadows.insert path true }

/-- A path that was never marked counts as there. -/
def isShadowDestroyed (a : Advisor) (path : String) : Bool := (a.shadows.find? path).getD false

def markAllShadows (a : Advisor) (destroyed : Bool) : Advisor :=
  { a with shadows := a.shadows.mapValues fun _ _ => destroyed }

/-! ## Servers -/

/-- Where clients reach the bucket: the servers that run. One whose address is gone is left out,
any other trouble with an address is reported. -/
def serverLocations (a : Advisor) (version : Nat) : Except ServerError (List ServerLocation) := do
  let found ← (a.servers.filter (·.running)).mapM fun s =>
    match s.address with
    | .ok host => .ok [(⟨a.bucketId, host, s.port, a.isPrimary, version, s.groups⟩ :
        ServerLocation)]
    | .error (.bindAddressNotAvailable _) => .ok []
    | .error e => .error e
  return found.flatten

end Advisor
end DataGrid
