import DataGrid.Cluster.Basic
import DataGrid.Clear.Region

/-
Clears in a cluster. A message reaches the member it is for if that is still
there and handles messages; members are asked one after the other.
-/

namespace DataGrid.Cluster

/-- The number of rounds that loops are given which end only when others act. Here nobody acts
meanwhile, so that a loop ends soon or never. -/
def rounds : Nat := 1000000

/-- Whether a member may not send any more. -/
def isCancelled (c : Cluster) (m : Member) : Bool := c.isShutDown || !c.isCurrent m

/-! ## Messages -/

/-- Have the coordinator of a share process a message. -/
def process (c : Cluster) (label : String) (message : ClearMessage) :
    Option (ClearReply × Cluster) :=
  c.coordinate label (Coordinator.process (c.site label) rounds message)

/-- Give a message to one member. One that does not get it counts as departed; one whose work does
not end is waited for. -/
def deliver (message : ClearMessage) (acc : Collector × Cluster) (m : Member) :
    Collector × Cluster :=
  let (collector, c) := acc
  match c.handlers.find? m with
  | none => (collector.memberDeparted m, c)
  | some label =>
    if !c.isCurrent m then (collector.memberDeparted m, c)
    else match c.process label message with
      | some (reply, c) => (collector.reply reply, c)
      | none => (collector, c)

/-- Send a message to members, whether or not the sender may. -/
def send (message : ClearMessage) (recipients : List Member) (c : Cluster) : Collector × Cluster :=
  recipients.foldl (deliver message) (.new recipients, c)

/-! ## Clears -/

/-- The lock of a name for the member of a share. None if it would wait for ever. -/
def lock (label name : String) (wait lease : Option Nat) (c : Cluster) :
    Option (Except LockError Unit × Cluster) := do
  let s ← c.share? label
  match c.grantor.lock 0 ⟨s.member, name, lease⟩ wait.isSome with
  | (.granted, grantor) => some (.ok (), { c with grantor })
  | (.refused e, _) => some (.error e, c)
  | (.queued, _) => none

def unlock (label name : String) (c : Cluster) : Except LockError Unit × Cluster :=
  match c.share? label with
  | none => (.ok (), c)
  | some s =>
    match c.grantor.unlock s.member name with
    | .ok grantor => (.ok (), { c with grantor })
    | .error e => (.error e, c)

def askWriter (label : String) (e : RegionEvent) (c : Cluster) : Except ClearError Unit × Cluster :=
  match (c.share? label).bind (·.writer e) with
  | some reason => (.error (.cacheWriter reason), c)
  | none => (.ok (), c)

/-- What the coordinator of a share works with when it clears the region. -/
def surroundings (start : Cluster) (label : String) : Surroundings Cluster Nat where
  toSite := start.site label
  lock := lock label
  unlock := unlock label
  askWriter := askWriter label
  assignPrimaries c := (.ok (), c.modifyShare label (·.assignPrimaries c.region.hasRegion))
  isCancelled c := (c.share? label).all fun s => c.isCancelled s.member
  nodes c := c.nodes.members
  newId := newId
  send message recipients c :=
    let (collector, c) := c.send message recipients
    (.ok collector, c)

/-- A new event: the region is cleared by the member of a share. -/
def clearEvent (c : Cluster) (label : String) (argument : Option String) :
    Option (RegionEvent × Cluster) := do
  let s ← c.share? label
  let (id, c) := c.newId
  return (.clear id c.name s.member argument, c)

/-- Clear the region from a share: the ids of the cleared buckets. None if that does not end. -/
def clearWith (c : Cluster) (label : String) (argument : Option String) (cacheWrite : Bool) :
    Option (Except ClearError (List Nat) × Cluster) := do
  let (event, c) ← c.clearEvent label argument
  c.coordinate label (Coordinator.doClear (c.surroundings label) rounds event cacheWrite).run

/-- Clear the region from a share, if the cache writer lets it pass. -/
def clear (c : Cluster) (label : String) : Option (Except ClearError (List Nat) × Cluster) :=
  c.clearWith label none true

end DataGrid.Cluster
