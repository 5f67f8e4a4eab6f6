import DataGrid.Cluster.Clear

/-
Clears in a cluster in which other things go on meanwhile: members come, leave and
crash, and others work on their shares, while a coordinator makes a call or a
message is on its way. What goes on is any function on clusters (`Weather`). It
may be something else every time, since a cluster shows how many ids were given
out, to whomever.

If nothing goes on, these are the clears of `DataGrid.Cluster.Clear`.
-/

namespace DataGrid

structure Weather where
  /-- while the coordinator of a share makes a call: the members that it then hears have left -/
  during : String → Cluster → List Member × Cluster
  /-- while a message is on its way to a member -/
  underway : Member → Cluster → Cluster

namespace Weather

/-- Nothing goes on. -/
def calm : Weather where
  during _ c := ([], c)
  underway _ c := c

variable (w : Weather)

/-- What the coordinator of a share works on. -/
def site (start : Cluster) (label : String) : Site Cluster Nat :=
  { start.site label with departures := w.during label }

/-! ## Messages -/

/-- Have the coordinator of a share process a message. -/
def process (c : Cluster) (label : String) (message : ClearMessage) :
    Option (ClearReply × Cluster) :=
  c.coordinate label (Coordinator.process (w.site c label) Cluster.rounds message)

/-- Give a message to one member, once it is with the member. -/
def deliver (message : ClearMessage) (acc : Collector × Cluster) (m : Member) :
    Collector × Cluster :=
  let (collector, c) := acc
  let c := w.underway m c
  match c.handlers.find? m with
  | none => (collector.memberDeparted m, c)
  | some label =>
    if !c.isCurrent m then (collector.memberDeparted m, c)
    else match w.process c label message with
      | some (reply, c) => (collector.reply reply, c)
      | none => (collector, c)

def send (message : ClearMessage) (recipients : List Member) (c : Cluster) : Collector × Cluster :=
  recipients.foldl (w.deliver message) (.new recipients, c)

/-! ## Clears -/

/-- What the coordinator of a share works with when it clears the region. -/
def surroundings (start : Cluster) (label : String) : Surroundings Cluster Nat :=
  { start.surroundings label with
    toSite := w.site start label
    send := fun message recipients c =>
      let (collector, c) := w.send message recipients c
      (.ok collector, c) }

/-- Clear the region from a share: the answer, and what its coordinator did. None if that does not
end. -/
def clearWith (c : Cluster) (label : String) (argument : Option String) (cacheWrite : Bool) :
    Option ((Except ClearError (List Nat) × List Effect) × Cluster) := do
  let (event, c) ← c.clearEvent label argument
  c.coordinate label do
    let answer ←
      (Coordinator.doClear (w.surroundings c label) Cluster.rounds event cacheWrite).run
    return (answer, (← get).effects)

end Weather
end DataGrid
