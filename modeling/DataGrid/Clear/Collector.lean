import DataGrid.Clear.Error
import DataGrid.Ordered.Set

/-
Gathering the replies to one message. Each recipient is waited for until it
replies or leaves, whichever is heard of first; what others say is ignored.
-/

namespace DataGrid

/-- What came back from one broadcast. -/
structure Outcome where
  replies : List ClearReply := []
  /-- the recipients that left before they replied -/
  departed : List Member := []

def Outcome.isComplete (o : Outcome) : Bool := o.departed.isEmpty

structure Collector where
  pending : OrdSet Member
  outcome : Outcome := {}

namespace Collector

def new (recipients : List Member) : Collector := { pending := .ofList recipients }

def reply (c : Collector) (r : ClearReply) : Collector :=
  if c.pending.contains r.sender then
    { pending := c.pending.erase r.sender
      outcome := { c.outcome with replies := c.outcome.replies ++ [r] } }
  else c

def memberDeparted (c : Collector) (m : Member) : Collector :=
  if c.pending.contains m then
    { pending := c.pending.erase m
      outcome := { c.outcome with departed := c.outcome.departed ++ [m] } }
  else c

/-- Take the outcome, when nobody is waited for any more. -/
def take (c : Collector) : Except ClearError Outcome × Collector :=
  if c.pending.isEmpty then (.ok c.outcome, { c with outcome := {} })
  else (.error (.replyTimeout c.pending.size), c)

end Collector
end DataGrid
