import DataGrid.Clear.Event

/-
What members say to each other in the course of a clear: the member that
clears the region sends messages, the others send replies.
-/

namespace DataGrid

open Json

/-- What a message asks of the member that gets it. -/
inductive ClearOperation
  /-- hold the clear lock for the sender -/
  | lock
  /-- give the clear lock up -/
  | unlock
  /-- clear the buckets whose primary the member is -/
  | clear
deriving DecidableEq, Repr

namespace ClearOperation

def name : ClearOperation → String
  | .lock => "OP_LOCK_FOR_PR_CLEAR"
  | .unlock => "OP_UNLOCK_FOR_PR_CLEAR"
  | .clear => "OP_PR_CLEAR"

def byName : List (String × ClearOperation) := [.lock, .unlock, .clear].map fun o => (o.name, o)

end ClearOperation

structure ClearMessage where
  id : Ulid
  region : String
  sender : Member
  operation : ClearOperation
  event : RegionEvent

namespace ClearMessage

/-- A message about an event, for members that see it from afar. -/
def about (id : Ulid) (sender : Member) (operation : ClearOperation) (event : RegionEvent) :
    ClearMessage where
  id := id
  region := event.region
  sender := sender
  operation := operation
  event := event.toRemote

def fieldNames : List String := ["id", "region", "sender", "operation", "event"]

def toJson (m : ClearMessage) : Json := .object [
  ("id", m.id.toJson),
  ("region", .text m.region),
  ("sender", m.sender.toJson),
  ("operation", .text m.operation.name),
  ("event", m.event.toJson)]

def ofJson? : Read ClearMessage := fun j => do
  match ← fieldsNamed fieldNames j with
  | [id, region, sender, operation, event] =>
    return {
      id := ← id.required Ulid.ofJson?
      region := ← region.required asText
      sender := ← sender.required Member.ofJson?
      operation := ← operation.required (asVariant ClearOperation.byName)
      event := ← event.required RegionEvent.ofJson? }
  | _ => none

def parse (s : String) : Option ClearMessage := (Json.parse s).bind ofJson?

end ClearMessage

structure ClearReply where
  messageId : Ulid
  sender : Member
  /-- the buckets that were cleared, once for each time -/
  cleared : List Nat
  /-- why the member could not do what it was asked -/
  error : Option String

namespace ClearReply

def ok (m : ClearMessage) (sender : Member) (cleared : List Nat) : ClearReply :=
  ⟨m.id, sender, cleared, none⟩

def failed (m : ClearMessage) (sender : Member) (reason : String) : ClearReply :=
  ⟨m.id, sender, [], some reason⟩

def fieldNames : List String := ["message_id", "sender", "cleared_buckets", "error"]

def toJson (r : ClearReply) : Json := .object [
  ("message_id", r.messageId.toJson),
  ("sender", r.sender.toJson),
  ("cleared_buckets", .list .nat r.cleared),
  ("error", .option .text r.error)]

def ofJson? : Read ClearReply := fun j => do
  match ← fieldsNamed fieldNames j with
  | [messageId, sender, cleared, error] =>
    return {
      messageId := ← messageId.required Ulid.ofJson?
      sender := ← sender.required Member.ofJson?
      cleared := ← cleared.required (asList (asNat 32))
      error := ← error.optional asText }
  | _ => none

def parse (s : String) : Option ClearReply := (Json.parse s).bind ofJson?

end ClearReply
end DataGrid
