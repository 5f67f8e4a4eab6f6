import DataGrid.Entry.Event
import DataGrid.Member.Json
import DataGrid.Text.Ulid

/-
Events on a whole region.
-/

namespace DataGrid

open Json

namespace Ulid

def toJson (u : Ulid) : Json := .text u.text

def ofJson? : Read Ulid := fun j => (asText j).bind parse

end Ulid

structure RegionEvent where
  id : Ulid
  region : String
  /-- the member where the event came up -/
  origin : Member
  operation : Operation
  originRemote : Bool
  argument : Option String
  /-- the clients of this member that want to be told -/
  clients : Option (OrdSet String)

namespace RegionEvent

def clear (id : Ulid) (region : String) (origin : Member) (argument : Option String) :
    RegionEvent where
  id := id
  region := region
  origin := origin
  operation := .regionClear
  originRemote := false
  argument := argument
  clients := none

/-- The event as another member sees it, which has clients of its own. -/
def toRemote (e : RegionEvent) : RegionEvent := { e with originRemote := true, clients := none }

def fieldNames : List String :=
  ["id", "region", "origin", "operation", "origin_remote", "callback_argument", "filter_info"]

def clientsToJson (clients : OrdSet String) : Json :=
  .object [("clients", .list .text clients.toList)]

def clientsOfJson? : Read (OrdSet String) := fun j => do
  match ← fieldsNamed ["clients"] j with
  | [clients] => return OrdSet.empty.insertAll (← clients.required (asList asText))
  | _ => none

def toJson (e : RegionEvent) : Json := .object [
  ("id", e.id.toJson),
  ("region", .text e.region),
  ("origin", e.origin.toJson),
  ("operation", .text e.operation.name),
  ("origin_remote", .bool e.originRemote),
  ("callback_argument", .option .text e.argument),
  ("filter_info", .option clientsToJson e.clients)]

def ofJson? : Read RegionEvent := fun j => do
  match ← fieldsNamed fieldNames j with
  | [id, region, origin, operation, originRemote, argument, clients] =>
    return {
      id := ← id.required Ulid.ofJson?
      region := ← region.required asText
      origin := ← origin.required Member.ofJson?
      operation := ← operation.required (asVariant Operation.byName)
      originRemote := ← originRemote.required asBool
      argument := ← argument.optional asText
      clients := ← clients.optional clientsOfJson? }
  | _ => none

def parse (s : String) : Option RegionEvent := (Json.parse s).bind ofJson?

end RegionEvent
end DataGrid
