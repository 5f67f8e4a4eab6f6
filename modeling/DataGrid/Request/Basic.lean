import DataGrid.Json.Basic
import DataGrid.Address.Reader
import DataGrid.View.Listening

/-
Requests: what someone who works the grid by hand or from a script writes
down, as JSON with named arguments. A request is read leniently: an argument
that is missing or null counts as false, zero, empty or none. The JSON in
which members exchange records is another matter and stands with the records.
-/

namespace DataGrid

/-- How an argument of this type is written. -/
class Request (α : Type) where
  read : Json → α

namespace Request

section

variable {α β : Type}

def field (j : Json) (name : String) : Json :=
  match j with
  | .object fields => (fields.lookup name).getD .null
  | _ => .null

/-- A named argument. -/
def arg [Request α] (j : Json) (name : String) : α := read (field j name)

instance : Request Json := ⟨id⟩

instance : Request Bool where
  read
    | .bool b => b
    | _ => false

instance : Request Int where
  read
    | .int n => n
    | _ => 0

instance : Request Nat := ⟨fun j => (read j : Int).toNat⟩

instance : Request String where
  read
    | .text s => s
    | _ => ""

instance [Request α] : Request (Option α) where
  read
    | .null => none
    | j => some (read j)

instance [Request α] : Request (List α) where
  read
    | .array l => l.map read
    | _ => []

instance [Request α] [Request β] : Request (α × β) where
  read
    | .array [a, b] => (read a, read b)
    | _ => (read .null, read .null)

def opt [Request α] (j : Json) (name : String) : Option α := arg j name

def args [Request α] (j : Json) (name : String) : List α := arg j name

/-- An argument with a default of its own. -/
def argOr [Request α] (default : α) (j : Json) (name : String) : α := (opt j name).getD default

def flag (j : Json) (name : String) : Bool := arg j name

def text (j : Json) (name : String) : String := arg j name

end

end Request

open Request

/-- A member on this machine, known by its port alone. -/
def Member.atPort (port : Nat) : Member := { address := .localhost, port := UInt16.ofNat port }

/-- A member is written as its port, or with as many parts as are wanted. -/
instance : Request Member where
  read
    | .int n => .atPort n.toNat
    | j =>
      let m : Member := {
        address := ((opt j "addr").bind Address.parse).getD .localhost
        port := UInt16.ofNat (arg j "port")
        processId := UInt32.ofNat (arg j "pid")
        name := arg j "name"
        tag := arg j "tag" }
      { m with viewId := ((opt j "view").map Int32.ofInt).getD m.viewId }

/-- The departure of a member. -/
def Change.departure (j : Json) : Change := .departed (arg j "m") (arg j "crashed")

/-- A listener that calls back who left, one that turns away who joins, or one that only listens. -/
def Listener.requested (kind : String) : Listener := fun _ _ c =>
  match kind, c with
  | "rejoin", .departed m _ => .ask (.joined m) fun _ _ => .done
  | "expel", .joined m => .ask (.departed m false) fun _ _ => .done
  | _, _ => .done

end DataGrid
