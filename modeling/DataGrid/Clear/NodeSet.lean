import DataGrid.Member.Json

/-
The members recorded as hosting a region, as kept on disk.
-/

namespace DataGrid

open Json

structure NodeSet where
  nodes : OrdSet Member := .empty

namespace NodeSet

def ofList (members : List Member) : NodeSet := ⟨.ofList members⟩

def contains (s : NodeSet) (m : Member) : Bool := s.nodes.contains m

/-- Record a member: whether it is new. -/
def add (s : NodeSet) (m : Member) : Bool × NodeSet := (!s.contains m, ⟨s.nodes.insert m⟩)

/-- Forget a member: whether it was recorded. -/
def remove (s : NodeSet) (m : Member) : Bool × NodeSet := (s.contains m, ⟨s.nodes.erase m⟩)

def members (s : NodeSet) : List Member := s.nodes.toList

def toJson (s : NodeSet) : Json := .object [("nodes", s.nodes.toJson)]

def ofJson? : Read NodeSet := fun j => do
  match ← fieldsNamed ["nodes"] j with
  | [nodes] => return ⟨← nodes.required OrdSet.ofJson?⟩
  | _ => none

def parse (s : String) : Option NodeSet := (Json.parse s).bind ofJson?

end NodeSet
end DataGrid
