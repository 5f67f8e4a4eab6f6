import DataGrid.Ordered.Map

/-
Finite sets kept in ascending order. As with maps, `insert` keeps an equal
element that is already there, while `ofList`, which takes a whole list at
once, keeps the last of equal elements.
-/

namespace DataGrid

variable {κ : Type} [Ord κ] [Std.TransOrd κ]

structure OrdSet (κ : Type) [Ord κ] where
  map : OrdMap κ Unit

namespace OrdSet

def empty : OrdSet κ := ⟨.empty⟩

def toList (s : OrdSet κ) : List κ := s.map.keys

def contains (s : OrdSet κ) (k : κ) : Bool := s.map.contains k

def size (s : OrdSet κ) : Nat := s.map.size

def isEmpty (s : OrdSet κ) : Bool := s.size == 0

def insert (s : OrdSet κ) (k : κ) : OrdSet κ := ⟨s.map.insert k ()⟩

def erase (s : OrdSet κ) (k : κ) : OrdSet κ := ⟨s.map.erase k⟩

/-- Put in the elements of a list one after the other. -/
def insertAll (s : OrdSet κ) (l : List κ) : OrdSet κ := l.foldl insert s

/-- The set of a whole list: of equal elements the last is kept. -/
def ofList (l : List κ) : OrdSet κ := ⟨.ofList (l.map fun k => (k, ()))⟩

end OrdSet
end DataGrid
