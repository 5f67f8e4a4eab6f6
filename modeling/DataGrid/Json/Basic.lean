/-
JSON values as this library reads and writes them.

Only integers carry a value, since no record of the library has a field of
another number type; any other number is kept as `fraction`, which no field
accepts. A string literal whose escapes leave half of a surrogate pair names
no text. It is kept as `broken`, and so is an object with such a name: it may
stand where a value is skipped, and nowhere else.
-/

namespace DataGrid

inductive Json
  | null
  | bool (b : Bool)
  | int (n : Int)
  | fraction
  | text (s : String)
  | broken
  | array (items : List Json)
  | object (fields : List (String × Json))
deriving Repr, Inhabited

namespace Json

def nat (n : Nat) : Json := .int n

/-- A value that may be missing, written as null when it is. -/
def option {α : Type} (f : α → Json) : Option α → Json
  | none => .null
  | some a => f a

def list {α : Type} (f : α → Json) (l : List α) : Json := .array (l.map f)

end Json
end DataGrid
