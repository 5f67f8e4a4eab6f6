import DataGrid.Json.Record
import DataGrid.Json.Printer

/-
What an entry holds: a value, a mark that its value was invalidated, or one of
the states in which the key counts as absent. Of the last, a tombstone
remembers a versioned destroy, `destroyed` one during a bulk load; a
`placeholder` stands for a key while an operation makes up its mind, and
`detached` marks an entry that has left its map.
-/

namespace DataGrid

open Json

abbrev Key := String
abbrev Value := String

inductive TokenKind
  | valid | invalid | localInvalid | destroyed | tombstone | placeholder | detached
deriving DecidableEq, Repr

namespace TokenKind

def name : TokenKind → String
  | .valid => "Valid"
  | .invalid => "Invalid"
  | .localInvalid => "LocalInvalid"
  | .destroyed => "Destroyed"
  | .tombstone => "Tombstone"
  | .placeholder => "RemovedPhase1"
  | .detached => "RemovedPhase2"

/-- The key is absent. -/
def isRemoved : TokenKind → Bool
  | .destroyed | .tombstone | .placeholder | .detached => true
  | _ => false

def isInvalid : TokenKind → Bool
  | .invalid | .localInvalid => true
  | _ => false

end TokenKind

inductive Token
  | valid (v : Value)
  | invalid
  | localInvalid
  | destroyed
  | tombstone
  | placeholder
  | detached
deriving DecidableEq, Repr

namespace Token

def kind : Token → TokenKind
  | .valid _ => .valid
  | .invalid => .invalid
  | .localInvalid => .localInvalid
  | .destroyed => .destroyed
  | .tombstone => .tombstone
  | .placeholder => .placeholder
  | .detached => .detached

def value? : Token → Option Value
  | .valid v => some v
  | _ => none

def isRemoved (t : Token) : Bool := t.kind.isRemoved
def isInvalid (t : Token) : Bool := t.kind.isInvalid
def isTombstone (t : Token) : Bool := t.kind == .tombstone
def isDetached (t : Token) : Bool := t.kind == .detached

theorem isTombstone_iff {t : Token} : t.isTombstone = true ↔ t = .tombstone := by
  cases t <;> simp [isTombstone, kind]

theorem isDetached_iff {t : Token} : t.isDetached = true ↔ t = .detached := by
  cases t <;> simp [isDetached, kind]

/-- The key is present, with a value or invalidated. -/
def isLive (t : Token) : Bool := !t.isRemoved

def toJson : Token → Json
  | .valid v => .object [(TokenKind.valid.name, .text v)]
  | t => .text t.kind.name

/-- The tokens without a value, by name. -/
def marks : List (String × Token) :=
  [.invalid, .localInvalid, .destroyed, .tombstone, .placeholder, .detached].map fun t =>
    (t.kind.name, t)

def ofJson? : Read Token
  | .object [("Valid", .text v)] => some (.valid v)
  | j => asVariant marks j

def parse (s : String) : Option Token := (Json.parse s).bind ofJson?

end Token
end DataGrid
