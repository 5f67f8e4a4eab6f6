import DataGrid.Json.Reader

/-
Reading records. A record is given as an object, whose unknown fields are
skipped and whose known fields must not be repeated, or as an array of its
fields in order. A reader of type `Json → Option α` answers none for a value
of the wrong shape.
-/

namespace DataGrid.Json

/-- Reads a value of the given type, or refuses. -/
abbrev Read (α : Type) := Json → Option α

def asBool : Read Bool
  | .bool b => some b
  | _ => none

def asText : Read String
  | .text s => some s
  | _ => none

/-- An integer between `low` and `high`. -/
def asIntBetween (low high : Int) : Read Int
  | .int n => if low ≤ n ∧ n ≤ high then some n else none
  | _ => none

/-- A natural number of the given number of bits. -/
def asNat (bits : Nat) : Read Nat := fun j =>
  (asIntBetween 0 ((1 <<< bits : Nat) - 1) j).map Int.toNat

/-- A signed integer of the given number of bits. -/
def asSigned (bits : Nat) : Read Int :=
  asIntBetween (-(1 <<< (bits - 1) : Nat)) ((1 <<< (bits - 1) : Nat) - 1)

def asOption {α : Type} (read : Read α) : Read (Option α)
  | .null => some none
  | j => (read j).map some

def asList {α : Type} (read : Read α) : Read (List α)
  | .array items => items.mapM read
  | _ => none

def asPair {α β : Type} (first : Read α) (second : Read β) : Read (α × β)
  | .array [a, b] => do return (← first a, ← second b)
  | _ => none

/-- One of a list of named alternatives, as its name or as an object from the name to null. -/
def asVariant {α : Type} (names : List (String × α)) : Read α
  | .text s => names.lookup s
  | .object [(s, .null)] => names.lookup s
  | _ => none

/-! ## Records -/

/-- How a field of a record is given. -/
inductive Field
  | given (value : Json)
  /-- the record is an object that does not name the field -/
  | unnamed
  /-- the record is an array that ends before the field -/
  | cutOff

namespace Field

/-- A field that must be given. -/
def required {α : Type} (read : Read α) : Field → Option α
  | given j => read j
  | _ => none

/-- A field that may be null, or unnamed in an object. -/
def optional {α : Type} (read : Read α) : Field → Option (Option α)
  | given j => asOption read j
  | unnamed => some none
  | cutOff => none

/-- A field that takes a default when it is not given. -/
def withDefault {α : Type} (default : α) (read : Read α) : Field → Option α
  | given j => read j
  | _ => some default

end Field

/-- The given values of one field. -/
def valuesOf (name : String) (fields : List (String × Json)) : List Json :=
  (fields.filter fun f => f.1 == name).map (·.2)

/-- The fields of a record with these names, in their order. -/
def fieldsNamed (names : List String) : Read (List Field)
  | .object fields => names.mapM fun name =>
    match valuesOf name fields with
    | [] => some .unnamed
    | [j] => some (.given j)
    | _ => none
  | .array items =>
    if items.length ≤ names.length then
      some (items.map .given ++ List.replicate (names.length - items.length) .cutOff)
    else none
  | _ => none

end DataGrid.Json
