import DataGrid.Version.Tag
import DataGrid.Entry.Config
import DataGrid.Text.Quoted

/-
Entry events and the errors of entry operations. An event is one operation on
one key; as it is applied it learns the old value and, if it is local and
versions are kept, its version.
-/

namespace DataGrid

inductive Operation
  | create | update | invalidate | localInvalidate | destroy | evict | regionClear
deriving DecidableEq, Repr

namespace Operation

def name : Operation → String
  | .create => "Create"
  | .update => "Update"
  | .invalidate => "Invalidate"
  | .localInvalidate => "LocalInvalidate"
  | .destroy => "Destroy"
  | .evict => "Evict"
  | .regionClear => "RegionClear"

def byName : List (String × Operation) :=
  [.create, .update, .invalidate, .localInvalidate, .destroy, .evict, .regionClear].map fun o =>
    (o.name, o)

end Operation

structure EntryEvent where
  key : Key
  operation : Operation
  newValue : Option Value := none
  oldValue : Option Value := none
  tag : Option VersionTag := none
  /-- the event was received from another member -/
  remote : Bool := false
  /-- the member and number of the transaction the event belongs to -/
  transaction : Option (Member × Nat) := none

namespace EntryEvent

def ofPut (k : Key) (v : Value) : EntryEvent := { key := k, operation := .update, newValue := some v }
def ofInvalidate (k : Key) : EntryEvent := { key := k, operation := .invalidate }
def ofDestroy (k : Key) : EntryEvent := { key := k, operation := .destroy }
def ofEviction (k : Key) : EntryEvent := { key := k, operation := .evict }

/-- The event carries a version that was assigned. -/
def hasValidVersion (e : EntryEvent) : Bool :=
  match e.tag with
  | some t => t.isValid
  | none => false

end EntryEvent

inductive EntryError
  /-- the key is absent -/
  | notFound (key : Key)
  /-- a value was required, and a mark given -/
  | invalidToken (key : Key) (token : TokenKind)
deriving DecidableEq, Repr

def EntryError.message : EntryError → String
  | .notFound key => "Entry not found for key " ++ Text.quoted key
  | .invalidToken key token =>
    "Invalid token " ++ token.name ++ " for key " ++ Text.quoted key

end DataGrid
