import DataGrid.Address.Basic
import DataGrid.Hash.SipHash

/-
Members of the cluster. All replicas must settle a tie between two updates
in the same way, so members have a total order: by port, then by the bytes of
the address, then by name, then by tag; where neither has a tag, by the view
in which the member joined. What is missing comes first.

`compare` is that order and `same` its equality. Members that are the same
may still differ in process id and, when tagged, in view id; so it can be
seen which of two a collection kept.
-/

namespace DataGrid

structure Member where
  address : Address
  port : UInt16
  processId : UInt32 := 0
  viewId : Int32 := -1
  name : Option String := none
  tag : Option String := none
deriving DecidableEq, Repr

namespace Member

/-- The view id as far as it tells members apart: a tag takes its place. -/
def orderedView (m : Member) : Int32 := if m.tag.isSome then 0 else m.viewId

def order : Member → Member → Ordering :=
  compareLex (compareOn port) <|
  compareLex (compareOn fun m => m.address.octets) <|
  compareLex (compareOn name) <|
  compareLex (compareOn tag) (compareOn orderedView)

instance : Ord Member := ⟨order⟩

instance : Std.TransOrd Member :=
  inferInstanceAs (Std.TransCmp (compareLex (compareOn port) <|
    compareLex (compareOn fun m => m.address.octets) <|
    compareLex (compareOn name) <| compareLex (compareOn tag) (compareOn orderedView)))

def same (a b : Member) : Bool := compare a b == .eq

def sameOption : Option Member → Option Member → Bool
  | none, none => true
  | some a, some b => a.same b
  | _, _ => false

/-- A member is named, and is the same as `m`. -/
def isNamed (named : Option Member) (m : Member) : Bool :=
  match named with
  | some p => p.same m
  | none => false

/-- What a hash of the member is taken of. Members that are the same are fed the same bytes. -/
def hashBytes (m : Member) : List UInt8 :=
  let octets := m.address.octets
  bytesOf 2 m.port.toNat
    ++ bytesOf 8 octets.length ++ octets
    ++ (match m.name with
      | none => bytesOf 8 0
      | some n => bytesOf 8 1 ++ textBytes n)
    ++ (match m.tag with
      | some t => textBytes t
      | none => bytesOf 4 m.viewId.toUInt32.toNat)

/-- The member as shown in messages: address, name and process, view, port and tag. -/
def text (m : Member) : String :=
  m.address.text
    ++ (match m.name with
      | some n => "(" ++ n ++ ":" ++ toString m.processId.toNat ++ ")"
      | none => "(" ++ toString m.processId.toNat ++ ")")
    ++ (if 0 ≤ m.viewId then "<v" ++ toString m.viewId.toInt ++ ">" else "")
    ++ ":" ++ toString m.port.toNat
    ++ (match m.tag with
      | some t => ":" ++ t
      | none => "")

theorem same_refl (m : Member) : m.same m = true := by
  simp only [same, Std.ReflCmp.compare_self, BEq.rfl]

theorem same_symm {a b : Member} (h : a.same b = true) : b.same a = true := by
  simp only [same, beq_iff_eq] at h ⊢
  exact Std.OrientedCmp.eq_symm h

end Member
end DataGrid
