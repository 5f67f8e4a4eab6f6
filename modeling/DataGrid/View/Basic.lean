import DataGrid.Member.Basic
import DataGrid.Ordered.Set

/-
The membership view: who is part of the cluster now. Every change that makes
a difference raises the view's id by one. The id has no end: a view is taken to
see fewer changes than 64 bits can count.
-/

namespace DataGrid

/-- A member joins the cluster or leaves it. -/
inductive Change
  | joined (member : Member)
  | departed (member : Member) (crashed : Bool)

/-- The member that joins or leaves. -/
def Change.member : Change → Member
  | .joined m => m
  | .departed m _ => m

structure View where
  id : Nat := 0
  members : OrdSet Member := .empty

namespace View

/-- A view that starts with members. -/
def ofMembers (members : List Member) : View :=
  { id := 1, members := OrdSet.empty.insertAll members }

def isCurrent (v : View) (m : Member) : Bool := v.members.contains m

/-- The view after a change; none if the member was there already, or was not there. -/
def change? (v : View) : Change → Option View
  | .joined m =>
    if v.isCurrent m then none else some { id := v.id + 1, members := v.members.insert m }
  | .departed m _ =>
    if v.isCurrent m then some { id := v.id + 1, members := v.members.erase m } else none

end View
end DataGrid
