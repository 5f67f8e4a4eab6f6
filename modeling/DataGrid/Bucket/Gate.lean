import DataGrid.Member.Basic

/-
A gate that is closed by one call and opened by another. While a clear holds
it for a member, operations cannot pass; another member that wants it closed
waits until it was opened.
-/

namespace DataGrid

structure ClearGate where
  holder : Option Member := none
  /-- members that wait for the gate, the first to come first -/
  waiting : List Member := []

namespace ClearGate

def isClosed (g : ClearGate) : Bool := g.holder.isSome

/-- Operations pass only while the gate is open. -/
def passes (g : ClearGate) : Bool := !g.isClosed

/-- Close the gate for a member, which changes nothing if it holds it already. None if another
member holds it. -/
def close? (g : ClearGate) (m : Member) : Option ClearGate :=
  match g.holder with
  | none => some { g with holder := some m }
  | some h => if h.same m then some g else none

/-- Close the gate, or wait for it: whether it is closed for the member now. -/
def request (g : ClearGate) (m : Member) : Bool × ClearGate :=
  match g.close? m with
  | some g' => (true, g')
  | none => (false, { g with waiting := g.waiting ++ [m] })

/-- Open the gate: who held it. The first member that waits closes it again. -/
def open_ (g : ClearGate) : Option Member × ClearGate :=
  match g.waiting with
  | [] => (g.holder, {})
  | m :: r => (g.holder, { holder := some m, waiting := r })

end ClearGate
end DataGrid
