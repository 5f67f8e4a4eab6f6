import DataGrid.View.Basic

/-
Listeners of a view. Each change is told to every listener registered at that
moment, in the order of registration and after the view has changed. A
listener may call the view while it is told of a change. What it asks for is
done, and told to all, before the next listener hears of the first change.

Whoever calls the view may let each call depend on what the calls before it
gave, and a listener on all that was told so far, which is all it can have
remembered. Listeners can keep answering each other for ever, so a request
carries a bound on how deep they may nest.
-/

namespace DataGrid

/-- A request for a change, and how it was met. -/
structure Answer where
  change : Change
  before : View
  after : View
  /-- the change made a difference -/
  made : Bool
  /-- how many listeners were there to be told -/
  audience : Nat

/-- Listener number `listener` was told of a change, at a time when the view was `seen`. -/
structure Notice where
  listener : Nat
  change : Change
  /-- the id that the view got by the change -/
  cause : Nat
  seen : View

/-- Calls of a view, one after the other. -/
inductive Calls
  | done
  /-- ask for a change, then go on from whether it made a difference and from the view it left -/
  | ask (c : Change) (next : Bool → View → Calls)
  /-- register a listener -/
  | listen (l : List Notice → View → Change → Calls) (next : Calls)

/-- What a listener calls when it is told of a change, given all that was told before. -/
abbrev Listener := List Notice → View → Change → Calls

/-- A view with its listeners, and in order all it was asked for and all they have been told. -/
structure WatchedView where
  view : View
  listeners : List Listener := []
  answers : List Answer := []
  told : List Notice := []

namespace WatchedView

def listen (w : WatchedView) (l : Listener) : WatchedView :=
  { w with listeners := w.listeners ++ [l] }

def answerTo (w : WatchedView) (c : Change) : Answer where
  change := c
  before := w.view
  after := (w.view.change? c).getD w.view
  made := (w.view.change? c).isSome
  audience := w.listeners.length

/-- The view after it was asked, before anyone is told. -/
def answered (w : WatchedView) (a : Answer) : WatchedView :=
  { w with view := a.after, answers := w.answers ++ [a] }

/-- Make calls, given how requests are met. -/
def conduct (ask : Change → WatchedView → Option (Bool × WatchedView)) :
    Calls → WatchedView → Option WatchedView
  | .done, w => some w
  | .ask c next, w => do
    let (made, w) ← ask c w
    conduct ask (next made w.view) w
  | .listen l next, w => conduct ask next (w.listen l)

/-- Tell one listener of a change and make its calls. -/
def tell (ask : Change → WatchedView → Option (Bool × WatchedView)) (a : Answer)
    (w : WatchedView) (l : Listener × Nat) : Option WatchedView :=
  conduct ask (l.1 w.told w.view a.change)
    { w with told := w.told ++ [⟨l.2, a.change, a.after.id, w.view⟩] }

/-- Ask for a change: whether it made a difference, and the view after everyone was told.
None if listeners nest deeper than `depth`. -/
def request : Nat → Change → WatchedView → Option (Bool × WatchedView)
  | 0, _, _ => none
  | depth + 1, c, w =>
    let a := w.answerTo c
    if a.made then
      (w.listeners.zipIdx.foldlM (tell (request depth) a) (w.answered a)).map (true, ·)
    else some (false, w.answered a)

/-- The view after some calls. -/
def run (depth : Nat) (calls : Calls) (w : WatchedView) : Option WatchedView :=
  conduct (request depth) calls w

end WatchedView
end DataGrid
