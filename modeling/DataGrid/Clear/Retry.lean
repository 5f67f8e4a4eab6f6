/-
Looking again and again for something, with pauses, until the time is over.
-/

namespace DataGrid

/-- A timer that is asked whether its time is over, and that takes the pauses. -/
structure RetryTimer (τ : Type) where
  isOver : τ → Bool
  pause : τ → τ

/-- A timer that is over as a list says, whose last answer stays; it counts the pauses. -/
def RetryTimer.scripted : RetryTimer (List Bool × Nat) where
  isOver t := t.1.head?.getD false
  pause t := (if t.1.length ≤ 1 then t.1 else t.1.tail, t.2 + 1)

/-- Counts the time spent in pauses, in microseconds. Looking itself takes no time, but no pause
is without length, so that the time is over some day. -/
structure TimeKeeper where
  maximumMs : Nat
  intervalMs : Nat
  elapsed : Nat := 0
  waits : Nat := 0
deriving DecidableEq, Repr

namespace TimeKeeper

def maximum (k : TimeKeeper) : Nat := k.maximumMs * 1000

def isOver (k : TimeKeeper) : Bool := k.maximum ≤ k.elapsed

/-- A pause is cut short when the time runs out. -/
def pause (k : TimeKeeper) : TimeKeeper :=
  let length := min (k.intervalMs * 1000) (k.maximum - k.elapsed)
  { k with elapsed := k.elapsed + max 1 length, waits := k.waits + 1 }

def timer : RetryTimer TimeKeeper := ⟨isOver, pause⟩

end TimeKeeper
end DataGrid
