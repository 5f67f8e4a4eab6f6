/-
Counters. Versions, counts and ids are numbers of 64 bits. Arithmetic that
would leave the range is refused with `Overflow`, which the caller sees;
the statistics are the exception and wrap around.

The clock of an entry map and the id of a view are not among these counters.
They start at zero and go up by one with each change, so they are natural
numbers here: a map or a view is taken to see fewer than 2 ^ 64 changes.
-/

namespace DataGrid

/-- The largest value a counter can take. -/
def counterMax : Nat := UInt64.size - 1

/-- A counter would have left its range, upwards or downwards. -/
inductive Overflow
  | add
  | subtract
deriving DecidableEq, Repr

def Overflow.message : Overflow → String
  | .add => "attempt to add with overflow"
  | .subtract => "attempt to subtract with overflow"

/-- A result that may fail only by a counter leaving its range. -/
abbrev Checked := Except Overflow

theorem bind_ok {α β : Type} {x : Checked α} {f : α → Checked β} {b : β} (h : x >>= f = .ok b) :
    ∃ a, x = .ok a ∧ f a = .ok b := by
  cases x with
  | error e => cases h
  | ok a => exact ⟨a, rfl, h⟩

namespace Counter

def add (a b : Nat) : Checked Nat :=
  if a + b ≤ counterMax then .ok (a + b) else .error .add

def sub (a b : Nat) : Checked Nat :=
  if b ≤ a then .ok (a - b) else .error .subtract

/-- Addition of a statistic: it starts again at zero past the largest value. -/
def wrappingAdd (a b : Nat) : Nat := (a + b) % (counterMax + 1)

theorem add_eq_ok {a b : Nat} (h : a + b ≤ counterMax) : add a b = .ok (a + b) := by
  simp [add, h]

theorem of_add {a b n : Nat} (h : add a b = .ok n) : n = a + b ∧ n ≤ counterMax := by
  unfold add at h
  split at h
  next hle =>
    cases h
    exact ⟨rfl, hle⟩
  next => cases h

theorem sub_eq_ok {a b : Nat} (h : b ≤ a) : sub a b = .ok (a - b) := by
  simp [sub, h]

theorem wrappingAdd_zero {a : Nat} (h : a ≤ counterMax) : wrappingAdd a 0 = a :=
  Nat.mod_eq_of_lt (Nat.lt_succ_of_le h)

theorem wrappingAdd_le (a b : Nat) : wrappingAdd a b ≤ counterMax :=
  Nat.le_of_lt_succ (Nat.mod_lt _ (Nat.succ_pos _))

theorem wrappingAdd_wrappingAdd (a b c : Nat) :
    wrappingAdd (wrappingAdd a b) c = wrappingAdd a (b + c) := by
  rw [wrappingAdd, wrappingAdd, wrappingAdd, Nat.mod_add_mod, Nat.add_assoc]

end Counter

/-! ## Signed words -/

/-- A number of 32 bits read as a signed one. -/
def signed32 (n : Nat) : Int := Int.bmod n UInt32.size

/-- A number of 64 bits read as a signed one. -/
def signed64 (n : Nat) : Int := Int.bmod n UInt64.size

def timeMin : Int := Int64.minValue.toInt
def timeMax : Int := Int64.maxValue.toInt

/-- Addition of times, which stops at the ends of the range. -/
def saturatingAdd (a b : Int) : Int := max timeMin (min timeMax (a + b))

end DataGrid
