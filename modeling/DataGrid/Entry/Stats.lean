import DataGrid.Counter

/-
The operation counters of a region copy. They wrap around, except that the
count of tombstones kept stops at zero when it is lowered.
-/

namespace DataGrid

structure Stats where
  puts : Nat := 0
  invalidates : Nat := 0
  destroys : Nat := 0
  tombstones : Nat := 0
  tombstoneGcs : Nat := 0
  evictions : Nat := 0
  retries : Nat := 0
  clears : Nat := 0
  conflicts : Nat := 0
deriving DecidableEq, Repr

namespace Stats

open Counter (wrappingAdd)

def countPut (s : Stats) : Stats := { s with puts := wrappingAdd s.puts 1 }
def countInvalidate (s : Stats) : Stats := { s with invalidates := wrappingAdd s.invalidates 1 }
def countDestroy (s : Stats) : Stats := { s with destroys := wrappingAdd s.destroys 1 }
def countTombstoneGc (s : Stats) : Stats :=
  { s with tombstoneGcs := wrappingAdd s.tombstoneGcs 1 }
def countEviction (s : Stats) : Stats := { s with evictions := wrappingAdd s.evictions 1 }
def countRetry (s : Stats) : Stats := { s with retries := wrappingAdd s.retries 1 }
def countClear (s : Stats) : Stats := { s with clears := wrappingAdd s.clears 1 }
def countConflict (s : Stats) : Stats := { s with conflicts := wrappingAdd s.conflicts 1 }

/-- More or fewer tombstones are kept. -/
def addTombstones (s : Stats) : Int → Stats
  | .ofNat n => { s with tombstones := wrappingAdd s.tombstones n }
  | .negSucc n => { s with tombstones := s.tombstones - (n + 1) }

end Stats
end DataGrid
