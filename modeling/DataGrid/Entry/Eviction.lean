import DataGrid.Entry.Operations

/-
Keeping a copy within a number of present keys. The keys with a value whose
last change is longest ago are destroyed, as evictions, until the limit is met
or no key with a value is left.
-/

namespace DataGrid

structure Evictor where
  limit : Nat
  evictions : Nat := 0

namespace Evictor

def mustEvict (v : Evictor) (entries : Nat) : Bool := v.limit < entries

/-- A copy with its evictor, and what the region was told. -/
structure Evicting where
  evictor : Evictor
  copy : RegionCopy
  notices : List RegionNotice := []

/-- Evict until the limit is met: how many entries went. Each round takes one present key away, so
as many rounds as there are present keys are enough. -/
def evictRounds (rules : Rules) (now : Int) :
    Nat → Nat → Evicting → Checked (Except EntryError Nat × Evicting)
  | 0, evicted, s => .ok (.ok evicted, s)
  | rounds + 1, evicted, s =>
    if s.evictor.mustEvict s.copy.map.size then
      match s.copy.map.oldestKey? with
      | none => .ok (.ok evicted, s)
      | some k => do
        let (applied, w) ← Task.destroy rules now {} .eviction
          { copy := s.copy, event := .ofEviction k, notices := s.notices }
        let s := { s with copy := w.copy, notices := w.notices }
        match applied with
        | .error e => return (.error e, s)
        | .ok false => return (.ok evicted, s)
        | .ok true =>
          let evictor := { s.evictor with
            evictions := Counter.wrappingAdd s.evictor.evictions 1 }
          evictRounds rules now rounds (evicted + 1) { s with evictor := evictor }
    else .ok (.ok evicted, s)

def evict (rules : Rules) (now : Int) (s : Evicting) : Checked (Except EntryError Nat × Evicting) :=
  evictRounds rules now s.copy.map.size 0 s

/-- Put, and evict if the put was applied. -/
def put (rules : Rules) (now : Int) (options : PutOptions) (config : OperationConfig)
    (evictor : Evictor) (w : Task) : Checked (Applied × Evictor × Task) := do
  let (applied, w) ← w.put rules now options config
  match applied with
  | .ok true =>
    let (evicted, s) ← evict rules now { evictor, copy := w.copy, notices := w.notices }
    return (evicted.map fun _ => true, s.evictor, { w with copy := s.copy, notices := s.notices })
  | _ => return (applied, evictor, w)

end Evictor
end DataGrid
