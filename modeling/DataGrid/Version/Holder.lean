import DataGrid.Counter
import DataGrid.Json.Record
import DataGrid.Json.Printer

/-
Which versions of one member have been received: the highest one, and the
gaps below it that are still missing. Versions may be recorded in any order.

`Gap.contains` and `Holder.contains` are the sets of versions that the two
stand for; recording adds one version to the set and `merge` takes the union.
Version 0 means "none yet" and belongs to every holder.
-/

namespace DataGrid

open Json

/-- The missing versions from `low` to `high`, both included. -/
structure Gap where
  low : Nat
  high : Nat
deriving DecidableEq, Repr

namespace Gap

def contains (g : Gap) (v : Nat) : Bool := g.low ≤ v && v ≤ g.high

def isEmpty (g : Gap) : Bool := g.high < g.low

/-- How many versions are missing. -/
def size (g : Gap) : Checked Nat := do
  Counter.add (← Counter.sub g.high g.low) 1

/-- The versions missing from both of two ascending lists of gaps, gaps that touch made one.
`out` holds the gaps found so far, the last one first. The list whose head ends first moves on. -/
def intersectInto (out : List Gap) : List Gap → List Gap → Checked (List Gap)
  | a :: as, b :: bs => do
    let low := max a.low b.low
    let high := min a.high b.high
    let out ← if high < low then .ok out else
      match out with
      | [] => .ok [⟨low, high⟩]
      | last :: older => do
        let next ← Counter.add last.high 1
        .ok (if next = low then ⟨last.low, high⟩ :: older else ⟨low, high⟩ :: last :: older)
    if a.high < b.high then intersectInto out as (b :: bs) else intersectInto out (a :: as) bs
  | _, _ => .ok out
termination_by as bs => as.length + bs.length

def intersect (as bs : List Gap) : Checked (List Gap) :=
  (intersectInto [] as bs).map List.reverse

def toJson (g : Gap) : Json := .object [("from", .nat g.low), ("to", .nat g.high)]

def ofJson? : Read Gap := fun j => do
  match ← fieldsNamed ["from", "to"] j with
  | [low, high] => return ⟨← low.required (asNat 64), ← high.required (asNat 64)⟩
  | _ => none

end Gap

structure Holder where
  version : Nat := 0
  gaps : List Gap := []
deriving DecidableEq, Repr

namespace Holder

/-- All versions up to `v` have been received. -/
def upTo (v : Nat) : Holder := { version := v }

def hasGaps (h : Holder) : Bool := !h.gaps.isEmpty

def contains (h : Holder) (v : Nat) : Bool :=
  v == 0 || (v ≤ h.version && !h.gaps.any (·.contains v))

/-- What a version that has now arrived leaves of the gap it was missing from. -/
def splitGap (v : Nat) (g : Gap) : Checked (List Gap) := do
  let below ← Counter.sub v 1
  let above ← Counter.add v 1
  return [⟨g.low, below⟩, ⟨above, g.high⟩].filter (!·.isEmpty)

/-- Take a version out of the first gap that has it. -/
def fillGap (v : Nat) : List Gap → Checked (List Gap)
  | [] => .ok []
  | g :: r =>
    if g.contains v then do return (← splitGap v g) ++ r
    else do return g :: (← fillGap v r)

/-- Record a version: whether it was new, and the holder that has it. -/
def record (h : Holder) (v : Nat) : Checked (Bool × Holder) :=
  if h.contains v then .ok (false, h)
  else if h.version < v then do
    let next ← Counter.add h.version 1
    if next < v then
      let last ← Counter.sub v 1
      return (true, { version := v, gaps := h.gaps ++ [⟨next, last⟩] })
    else return (true, { h with version := v })
  else do
    return (true, { h with gaps := ← fillGap v h.gaps })

/-- The missing versions from 1 to `limit`. -/
def missingUpTo (h : Holder) (limit : Nat) : Checked (List Gap) := do
  let missing := (h.gaps.filter (·.low ≤ limit)).map fun g => ⟨g.low, min g.high limit⟩
  if h.version < limit then
    return missing ++ [⟨← Counter.add h.version 1, limit⟩]
  else return missing

/-- A holder of the versions received by one or the other. -/
def merge (h other : Holder) : Checked Holder := do
  let limit := max h.version other.version
  let mine ← h.missingUpTo limit
  let theirs ← other.missingUpTo limit
  return { version := limit, gaps := ← Gap.intersect mine theirs }

/-- Whether everything that `other` has received was received here. -/
def dominates (h other : Holder) : Checked Bool := do
  let mine ← h.missingUpTo other.version
  let theirs ← other.missingUpTo other.version
  return (← Gap.intersect mine theirs) == mine

def toJson (h : Holder) : Json := .object [
  ("version", .nat h.version),
  ("exceptions", .list Gap.toJson h.gaps)]

def ofJson? : Read Holder := fun j => do
  match ← fieldsNamed ["version", "exceptions"] j with
  | [version, gaps] =>
    return {
      version := ← version.required (asNat 64)
      gaps := ← gaps.required (asList Gap.ofJson?) }
  | _ => none

def parse (s : String) : Option Holder := (Json.parse s).bind ofJson?

end Holder
end DataGrid
