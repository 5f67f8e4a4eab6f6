import DataGrid.Entry.Operations

/-
Operations of a committed transaction. They are put, invalidate and destroy
without conditions: the event has its version already, and a key that is
absent is left as it is by an invalidate or a destroy.
-/

namespace DataGrid.Task

def tellTransaction (w : Task) : Task :=
  w.tell (.transactionApplied w.tokenNow w.event.operation)

def transactionPut (rules : Rules) (w : Task) : Checked (Applied × Task) :=
  match w.event.newValue with
  | none => .ok (.error (.invalidToken w.key .invalid), w)
  | some v =>
    let (o, w) := w.openOrCreate
    if w.isStale rules o.entry then .ok (w.refuseStale o)
    else do
      let w ← w.commitPut o.entry v
      let w := w.countReplaced o.entry.token
      return (w.tellTransaction.mapStats Stats.countPut).done true

def transactionInvalidate (rules : Rules) (w : Task) : Checked (Applied × Task) :=
  match w.entry? with
  | none => .ok (w.done false)
  | some e =>
    if e.token.isRemoved || e.token.isInvalid then .ok (w.done false)
    else if w.isStale rules e then .ok (w.refuseStale ⟨e, false⟩)
    else do
      let w ← w.commitInvalidate e
      return (w.tellTransaction.mapStats Stats.countInvalidate).done true

/-- In token mode an absent key gets a mark. -/
def transactionDestroy (rules : Rules) (now : Int) (inTokenMode : Bool) (w : Task) :
    Checked (Applied × Task) :=
  match w.open_ inTokenMode with
  | (none, w) => .ok (w.done false)
  | (some o, w) =>
    if o.entry.token.isRemoved && !o.created then .ok (w.done false)
    else if w.isStale rules o.entry then .ok (w.refuseStale o)
    else do
      let w := { w with event := { w.event with oldValue := o.entry.value? } }
      let w ← w.commitDestroy inTokenMode rules.concurrencyChecks now o.entry
      return (w.tellTransaction.mapStats Stats.countDestroy).done true

end DataGrid.Task
