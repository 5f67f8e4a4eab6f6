import DataGrid.Entry.Copy

/-
Put, invalidate and destroy on a region copy. Each looks its entry up, decides
from the entry and the event whether it applies, and only then changes
anything: an operation that is refused takes back the placeholder it made.

An operation answers whether it was applied. It is not applied when one of its
conditions does not hold or when a newer operation was applied before, and it
fails when it needs a present key and finds none.
-/

namespace DataGrid.Task

/-! ## Put -/

/-- A condition of the put does not hold, or the entry is protected from the initial image. -/
def putRefused (options : PutOptions) (config : OperationConfig) (e : Entry) : Bool :=
  (options.ifNew && !e.token.isRemoved)
    || (options.ifOld && e.token.isRemoved)
    || (options.expectedOldValue.isSome && e.value? != options.expectedOldValue)
    || (config.duringInitialImage && e.token == .destroyed)

/-- Give the entry its new value, and the event what it learns of the old one. -/
def commitPut (w : Task) (e : Entry) (v : Value) : Checked Task :=
  let event := { w.event with
    oldValue := e.value?
    operation := if e.token.isRemoved then .create else .update }
  ({ w with event := event }.write (.valid v)).recordVersion

/-- Put the new value of the event. -/
def put (rules : Rules) (now : Int) (options : PutOptions) (config : OperationConfig)
    (w : Task) : Checked (Applied × Task) :=
  match w.event.newValue with
  | none => .ok (.error (.invalidToken w.key .invalid), w)
  | some v =>
    let (o, w) := w.openOrCreate
    if putRefused options config o.entry then .ok (w.refuse o)
    else if w.isStale rules o.entry then .ok (w.refuseStale o)
    else do
      let w ← (← w.assignVersion rules now o.entry).commitPut o.entry v
      let w := w.countReplaced o.entry.token
      let w := w.tell (.putDone (some v) w.event.operation o.entry.token.isRemoved)
      return (w.mapStats Stats.countPut).done true

/-! ## Invalidate -/

/-- The token an invalidation leaves. -/
def invalidMark (e : EntryEvent) : Token :=
  if e.operation = .localInvalidate then .localInvalid else .invalid

def tellInvalidateCallbacks (w : Task) (config : OperationConfig) (wanted : Bool) : Task :=
  if wanted then w.tell (.invalidateCallbacks w.key config.invokeCallbacks) else w

/-- Take the value of the entry away and keep the key. -/
def commitInvalidate (w : Task) (e : Entry) : Checked Task :=
  ({ w with event := { w.event with oldValue := e.value? } }.write (invalidMark w.event)).recordVersion

/-- Invalidate the key. While the region is initialized the operation may leave an invalid mark
for an absent key, against an initial image that would bring the value back. -/
def invalidate (rules : Rules) (now : Int) (forceNewEntry forceCallbacks : Bool)
    (config : OperationConfig) (w : Task) : Checked (Applied × Task) :=
  let force := forceCallbacks || config.forceInvalidateEvent
  let create := forceNewEntry || !rules.initialized || config.duringInitialImage
  match w.open_ create with
  | (none, w) => .ok ((w.tellInvalidateCallbacks config force).missing rules)
  | (some o, w) =>
    if o.entry.token.isInvalid then
      .ok ((w.tellInvalidateCallbacks config (force && forceNewEntry)).done false)
    else if o.entry.token.isRemoved && !create then
      .ok ((w.tellInvalidateCallbacks config force).missing rules)
    else if w.isStale rules o.entry then .ok (w.refuseStale o)
    else do
      let w ← (← w.assignVersion rules now o.entry).commitInvalidate o.entry
      let w := w.countReplaced o.entry.token
      if o.entry.token.isRemoved && !forceNewEntry then
        return (.error (.notFound w.key), w.tellInvalidateCallbacks config force)
      else
        let w := w.tell (.invalidated w.key w.tokenNow w.event.oldValue config.invokeCallbacks)
        return (w.mapStats Stats.countInvalidate).done true

/-! ## Destroy -/

/-- Tell the region of a destroy, first with the entry in hand and then after it. -/
def finishDestroy (config : OperationConfig) (options : DestroyOptions) (w : Task) :
    Applied × Task :=
  let token := w.tokenNow
  let w := w.tell (.destroyed token w.event.oldValue config.inTokenMode
    options.duringRegistration config.invokeCallbacks)
  let w := w.tell (.destroyCompleted token config.inTokenMode options.duringRegistration
    config.invokeCallbacks options.expectedOldValue)
  (w.mapStats Stats.countDestroy).done true

/-- Destroy a key that is absent already. -/
def destroyRemoved (rules : Rules) (now : Int) (config : OperationConfig)
    (options : DestroyOptions) (w : Task) (o : Opened) : Checked (Applied × Task) :=
  if options.evict then .ok (w.done false)
  else if config.inTokenMode then
    .ok (((w.write .destroyed).countReplaced o.entry.token).finishDestroy config options)
  else if rules.concurrencyChecks && w.event.remote then
    if w.isStale rules o.entry then .ok (w.refuseStale o)
    else if w.event.hasValidVersion then do
      return (← w.bury now o.entry.token).finishDestroy config options
    else .ok (w.finishDestroy config options)
  else .ok (w.missing rules)

/-- Take a present key away: leave a mark during a bulk load, a tombstone for a versioned event,
and nothing otherwise. -/
def commitDestroy (inTokenMode buries : Bool) (now : Int) (e : Entry) (w : Task) : Checked Task :=
  if inTokenMode then .ok (w.write .destroyed)
  else if buries && w.event.hasValidVersion then w.bury now e.token
  else (w.mapCopy (·.detach w.key)).recordVersion

/-- Destroy a key that is present. -/
def destroyLive (rules : Rules) (now : Int) (config : OperationConfig)
    (options : DestroyOptions) (w : Task) (o : Opened) : Checked (Applied × Task) :=
  if options.expectedOldValue.isSome && o.entry.value? != options.expectedOldValue then
    .ok (w.done false)
  else if w.isStale rules o.entry then .ok (w.refuseStale o)
  else do
    let w ← w.assignVersion rules now o.entry
    let w := { w with event := { w.event with oldValue := o.entry.value? } }
    let w ← w.commitDestroy config.inTokenMode
      (rules.concurrencyChecks && !options.removeRecovered) now o.entry
    let w := if options.evict then w.mapStats Stats.countEviction else w
    return w.finishDestroy config options

/-- Destroy the key. -/
def destroy (rules : Rules) (now : Int) (config : OperationConfig) (options : DestroyOptions)
    (w : Task) : Checked (Applied × Task) :=
  let create := config.inTokenMode
    || (rules.concurrencyChecks && (w.event.remote || options.evict))
  match w.open_ create with
  | (none, w) => .ok (if options.evict then w.done false else w.missing rules)
  | (some o, w) =>
    if o.entry.token.isRemoved then w.destroyRemoved rules now config options o
    else w.destroyLive rules now config options o

end DataGrid.Task
