import DataGrid.Entry.Transaction
import DataGrid.Proofs.Entry.Operations

/-
What an operation on an entry can come to, whatever its conditions, its flags
and the mode of the region (`EntryCall.Outcome`). It is applied, and turns the
slot it met in one of four ways; or it is refused, and then everything is as it
was. Two operations leave something though they are not applied: an
invalidation that comes while the initial image does, its mark, and an eviction
of an absent key the placeholder it made.

An operation that writes its key has first compared its tag with what it met,
and records the tag when it has written (`EntryCall.Passed`). The destroys of
token mode keep to this only in part: none of them records its tag, and one of
an absent key compares nothing.
-/

namespace DataGrid

theorem EntryEvent.hasValidVersion_iff (e : EntryEvent) :
    e.hasValidVersion = true ↔ ∃ t, e.tag = some t ∧ t.isValid = true := by
  unfold hasValidVersion
  cases e.tag <;> simp

/-- Nothing is recorded of an event without a valid version. -/
theorem Rules.recorded_unversioned {e : EntryEvent} (h : e.hasValidVersion = false)
    (vector : Option VersionVector) : recorded e.tag vector = .ok vector := by
  unfold EntryEvent.hasValidVersion at h
  split at h
  next t ht =>
    have hzero : t.regionVersion = 0 := by
      simp only [VersionTag.isValid, Bool.or_eq_false_iff, bne_eq_false_iff_eq] at h
      exact h.2
    cases vector <;> simp [recorded, ht, hzero]
  next ht => cases vector <;> simp [recorded, ht]

namespace Task

variable {w u w' : Task} {rules : Rules} {now : Int}

/-- The slot of the key, the queue of tombstones and the vector are given, and other keys are as they
were. -/
structure Leaves (w w' : Task) (s : Option Slot) (queue : List TombstoneRecord)
    (vector : Option VersionVector) : Prop extends w.Left w' s vector where
  queue : w'.copy.map.queue = queue

/-- Nothing that can be seen of the copy differs, nor does the queue. -/
structure Untouched (w w' : Task) : Prop extends w.Unchanged w' where
  queue : w'.copy.map.queue = w.copy.map.queue

theorem Leaves.congr {s : Option Slot} {queue : List TombstoneRecord}
    {vector : Option VersionVector} (h : w.Leaves u s queue vector)
    (hmap : w'.copy.map = u.copy.map) (hvector : w'.copy.vector = u.copy.vector) :
    w.Leaves w' s queue vector :=
  ⟨h.toLeft.finishDestroy hmap hvector, by rw [hmap, h.queue]⟩

theorem Leaves.countReplaced {s : Option Slot} {queue : List TombstoneRecord}
    {vector : Option VersionVector} (h : w.Leaves u s queue vector) (old : Token) :
    w.Leaves (u.countReplaced old) s queue vector := h.congr rfl rfl

theorem Untouched.refl (w : Task) : w.Untouched w := ⟨.refl w, rfl⟩

theorem Untouched.congr (h : w.Untouched u) (hmap : w'.copy.map = u.copy.map)
    (hvector : w'.copy.vector = u.copy.vector) : w.Untouched w' := by
  refine ⟨⟨fun k => ?_, hvector.trans h.vector⟩, by rw [hmap, h.queue]⟩
  rw [← h.slot k]
  simp only [RegionCopy.slot?, hmap]

theorem copy_tellInvalidateCallbacks (w : Task) (config : OperationConfig) (wanted : Bool) :
    (w.tellInvalidateCallbacks config wanted).copy = w.copy := by
  unfold tellInvalidateCallbacks
  split <;> rfl

theorem event_tellInvalidateCallbacks (w : Task) (config : OperationConfig) (wanted : Bool) :
    (w.tellInvalidateCallbacks config wanted).event = w.event := by
  unfold tellInvalidateCallbacks
  split <;> rfl

theorem Leaves.tellInvalidateCallbacks {s : Option Slot} {queue : List TombstoneRecord}
    {vector : Option VersionVector} (h : w.Leaves u s queue vector) (config : OperationConfig)
    (wanted : Bool) : w.Leaves (u.tellInvalidateCallbacks config wanted) s queue vector :=
  h.congr (by rw [copy_tellInvalidateCallbacks]) (by rw [copy_tellInvalidateCallbacks])

theorem Untouched.tellInvalidateCallbacks (h : w.Untouched u) (config : OperationConfig)
    (wanted : Bool) : w.Untouched (u.tellInvalidateCallbacks config wanted) :=
  h.congr (by rw [copy_tellInvalidateCallbacks]) (by rw [copy_tellInvalidateCallbacks])

theorem Untouched.missing (h : w.Untouched u) (rules : Rules) :
    (u.missing rules).1 ≠ .ok true ∧ w.Untouched (u.missing rules).2 := by
  rw [missing_eq]
  exact ⟨missingAnswer_ne rules u.key, h.congr rfl rfl⟩

/-! ## An operation at work -/

/-- The slot met is in hand. No other slot has changed and the queue has not, but the event may have
got its version, and the vector with it. -/
structure Holding (w u : Task) : Prop where
  key : u.key = w.key
  slot : ∀ k, u.copy.slot? k = if k = w.key then some w.met else w.copy.slot? k
  queue : u.copy.map.queue = w.copy.map.queue

theorem Holding.met (h : w.Holding u) : u.met = w.met :=
  met_of_some (by rw [h.key, h.slot, if_pos rfl])

theorem Holding.leaves {s : Option Slot} {queue : List TombstoneRecord}
    {vector : Option VersionVector} (h : w.Holding u) (hl : u.Leaves w' s queue vector) :
    w.Leaves w' s queue vector := by
  refine ⟨⟨fun k => ?_, hl.vector⟩, hl.queue⟩
  rw [hl.slot, h.key]
  split
  · rfl
  next hk => rw [h.slot, if_neg hk]

theorem Holding.write (h : w.Holding u) (t : Token) :
    w.Leaves (u.write t) (some ⟨t, w.met.stamp.after u.event.tag⟩) w.copy.map.queue
      u.copy.vector := by
  have hleft := write_left u t
  rw [h.met] at hleft
  exact h.leaves ⟨hleft, h.queue⟩

theorem recordVersion_ok (hok : u.recordVersion = .ok w') :
    ∃ vector, Rules.recorded u.event.tag u.copy.vector = .ok vector ∧
      w' = { u with copy := { u.copy with vector := vector } } := by
  obtain ⟨c, hrec, hw⟩ := bind_ok hok
  cases hw
  rw [RegionCopy.recordTag_eq] at hrec
  cases hv : Rules.recorded u.event.tag u.copy.vector with
  | error e =>
    rw [hv] at hrec
    cases hrec
  | ok vector =>
    rw [hv] at hrec
    cases hrec
    exact ⟨vector, rfl, rfl⟩

/-- The tag that was written is recorded. -/
theorem Leaves.recordVersion {s : Option Slot} {queue : List TombstoneRecord}
    {vector : Option VersionVector} (h : w.Leaves u s queue vector)
    (hok : u.recordVersion = .ok w') :
    ∃ vector', Rules.recorded u.event.tag vector = .ok vector' ∧ w'.event = u.event ∧
      w.Leaves w' s queue vector' := by
  obtain ⟨vector', hrec, rfl⟩ := recordVersion_ok hok
  rw [h.vector] at hrec
  exact ⟨vector', hrec, rfl, ⟨h.slot, rfl⟩, h.queue⟩

/-- A version may be given to the event, and the slot stays in hand. -/
theorem Holding.assignVersion (h : w.Holding u) {e : Entry}
    (hok : u.assignVersion rules now e = .ok w') :
    w.Holding w' ∧ w'.event = { u.event with tag := w'.event.tag } ∧
      ∀ vector, Rules.recorded w'.event.tag w'.copy.vector = .ok vector →
        rules.version u.event u.copy.vector e.stamp now = .ok (w'.event.tag, vector) := by
  unfold Task.assignVersion at hok
  unfold Rules.version
  split at hok
  next hb =>
    obtain ⟨⟨tag, vector⟩, hassign, hok⟩ := bind_ok hok
    cases hok
    refine ⟨⟨h.key, h.slot, h.queue⟩, rfl, fun vector' hrec => ?_⟩
    simp only [tell] at hassign
    simp only [hb, if_true, hassign, hrec, bind, Except.bind, pure, Except.pure]
  next hb =>
    cases hok
    refine ⟨h, rfl, fun vector' hrec => ?_⟩
    simp only [hb, Bool.false_eq_true, if_false, hrec, bind, Except.bind, pure, Except.pure]

theorem Holding.withEvent (h : w.Holding u) {e : EntryEvent} (he : e.key = u.event.key) :
    w.Holding { u with event := e } :=
  ⟨Eq.trans he h.key, h.slot, h.queue⟩

/-- The key was opened with the slot that is met; an entry is made only where there is none. -/
structure Opens (w : Task) (create : Bool) (o : Opened) (u : Task) : Prop where
  hand : w.Holding u
  entry : o.entry.slot = w.met
  created : o.created = (w.copy.slot? w.key).isNone
  made : o.created = true → create = true
  event : u.event = w.event
  vector : u.copy.vector = w.copy.vector

variable {o : Opened} {create : Bool}

theorem opens_existing {e : Entry} (hs : w.copy.slot? w.key = some e.slot) (create : Bool) :
    w.Opens create ⟨e, false⟩ w where
  hand := ⟨rfl, by rw [met_of_some hs]; exact (left_self hs).slot, rfl⟩
  entry := (met_of_some hs).symm
  created := by rw [hs]; rfl
  made := nofun
  event := rfl
  vector := rfl

theorem opens_openOrCreate (ha : w.copy.Attached) :
    ∃ o u, w.openOrCreate = (o, u) ∧ w.Opens true o u := by
  obtain ⟨o, u, ho, hmet, hcreated, hevent, hleft⟩ := openOrCreate_eq ha
  have hqueue : w.openOrCreate.2.copy.map.queue = w.copy.map.queue := by
    simp only [openOrCreate, mapCopy, RegionCopy.dropDetached_eq ha]
    cases w.entry? <;> rfl
  rw [ho] at hqueue
  exact ⟨o, u, ho, ⟨congrArg EntryEvent.key hevent, hleft.slot, hqueue⟩, hmet, hcreated,
    fun _ => rfl, hevent, hleft.vector⟩

/-- An operation that makes no entries finds none for an absent key. -/
theorem open_cases (ha : w.copy.Attached) (create : Bool) :
    (∃ o u, w.open_ create = (some o, u) ∧ w.Opens create o u) ∨
      (w.open_ create = (none, w) ∧ create = false ∧ w.copy.slot? w.key = none) := by
  cases create with
  | true =>
    obtain ⟨o, u, ho, hopens⟩ := opens_openOrCreate ha
    exact .inl ⟨o, u, by rw [open_eq, ho]; rfl, hopens⟩
  | false =>
    cases hs : w.copy.slot? w.key with
    | none => exact .inr ⟨openExisting_absent ha hs, rfl, rfl⟩
    | some s =>
      obtain ⟨e, ho, rfl⟩ := openExisting_present ha hs
      exact .inl ⟨_, w, ho, opens_existing hs false⟩

theorem Opens.token (h : w.Opens create o u) : o.entry.token = w.met.token :=
  congrArg Slot.token h.entry

theorem Opens.isStale (h : w.Opens create o u) (rules : Rules) :
    u.isStale rules o.entry = rules.stale w.event.tag w.copy.vector w.met := by
  rw [isStale_eq, h.event, h.vector, h.entry]

/-- How an operation comes by its tag, and the vector as it is then. The event has the tag, or is
given one. -/
inductive Tagged (rules : Rules) (now : Int) (w : Task) :
    Option VersionTag → Option VersionVector → Prop
  | own : Tagged rules now w w.event.tag w.copy.vector
  | given {tag : Option VersionTag} {vector : Option VersionVector} (hnone : w.event.tag = none)
      (h : rules.assignTag w.copy.vector w.met.stamp now = .ok (tag, vector)) :
      Tagged rules now w tag vector

theorem Opens.assignVersion (h : w.Opens create o u)
    (hok : u.assignVersion rules now o.entry = .ok w') :
    w.Tagged rules now w'.event.tag w'.copy.vector := by
  unfold Task.assignVersion at hok
  split at hok
  next hlocal =>
    obtain ⟨⟨tag, vector⟩, hassign, hok⟩ := bind_ok hok
    cases hok
    rw [h.event, Bool.and_eq_true, Option.isNone_iff_eq_none] at hlocal
    refine .given hlocal.2 ?_
    rw [← h.entry, ← h.vector]
    exact hassign
  next =>
    cases hok
    rw [h.event, h.vector]
    exact .own

theorem Opens.tagged (h : w.Opens create o u) :
    w.Tagged rules now u.event.tag u.copy.vector := by
  rw [h.event, h.vector]
  exact .own

/-- The entry was there, so opening it has changed nothing. -/
theorem Opens.untouched (h : w.Opens create o u) (hs : o.created = false) : w.Untouched u := by
  refine ⟨⟨fun k => ?_, h.vector⟩, h.hand.queue⟩
  rw [h.created] at hs
  obtain ⟨s, hs⟩ := Option.isSome_iff_exists.1 (by rw [← Option.not_isNone, hs, Bool.not_false])
  rw [h.hand.slot]
  split
  next hk => rw [hk, hs, met_of_some hs]
  next => rfl

theorem Opens.refuse (h : w.Opens create o u) :
    (u.refuse o).1 = .ok false ∧ w.Untouched (u.refuse o).2 := by
  obtain ⟨hanswer, hunchanged⟩ := Unchanged.refuse h.hand.key h.created ⟨h.hand.slot, h.vector⟩
  refine ⟨hanswer, hunchanged, ?_⟩
  rw [← h.hand.queue]
  unfold Task.refuse
  split <;> rfl

theorem Opens.refuseStale (h : w.Opens create o u) :
    (u.refuseStale o).1 = .ok false ∧ w.Untouched (u.refuseStale o).2 :=
  Opens.refuse (u := u.mapStats Stats.countConflict)
    ⟨⟨h.hand.key, h.hand.slot, h.hand.queue⟩, h.entry, h.created, h.made, h.event, h.vector⟩

/-- What an operation that is applied makes of the slot it meets, and of the queue. -/
inductive Turned (w : Task) (now : Int) (tag : Option VersionTag) :
    Option Slot → List TombstoneRecord → Prop
  | written {t : Token} (ht : t.isLive = true ∨ t = .destroyed) :
      Turned w now tag (some ⟨t, w.met.stamp.after tag⟩) w.copy.map.queue
  | buried {t : VersionTag} (htag : tag = some t) (hvalid : t.isValid = true) :
      Turned w now tag (some ⟨.tombstone, .ofTag t⟩)
        (w.copy.map.queue ++ [{ key := w.key, stamp := .ofTag t, createdAt := now }])
  | removed : Turned w now tag none w.copy.map.queue
  | kept : Turned w now tag (some w.met) w.copy.map.queue

theorem Holding.bury (h : w.Holding u) {old : Token} {t : VersionTag}
    (htag : u.event.tag = some t) (hvalid : t.isValid = true) (hok : u.bury now old = .ok w') :
    ∃ vector, Rules.recorded u.event.tag u.copy.vector = .ok vector ∧ w'.event = u.event ∧
      w.Leaves w' (some ⟨.tombstone, .ofTag t⟩)
        (w.copy.map.queue ++ [{ key := w.key, stamp := .ofTag t, createdAt := now }]) vector := by
  obtain ⟨u', hrec, hok⟩ := bind_ok hok
  obtain ⟨vector, hrecorded, hevent, hl⟩ := (h.write .tombstone).recordVersion hrec
  rw [htag, VersionStamp.after_some hvalid] at hl
  have hkey : u'.key = w.key := (congrArg EntryEvent.key hevent).trans h.key
  obtain ⟨e, he, hes⟩ := entry?_eq_some (w := u') (by rw [hkey, hl.slot, if_pos rfl])
  have hstamp : (u'.entry?.map Entry.stamp).getD {} = .ofTag t := by
    rw [he]
    exact congrArg Slot.stamp hes
  have hqueue : u'.copy.map.queue ++ [
        { key := u'.key, stamp := (u'.entry?.map Entry.stamp).getD {}, createdAt := now }] =
      w.copy.map.queue ++ [{ key := w.key, stamp := .ofTag t, createdAt := now }] := by
    rw [hl.queue, hkey, hstamp]
  cases hok
  exact ⟨vector, hrecorded, hevent, ⟨hl.slot, hl.vector⟩, hqueue⟩

theorem Holding.detach (h : w.Holding u) :
    w.Leaves (u.mapCopy (·.detach u.key)) none w.copy.map.queue u.copy.vector := by
  refine ⟨⟨fun k => ?_, rfl⟩, h.queue⟩
  refine (RegionCopy.slot?_detach u.copy u.key k).trans ?_
  rw [h.key]
  split
  · rfl
  next hk => rw [h.slot, if_neg hk]

theorem Holding.commitPut (h : w.Holding u) {e : Entry} {v : Value}
    (hok : u.commitPut e v = .ok w') :
    w'.event.tag = u.event.tag ∧
      ∃ vector, Rules.recorded w'.event.tag u.copy.vector = .ok vector ∧
        w.Leaves w' (some ⟨.valid v, w.met.stamp.after w'.event.tag⟩) w.copy.map.queue vector := by
  have hhand : w.Holding { u with event := { u.event with
      oldValue := e.value?
      operation := if e.token.isRemoved then .create else .update } } := h.withEvent rfl
  obtain ⟨vector, hrec, hevent, hl⟩ := (hhand.write (.valid v)).recordVersion hok
  rw [hevent]
  exact ⟨rfl, vector, hrec, hl⟩

theorem Holding.commitInvalidate (h : w.Holding u) {e : Entry}
    (hok : u.commitInvalidate e = .ok w') :
    w'.key = w.key ∧ w'.event.tag = u.event.tag ∧
      ∃ vector, Rules.recorded w'.event.tag u.copy.vector = .ok vector ∧
        w.Leaves w' (some ⟨invalidMark u.event, w.met.stamp.after w'.event.tag⟩)
          w.copy.map.queue vector := by
  have hhand : w.Holding { u with event := { u.event with oldValue := e.value? } } :=
    h.withEvent rfl
  obtain ⟨vector, hrec, hevent, hl⟩ := (hhand.write (invalidMark u.event)).recordVersion hok
  rw [hevent]
  exact ⟨(congrArg EntryEvent.key hevent).trans h.key, rfl, vector, hrec, hl⟩

/-- The tag is recorded, except in token mode. -/
theorem Holding.commitDestroy (h : w.Holding u) {inTokenMode buries : Bool} {e : Entry}
    (hok : u.commitDestroy inTokenMode buries now e = .ok w') :
    ∃ s queue vector, w'.event = u.event ∧ w.Turned now u.event.tag s queue ∧
      w.Leaves w' s queue vector ∧ (Rules.recorded u.event.tag u.copy.vector = .ok vector ∨
        inTokenMode = true ∧ vector = u.copy.vector) := by
  unfold Task.commitDestroy at hok
  split at hok
  next hmode =>
    cases hok
    exact ⟨_, _, _, rfl, .written (.inr rfl), h.write .destroyed, .inr ⟨hmode, rfl⟩⟩
  split at hok
  next hvalid =>
    rw [Bool.and_eq_true] at hvalid
    obtain ⟨t, htag, ht⟩ := u.event.hasValidVersion_iff.1 hvalid.2
    obtain ⟨vector, hrec, hevent, hl⟩ := h.bury htag ht hok
    exact ⟨_, _, vector, hevent, .buried htag ht, hl, .inl hrec⟩
  next =>
    obtain ⟨vector, hrec, hevent, hl⟩ := h.detach.recordVersion hok
    exact ⟨_, _, vector, hevent, .removed, hl, .inl hrec⟩

end Task

/-! ## Operations and what they come to -/

/-- An operation on an entry, with what its caller sets. -/
inductive EntryCall
  | put (options : PutOptions) (config : OperationConfig)
  | invalidate (forceNewEntry forceCallbacks : Bool) (config : OperationConfig)
  | destroy (config : OperationConfig) (options : DestroyOptions)
  | transactionPut
  | transactionInvalidate
  | transactionDestroy (inTokenMode : Bool)

namespace EntryCall

def run (rules : Rules) (now : Int) (w : Task) : EntryCall → Checked (Applied × Task)
  | put options config => w.put rules now options config
  | invalidate forceNewEntry forceCallbacks config =>
    w.invalidate rules now forceNewEntry forceCallbacks config
  | destroy config options => w.destroy rules now config options
  | transactionPut => w.transactionPut rules
  | transactionInvalidate => w.transactionInvalidate rules
  | transactionDestroy inTokenMode => w.transactionDestroy rules now inTokenMode

/-- An invalidation of an absent key that comes while the initial image does, and is not told to
make an entry. -/
def Marks (rules : Rules) (w : Task) : EntryCall → Prop
  | invalidate forceNewEntry _ config =>
    forceNewEntry = false ∧ (rules.initialized = false ∨ config.duringInitialImage = true) ∧
      w.met.token.isRemoved = true
  | _ => False

/-- An eviction that makes an entry for an absent key. -/
def Parks (rules : Rules) (w : Task) : EntryCall → Prop
  | destroy config options =>
    options.evict = true ∧ (config.inTokenMode = true ∨ rules.concurrencyChecks = true) ∧
      w.copy.slot? w.key = none
  | _ => False

def inTokenMode : EntryCall → Bool
  | destroy config _ => config.inTokenMode
  | transactionDestroy inTokenMode => inTokenMode
  | _ => false

/-- A destroy of an absent key in token mode, which compares its tag with nothing. -/
def Unchecked (w : Task) : EntryCall → Prop
  | destroy config options =>
    config.inTokenMode = true ∧ options.evict = false ∧ w.met.token.isRemoved = true
  | _ => False

/-- How an operation that takes effect deals with its tag. It goes by one that is not stale, and
leaves it recorded. -/
structure Passed (op : EntryCall) (rules : Rules) (now : Int) (w : Task)
    (tag : Option VersionTag) (vector : Option VersionVector) : Prop where
  fresh : op.Unchecked w ∨ rules.stale w.event.tag w.copy.vector w.met = false
  recorded : ∃ v, w.Tagged rules now tag v ∧
    (Rules.recorded tag v = .ok vector ∨ op.inTokenMode = true ∧ vector = v)

/-- What can come of an operation, by its answer. The event has the tag by which it went. -/
inductive Outcome (op : EntryCall) (rules : Rules) (now : Int) (w : Task) : Applied → Task → Prop
  | refused {r : Applied} {w' : Task} (hr : r ≠ .ok true)
      (hmarks : op.Marks rules w → r = .ok false) (hparks : ¬ op.Parks rules w)
      (h : w.Untouched w') : Outcome op rules now w r w'
  | marked {w' : Task} {vector : Option VersionVector} (hmarks : op.Marks rules w)
      (hver : rules.version w.event w.copy.vector w.met.stamp now = .ok (w'.event.tag, vector))
      (h : w.Leaves w' (some ⟨Task.invalidMark w.event, w.met.stamp.after w'.event.tag⟩)
        w.copy.map.queue vector) (hpassed : op.Passed rules now w w'.event.tag vector) :
      Outcome op rules now w (.error (.notFound w.key)) w'
  | parked {w' : Task} (hparks : op.Parks rules w)
      (h : w.Leaves w' (some ⟨.placeholder, {}⟩) w.copy.map.queue w.copy.vector) :
      Outcome op rules now w (.ok false) w'
  | applied {w' : Task} {s : Option Slot} {queue : List TombstoneRecord}
      {vector : Option VersionVector} (hturned : w.Turned now w'.event.tag s queue)
      (h : w.Leaves w' s queue vector) (hpassed : op.Passed rules now w w'.event.tag vector) :
      Outcome op rules now w (.ok true) w'

variable {rules : Rules} {now : Int} {w w' : Task} {r : Applied}

/-- An answer that was there without a version. -/
theorem Outcome.of_answer {op : EntryCall} {p : Applied × Task}
    (h : Outcome op rules now w p.1 p.2) (hok : (.ok p : Checked (Applied × Task)) = .ok (r, w')) :
    Outcome op rules now w r w' := by
  cases hok
  exact h

theorem put_outcome (ha : w.copy.Attached) {options : PutOptions} {config : OperationConfig}
    (hok : w.put rules now options config = .ok (r, w')) :
    Outcome (.put options config) rules now w r w' := by
  unfold Task.put at hok
  split at hok
  next =>
    cases hok
    exact .refused (by simp) nofun nofun (.refl w)
  next v _ =>
    obtain ⟨o, u, ho, hopens⟩ := Task.opens_openOrCreate ha
    simp only [ho] at hok
    split at hok
    · cases hok
      exact .refused (by simp) nofun nofun hopens.refuse.2
    split at hok
    · cases hok
      exact .refused (by simp) nofun nofun hopens.refuseStale.2
    next hfresh =>
      rw [hopens.isStale, Bool.not_eq_true] at hfresh
      obtain ⟨u₂, hassign, hok⟩ := bind_ok hok
      obtain ⟨u₃, hcommit, hok⟩ := bind_ok hok
      obtain ⟨hhand, -, -⟩ := hopens.hand.assignVersion hassign
      obtain ⟨htag, vector, hrec, hl⟩ := hhand.commitPut hcommit
      have htagged := hopens.assignVersion hassign
      rw [← htag] at htagged
      cases hok
      exact .applied (.written (.inl rfl)) (hl.congr rfl rfl)
        ⟨.inr hfresh, _, htagged, .inl hrec⟩

theorem transactionPut_outcome (ha : w.copy.Attached)
    (hok : w.transactionPut rules = .ok (r, w')) :
    Outcome .transactionPut rules now w r w' := by
  unfold Task.transactionPut at hok
  split at hok
  next =>
    cases hok
    exact .refused (by simp) nofun nofun (.refl w)
  next v _ =>
    obtain ⟨o, u, ho, hopens⟩ := Task.opens_openOrCreate ha
    simp only [ho] at hok
    split at hok
    · cases hok
      exact .refused (by simp) nofun nofun hopens.refuseStale.2
    next hfresh =>
      rw [hopens.isStale, Bool.not_eq_true] at hfresh
      obtain ⟨u₃, hcommit, hok⟩ := bind_ok hok
      obtain ⟨htag, vector, hrec, hl⟩ := hopens.hand.commitPut hcommit
      have htagged : w.Tagged rules now u.event.tag u.copy.vector := hopens.tagged
      rw [← htag] at htagged
      cases hok
      exact .applied (.written (.inl rfl)) (hl.congr rfl rfl)
        ⟨.inr hfresh, _, htagged, .inl hrec⟩

theorem isLive_invalidMark (e : EntryEvent) : (Task.invalidMark e).isLive = true := by
  unfold Task.invalidMark
  split <;> rfl

theorem invalidate_outcome (ha : w.copy.Attached) {forceNewEntry forceCallbacks : Bool}
    {config : OperationConfig}
    (hok : w.invalidate rules now forceNewEntry forceCallbacks config = .ok (r, w')) :
    Outcome (.invalidate forceNewEntry forceCallbacks config) rules now w r w' := by
  -- where the operation would have made an entry it leaves its mark
  have hmarks : (forceNewEntry || !rules.initialized || config.duringInitialImage) = false →
      ¬ Marks rules w (.invalidate forceNewEntry forceCallbacks config) := by
    rintro hcreate ⟨-, hinit, -⟩
    simp only [Bool.or_eq_false_iff, Bool.not_eq_false'] at hcreate
    rcases hinit with hinit | himage
    · exact absurd hcreate.1.2 (by simp [hinit])
    · exact absurd hcreate.2 (by simp [himage])
  unfold Task.invalidate at hok
  simp only at hok
  rcases Task.open_cases ha (forceNewEntry || !rules.initialized || config.duringInitialImage) with
    ⟨o, u, ho, hopens⟩ | ⟨ho, hcreate, -⟩
  · simp only [ho, hopens.token] at hok
    split at hok
    next hinv =>
      have hnew : o.created = false := by
        rw [hopens.created, Option.isNone_eq_false_iff, Option.isSome_iff_ne_none]
        intro hs
        rw [Task.met_of_none hs] at hinv
        cases hinv
      cases hok
      exact .refused (by simp) (fun _ => rfl) nofun
        ((hopens.untouched hnew).tellInvalidateCallbacks config _)
    split at hok
    next hrem =>
      rw [Bool.and_eq_true, Bool.not_eq_true'] at hrem
      have hnew : o.created = false := by
        rw [Bool.eq_false_iff]
        exact fun hc => absurd (hopens.made hc) (by simp [hrem.2])
      obtain ⟨hanswer, huntouched⟩ :=
        ((hopens.untouched hnew).tellInvalidateCallbacks config _).missing rules
      exact .of_answer (.refused hanswer (fun h => absurd h (hmarks hrem.2)) nofun huntouched) hok
    next hcreate =>
    split at hok
    · cases hok
      exact .refused (by simp) (fun _ => rfl) nofun hopens.refuseStale.2
    next hfresh =>
      rw [hopens.isStale, Bool.not_eq_true] at hfresh
      obtain ⟨u₂, hassign, hok⟩ := bind_ok hok
      obtain ⟨u₃, hcommit, hok⟩ := bind_ok hok
      obtain ⟨hhand, hevent, hver⟩ := hopens.hand.assignVersion hassign
      obtain ⟨hkey, htag, vector, hrec, hl⟩ := hhand.commitInvalidate hcommit
      have htagged := hopens.assignVersion hassign
      rw [← htag] at htagged
      have hpassed : Passed (.invalidate forceNewEntry forceCallbacks config) rules now w
          u₃.event.tag vector := ⟨.inr hfresh, _, htagged, .inl hrec⟩
      split at hok
      next hrem =>
        rw [Bool.and_eq_true, Bool.not_eq_true'] at hrem
        have hinit : rules.initialized = false ∨ config.duringInitialImage = true := by
          cases hi : rules.initialized with
          | false => exact .inl rfl
          | true => exact .inr (by simpa [hrem.1, hrem.2, hi] using hcreate)
        have hmark : Task.invalidMark u₂.event = Task.invalidMark w.event := by
          rw [hevent, hopens.event]
          rfl
        have hstamp : o.entry.stamp = w.met.stamp := congrArg Slot.stamp hopens.entry
        have hver := hver vector (htag ▸ hrec)
        rw [hopens.event, hopens.vector, hstamp, ← htag] at hver
        have htold : ((u₃.countReplaced w.met.token).tellInvalidateCallbacks config
            (forceCallbacks || config.forceInvalidateEvent)).event = u₃.event :=
          Task.event_tellInvalidateCallbacks _ _ _
        rw [← htold] at hver hpassed
        rw [hmark, ← htold] at hl
        have hcounted := hl.countReplaced w.met.token
        have hkey : (u₃.countReplaced w.met.token).key = w.key := hkey
        cases hok
        rw [hkey]
        exact .marked ⟨hrem.2, hinit, hrem.1⟩ hver (hcounted.tellInvalidateCallbacks config _)
          hpassed
      next =>
        cases hok
        exact .applied (.written (.inl (isLive_invalidMark _))) (hl.congr rfl rfl) hpassed
  · rw [ho] at hok
    obtain ⟨hanswer, huntouched⟩ :=
      ((Task.Untouched.refl w).tellInvalidateCallbacks config _).missing rules
    exact .of_answer (.refused hanswer (fun h => absurd h (hmarks hcreate)) nofun huntouched) hok

theorem Outcome.finishDestroy {op : EntryCall} {u : Task} {s : Option Slot}
    {queue : List TombstoneRecord} {vector : Option VersionVector} {config : OperationConfig}
    {options : DestroyOptions} (hturned : w.Turned now u.event.tag s queue)
    (h : w.Leaves u s queue vector) (hpassed : op.Passed rules now w u.event.tag vector)
    (hok : (.ok (u.finishDestroy config options) : Checked _) = .ok (r, w')) :
    Outcome op rules now w r w' := by
  obtain ⟨u', hu', hmap, hvector, hevent⟩ := Task.finishDestroy_eq config options u
  rw [hu'] at hok
  cases hok
  rw [← hevent] at hturned hpassed
  exact .applied hturned (h.congr hmap hvector) hpassed

section

variable {o : Task.Opened} {u : Task} {config : OperationConfig} {options : DestroyOptions}
  (hopens : w.Opens (config.inTokenMode
    || (rules.concurrencyChecks && (w.event.remote || options.evict))) o u)

include hopens

theorem destroyRemoved_outcome (hrem : w.met.token.isRemoved = true)
    (hok : u.destroyRemoved rules now config options o = .ok (r, w')) :
    Outcome (.destroy config options) rules now w r w' := by
  unfold Task.destroyRemoved at hok
  split at hok
  next hevict =>
    cases hok
    cases hcreated : o.created with
    | false =>
      refine .refused (by simp) nofun ?_ (hopens.untouched hcreated)
      rintro ⟨-, -, hs⟩
      rw [hopens.created, hs] at hcreated
      cases hcreated
    | true =>
      have hs : w.copy.slot? w.key = none := by
        rw [← Option.isNone_iff_eq_none, ← hopens.created, hcreated]
      have hmade := hopens.made hcreated
      simp only [hevict, Bool.or_true, Bool.and_true, Bool.or_eq_true] at hmade
      refine .parked ⟨hevict, hmade, hs⟩ ⟨⟨fun k => ?_, hopens.vector⟩, hopens.hand.queue⟩
      rw [hopens.hand.slot, Task.met_of_none hs]
  next hevict =>
  have hparks : ¬ Parks rules w (.destroy config options) := fun h => hevict h.1
  split at hok
  next hmode =>
    have hcounted := (hopens.hand.write .destroyed).countReplaced o.entry.token
    exact .finishDestroy (.written (.inr rfl)) hcounted
      ⟨.inl ⟨hmode, Bool.eq_false_iff.2 hevict, hrem⟩, _, hopens.tagged, .inr ⟨hmode, rfl⟩⟩ hok
  next hmode =>
  split at hok
  · split at hok
    · exact .of_answer (.refused (by simp [hopens.refuseStale.1]) nofun hparks
        hopens.refuseStale.2) hok
    next hfresh =>
    rw [hopens.isStale, Bool.not_eq_true] at hfresh
    split at hok
    next hvalid =>
      obtain ⟨t, htag, ht⟩ := u.event.hasValidVersion_iff.1 hvalid
      obtain ⟨u₂, hbury, hok⟩ := bind_ok hok
      obtain ⟨vector, hrec, hevent, hl⟩ := hopens.hand.bury htag ht hbury
      have htagged : w.Tagged rules now u.event.tag u.copy.vector := hopens.tagged
      rw [← hevent] at htagged hrec
      exact .finishDestroy (.buried (by rw [hevent, htag]) ht) hl
        ⟨.inr hfresh, _, htagged, .inl hrec⟩ hok
    next hvalid =>
      rw [Bool.not_eq_true] at hvalid
      exact .finishDestroy .kept ⟨⟨hopens.hand.slot, rfl⟩, hopens.hand.queue⟩
        ⟨.inr hfresh, _, hopens.tagged, .inl (Rules.recorded_unversioned hvalid _)⟩ hok
  next hremote =>
    have hcreated : o.created = false := by
      rw [Bool.eq_false_iff]
      intro hc
      have hmade := hopens.made hc
      rw [Bool.eq_false_iff.2 hmode, Bool.eq_false_iff.2 hevict, Bool.false_or, Bool.or_false,
        ← hopens.event] at hmade
      exact hremote hmade
    obtain ⟨hanswer, huntouched⟩ := (hopens.untouched hcreated).missing rules
    exact .of_answer (.refused hanswer nofun hparks huntouched) hok

theorem destroyLive_outcome (hlive : w.met.token.isRemoved = false)
    (hok : u.destroyLive rules now config options o = .ok (r, w')) :
    Outcome (.destroy config options) rules now w r w' := by
  -- the entry was there, as one that is made is not live
  have hs : w.copy.slot? w.key ≠ none := by
    intro hs
    rw [Task.met_of_none hs] at hlive
    cases hlive
  have hparks : ¬ Parks rules w (.destroy config options) := fun h => hs h.2.2
  have hcreated : o.created = false := by
    rw [hopens.created, Option.isNone_eq_false_iff, Option.isSome_iff_ne_none]
    exact hs
  unfold Task.destroyLive at hok
  split at hok
  · exact .of_answer (.refused (by simp [Task.done]) nofun hparks (hopens.untouched hcreated)) hok
  split at hok
  · exact .of_answer (.refused (by simp [hopens.refuseStale.1]) nofun hparks
      hopens.refuseStale.2) hok
  next hfresh =>
    rw [hopens.isStale, Bool.not_eq_true] at hfresh
    obtain ⟨u₂, hassign, hok⟩ := bind_ok hok
    obtain ⟨u₃, hcommit, hok⟩ := bind_ok hok
    obtain ⟨hhand, -, -⟩ := hopens.hand.assignVersion hassign
    obtain ⟨s, queue, vector, hevent, hturned, hl, hrec⟩ :=
      (hhand.withEvent (e := { u₂.event with oldValue := o.entry.value? }) rfl).commitDestroy
        hcommit
    have htagged := hopens.assignVersion hassign
    have hpassed : Passed (.destroy config options) rules now w u₃.event.tag vector := by
      rw [hevent]
      exact ⟨.inr hfresh, _, htagged, hrec⟩
    rw [← hevent] at hturned
    split at hok
    · exact .finishDestroy (u := u₃.mapStats Stats.countEviction) hturned (hl.congr rfl rfl)
        hpassed hok
    · exact .finishDestroy hturned hl hpassed hok

end

theorem destroy_outcome (ha : w.copy.Attached) {config : OperationConfig}
    {options : DestroyOptions} (hok : w.destroy rules now config options = .ok (r, w')) :
    Outcome (.destroy config options) rules now w r w' := by
  unfold Task.destroy at hok
  simp only at hok
  rcases Task.open_cases ha (config.inTokenMode
      || (rules.concurrencyChecks && (w.event.remote || options.evict))) with
    ⟨o, u, ho, hopens⟩ | ⟨ho, hcreate, -⟩
  · simp only [ho, hopens.token] at hok
    split at hok
    next hrem => exact destroyRemoved_outcome hopens hrem hok
    next hlive => exact destroyLive_outcome hopens (Bool.eq_false_iff.2 hlive) hok
  · have hparks : ¬ Parks rules w (.destroy config options) := by
      rintro ⟨hevict, hmode, -⟩
      simp only [hevict, Bool.or_true, Bool.and_true, Bool.or_eq_false_iff] at hcreate
      rcases hmode with hmode | hchecks
      · exact absurd hcreate.1 (by simp [hmode])
      · exact absurd hcreate.2 (by simp [hchecks])
    rw [ho] at hok
    simp only at hok
    split at hok
    · exact .of_answer (.refused (by simp [Task.done]) nofun hparks (.refl w)) hok
    · obtain ⟨hanswer, huntouched⟩ := (Task.Untouched.refl w).missing rules
      exact .of_answer (.refused hanswer nofun hparks huntouched) hok

theorem transactionInvalidate_outcome (hok : w.transactionInvalidate rules = .ok (r, w')) :
    Outcome .transactionInvalidate rules now w r w' := by
  unfold Task.transactionInvalidate at hok
  split at hok
  next =>
    cases hok
    exact .refused (by simp) nofun nofun (.refl w)
  next e he =>
    have hs : w.copy.slot? w.key = some e.slot := RegionCopy.slot?_eq_some_iff.2 ⟨e, he, rfl⟩
    have hopens := Task.opens_existing hs false
    split at hok
    · cases hok
      exact .refused (by simp) nofun nofun (.refl w)
    split at hok
    · cases hok
      exact .refused (by simp) nofun nofun hopens.refuseStale.2
    next hfresh =>
      rw [hopens.isStale rules, Bool.not_eq_true] at hfresh
      obtain ⟨u, hcommit, hok⟩ := bind_ok hok
      obtain ⟨-, htag, vector, hrec, hl⟩ := hopens.hand.commitInvalidate hcommit
      have htagged : w.Tagged rules now w.event.tag w.copy.vector := .own
      rw [← htag] at htagged
      cases hok
      exact .applied (.written (.inl (isLive_invalidMark _))) (hl.congr rfl rfl)
        ⟨.inr hfresh, _, htagged, .inl hrec⟩

theorem transactionDestroy_outcome (ha : w.copy.Attached) {inTokenMode : Bool}
    (hok : w.transactionDestroy rules now inTokenMode = .ok (r, w')) :
    Outcome (.transactionDestroy inTokenMode) rules now w r w' := by
  unfold Task.transactionDestroy at hok
  rcases Task.open_cases ha inTokenMode with ⟨o, u, ho, hopens⟩ | ⟨ho, -⟩
  · simp only [ho] at hok
    split at hok
    next hrem =>
      rw [Bool.and_eq_true, Bool.not_eq_true'] at hrem
      cases hok
      exact .refused (by simp) nofun nofun (hopens.untouched hrem.2)
    split at hok
    · cases hok
      exact .refused (by simp) nofun nofun hopens.refuseStale.2
    next hfresh =>
      rw [hopens.isStale, Bool.not_eq_true] at hfresh
      obtain ⟨u₂, hcommit, hok⟩ := bind_ok hok
      obtain ⟨s, queue, vector, hevent, hturned, hl, hrec⟩ :=
        (hopens.hand.withEvent (e := { u.event with oldValue := o.entry.value? }) rfl).commitDestroy
          hcommit
      have hpassed : Passed (.transactionDestroy inTokenMode) rules now w u₂.event.tag vector := by
        rw [hevent]
        exact ⟨.inr hfresh, _, hopens.tagged, hrec⟩
      cases hok
      refine .applied ?_ (hl.congr rfl rfl) hpassed
      rw [← hevent] at hturned
      exact hturned
  · rw [ho] at hok
    cases hok
    exact .refused (by simp) nofun nofun (.refl w)

/-- Every operation that returns comes to one of the outcomes. -/
theorem outcome (ha : w.copy.Attached) {op : EntryCall} (hok : op.run rules now w = .ok (r, w')) :
    op.Outcome rules now w r w' := by
  cases op with
  | put options config => exact put_outcome ha hok
  | invalidate forceNewEntry forceCallbacks config => exact invalidate_outcome ha hok
  | destroy config options => exact destroy_outcome ha hok
  | transactionPut => exact transactionPut_outcome ha hok
  | transactionInvalidate => exact transactionInvalidate_outcome hok
  | transactionDestroy inTokenMode => exact transactionDestroy_outcome ha hok

end EntryCall
end DataGrid
