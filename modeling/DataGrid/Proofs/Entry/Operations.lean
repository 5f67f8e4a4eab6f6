import DataGrid.Entry.Operations
import DataGrid.Proofs.Entry.Copy

/-
What put, invalidate and destroy do to what can be seen of a copy: the slot of
their key and the vector. Each operation meets the slot of its key, or a
placeholder where there is none. If the operation is stale nothing changes;
otherwise it goes by a tag (`Rules.version`), which stamps the slot and is
recorded in the vector.

The operations are taken as a bucket calls them, without conditions and in no
special mode.
-/

namespace DataGrid

namespace Rules

/-- The vector once the tag of an operation is recorded. -/
def recorded (tag : Option VersionTag) (vector : Option VersionVector) :
    Checked (Option VersionVector) :=
  match tag, vector with
  | some t, some v =>
    if t.regionVersion = 0 then .ok (some v)
    else do return some (← v.record t.member t.regionVersion).2
  | _, v => .ok v

/-- The tag that an operation on an entry goes by, and the vector once it has taken effect. -/
def version (rules : Rules) (e : EntryEvent) (vector : Option VersionVector)
    (stamp : VersionStamp) (now : Int) : Checked (Option VersionTag × Option VersionVector) := do
  let (tag, vector) ←
    if rules.concurrencyChecks && !e.remote && e.tag.isNone then rules.assignTag vector stamp now
    else .ok (e.tag, vector)
  return (tag, ← recorded tag vector)

/-- The tag loses against what the slot, or for an absent key the vector, has seen. -/
def stale (rules : Rules) (tag : Option VersionTag) (vector : Option VersionVector) (s : Slot) :
    Bool :=
  match tag with
  | none => false
  | some t =>
    rules.concurrencyChecks &&
      (if s.stamp.isVersioned then s.stamp.judge t != .apply
      else if s.token.isRemoved then
        match vector with
        | some v => v.judgeAbsent t != .apply
        | none => false
      else false)

/-- Recording a tag with a region version adds that version to the vector. -/
theorem recorded_eq {v : VersionVector} {t : VersionTag} (hv : v.Sound)
    (hn : t.regionVersion ≤ counterMax) :
    ∃ v', recorded (some t) (some v) = .ok (some v') ∧ v.Recorded t.member t.regionVersion v' := by
  by_cases h0 : t.regionVersion = 0
  · refine ⟨v, by simp [recorded, h0], hv, rfl, fun m w => ?_⟩
    cases hw : w == t.regionVersion with
    | false => simp
    | true =>
      have : w = 0 := by rw [eq_of_beq hw, h0]
      rw [this, VersionVector.contains_eq_holderOf, Holder.contains_zero, Bool.true_or]
  · obtain ⟨v', hrec, hv', -⟩ := VersionVector.record_eq hv t.member hn
    refine ⟨v', ?_, hv'⟩
    simp [recorded, h0, hrec, bind, Except.bind, pure, Except.pure]

/-- A received event goes by its own tag. -/
theorem version_remote {rules : Rules} {e : EntryEvent} {vector vector' : Option VersionVector}
    {stamp : VersionStamp} {now : Int} (hr : e.remote = true)
    (hrec : recorded e.tag vector = .ok vector') :
    rules.version e vector stamp now = .ok (e.tag, vector') := by
  simp [version, hr, hrec, bind, Except.bind, pure, Except.pure]

/-- The tag that a local event gets: the next version of the entry and of the region. -/
def localTag (m : Member) (v : VersionVector) (stamp : VersionStamp) (now : Int) : VersionTag where
  member := m
  entryVersion := stamp.entryVersion + 1
  regionVersion := v.localVersion + 1
  timestamp := now
  previousMember := stamp.member

theorem isValid_localTag (m : Member) (v : VersionVector) (stamp : VersionStamp) (now : Int) :
    (localTag m v stamp now).isValid = true := by
  simp [VersionTag.isValid, localTag]

theorem version_local {rules : Rules} {e : EntryEvent} {v : VersionVector} {stamp : VersionStamp}
    {now : Int} {m : Member} (hc : rules.concurrencyChecks = true)
    (ha : rules.assignTag = nextTag m) (hr : e.remote = false) (ht : e.tag = none)
    (hv : v.Sound) (hm : m.same v.owner = true) (hl : v.localVersion < counterMax)
    (hs : stamp.entryVersion < counterMax) :
    ∃ v', rules.version e (some v) stamp now = .ok (some (localTag m v stamp now), some v') ∧
      v.Recorded m (v.localVersion + 1) v' ∧ v'.localVersion = v.localVersion + 1 := by
  obtain ⟨v₁, hnext, h₁, hl₁⟩ := VersionVector.next_eq hv hl
  obtain ⟨v₂, hrec, h₂, hl₂⟩ := VersionVector.record_eq h₁.sound m (n := v.localVersion + 1) (by omega)
  have hadd : Counter.add stamp.entryVersion 1 = .ok (stamp.entryVersion + 1) :=
    Counter.add_eq_ok (by omega)
  refine ⟨v₂, ?_, ⟨h₂.sound, h₂.owner.trans h₁.owner, fun m' w => ?_⟩, ?_⟩
  · simp [version, hc, hr, ht, ha, nextTag, hnext, VersionStamp.nextTag, hadd, recorded, localTag,
      hrec, bind, Except.bind, pure, Except.pure]
  · have hown : v₁.contains m (v.localVersion + 1) = true := by
      rw [VersionVector.contains_congr _ hm]
      exact h₁.of_contains
    rw [h₂.contains_of_contains hown, h₁.contains]
    have hsame : m'.same v.owner = m'.same m := by
      rw [Bool.eq_iff_iff]
      exact ⟨fun h => Member.same_trans h (Member.same_symm hm), fun h => Member.same_trans h hm⟩
    rw [hsame]
  · rw [hl₂, hl₁]
    split
    · omega
    · rfl

/-- Without versions a local event gets none. -/
theorem version_unversioned {rules : Rules} {e : EntryEvent} {vector : Option VersionVector}
    {stamp : VersionStamp} {now : Int} (hc : rules.concurrencyChecks = false) (ht : e.tag = none) :
    rules.version e vector stamp now = .ok (none, vector) := by
  cases vector <;> simp [version, hc, ht, recorded, bind, Except.bind, pure, Except.pure]

end Rules

theorem RegionCopy.recordTag_eq (c : RegionCopy) (tag : Option VersionTag) :
    c.recordTag tag = (Rules.recorded tag c.vector).map fun v => { c with vector := v } := by
  cases c with
  | mk map vector stats =>
    cases tag with
    | none => cases vector <;> rfl
    | some t =>
      cases vector with
      | none => rfl
      | some v =>
        simp only [recordTag, Rules.recorded]
        split
        · rfl
        · cases hr : v.record t.member t.regionVersion <;> rfl

namespace Task

/-- The slot an operation meets: that of its key, or a placeholder. -/
def met (w : Task) : Slot := (w.copy.slot? w.key).getD ⟨.placeholder, {}⟩

theorem met_of_some {w : Task} {s : Slot} (h : w.copy.slot? w.key = some s) : w.met = s := by
  simp [met, h]

theorem met_of_none {w : Task} (h : w.copy.slot? w.key = none) : w.met = ⟨.placeholder, {}⟩ := by
  simp [met, h]

/-- Nothing that can be seen of the copy differs. -/
structure Unchanged (w w' : Task) : Prop where
  slot : ∀ k, w'.copy.slot? k = w.copy.slot? k
  vector : w'.copy.vector = w.copy.vector

/-- The slot of the key and the vector are given, and other keys are as they were. -/
structure Left (w w' : Task) (s : Option Slot) (vector : Option VersionVector) : Prop where
  slot : ∀ k, w'.copy.slot? k = if k = w.key then s else w.copy.slot? k
  vector : w'.copy.vector = vector

theorem isStale_eq (w : Task) (rules : Rules) (e : Entry) :
    w.isStale rules e = rules.stale w.event.tag w.copy.vector e.slot := rfl

/-! ## Steps -/

theorem openExisting_eq {w : Task} (ha : w.copy.Attached) :
    w.openExisting = (w.entry?.map fun e => ⟨e, false⟩, w) := by
  simp only [openExisting, mapCopy, RegionCopy.dropDetached_eq ha]

theorem entry?_eq_none {w : Task} (h : w.copy.slot? w.key = none) : w.entry? = none :=
  RegionCopy.slot?_eq_none_iff.1 h

theorem entry?_eq_some {w : Task} {s : Slot} (h : w.copy.slot? w.key = some s) :
    ∃ e, w.entry? = some e ∧ e.slot = s := RegionCopy.slot?_eq_some_iff.1 h

/-- The key is opened with the slot that is met; a placeholder is put where there is none. -/
theorem openOrCreate_eq {w : Task} (ha : w.copy.Attached) :
    ∃ o w₁, w.openOrCreate = (o, w₁) ∧ o.entry.slot = w.met ∧
      o.created = (w.copy.slot? w.key).isNone ∧ w₁.event = w.event ∧
      w.Left w₁ (some w.met) w.copy.vector := by
  cases hs : w.copy.slot? w.key with
  | none =>
    have he := entry?_eq_none hs
    simp only [openOrCreate, mapCopy, RegionCopy.dropDetached_eq ha, he]
    refine ⟨_, _, rfl, (met_of_none hs).symm, rfl, rfl, fun k => ?_, rfl⟩
    rw [RegionCopy.slot?_write, met_of_none hs, hs]
    rfl
  | some s =>
    obtain ⟨e, he, hes⟩ := entry?_eq_some hs
    simp only [openOrCreate, mapCopy, RegionCopy.dropDetached_eq ha, he]
    refine ⟨_, _, rfl, by rw [met_of_some hs]; exact hes, rfl, rfl, fun k => ?_, rfl⟩
    split
    next hk => rw [hk, hs, met_of_some hs]
    next => rfl

/-- A refused operation leaves the copy as it was before the key was opened. -/
theorem Unchanged.refuse {w u : Task} {o : Opened} (hkey : u.key = w.key)
    (hc : o.created = (w.copy.slot? w.key).isNone) (h : w.Left u (some w.met) w.copy.vector) :
    (u.refuse o).1 = .ok false ∧ w.Unchanged (u.refuse o).2 := by
  refine ⟨rfl, fun k => ?_, ?_⟩
  · simp only [Task.refuse, hc]
    cases hs : w.copy.slot? w.key with
    | none =>
      simp only [Option.isNone_none, if_true, mapCopy, RegionCopy.slot?_detach, hkey]
      split
      next hk => rw [hk, hs]
      next hk => rw [h.slot, if_neg hk]
    | some s =>
      simp only [Option.isNone_some, Bool.false_eq_true, if_false, h.slot]
      split
      next hk => rw [hk, hs, met_of_some hs]
      next => rfl
  · unfold Task.refuse
    split
    · exact h.vector
    · exact h.vector

theorem Unchanged.refuseStale {w w₁ : Task} {o : Opened} (hkey : w₁.key = w.key)
    (hc : o.created = (w.copy.slot? w.key).isNone) (h : w.Left w₁ (some w.met) w.copy.vector) :
    (w₁.refuseStale o).1 = .ok false ∧ w.Unchanged (w₁.refuseStale o).2 :=
  Unchanged.refuse (u := w₁.mapStats Stats.countConflict) hkey hc ⟨h.slot, h.vector⟩

theorem Unchanged.refl (w : Task) : w.Unchanged w := ⟨fun _ => rfl, rfl⟩

/-- The event is given its tag, which can then be recorded. -/
theorem assignVersion_eq {w : Task} {rules : Rules} {now : Int} {e : Entry}
    {tag : Option VersionTag} {vector : Option VersionVector}
    (h : rules.version w.event w.copy.vector e.stamp now = .ok (tag, vector)) :
    ∃ w', w.assignVersion rules now e = .ok w' ∧ w'.event = { w.event with tag := tag } ∧
      w'.copy.map = w.copy.map ∧ Rules.recorded tag w'.copy.vector = .ok vector := by
  unfold assignVersion
  unfold Rules.version at h
  split at h
  next hb =>
    cases hassign : rules.assignTag w.copy.vector e.stamp now with
    | error err => simp [hassign, bind, Except.bind] at h
    | ok p =>
      obtain ⟨tag', vector'⟩ := p
      simp only [hassign, bind, Except.bind, pure, Except.pure] at h
      cases hrec : Rules.recorded tag' vector' with
      | error err => simp [hrec] at h
      | ok vector'' =>
        simp only [hrec, Except.ok.injEq, Prod.mk.injEq] at h
        obtain ⟨rfl, rfl⟩ := h
        simp only [hb, if_true, tell, hassign, bind, Except.bind, pure, Except.pure]
        exact ⟨_, rfl, rfl, rfl, hrec⟩
  next hb =>
    simp only [bind, Except.bind, pure, Except.pure] at h
    cases hrec : Rules.recorded w.event.tag w.copy.vector with
    | error err => simp [hrec] at h
    | ok vector' =>
      simp only [hrec, Except.ok.injEq, Prod.mk.injEq] at h
      obtain ⟨rfl, rfl⟩ := h
      simp only [hb]
      exact ⟨w, rfl, rfl, rfl, hrec⟩

theorem recordVersion_eq {w : Task} {vector : Option VersionVector}
    (h : Rules.recorded w.event.tag w.copy.vector = .ok vector) :
    w.recordVersion = .ok { w with copy := { w.copy with vector := vector } } := by
  simp only [recordVersion, RegionCopy.recordTag_eq, h, Except.map, bind, Except.bind, pure,
    Except.pure]

theorem Left.trans {w u w' : Task} {s s' : Option Slot} {v v' : Option VersionVector}
    (h : w.Left u s v) (hkey : u.key = w.key) (h' : u.Left w' s' v') : w.Left w' s' v' := by
  refine ⟨fun k => ?_, h'.vector⟩
  rw [h'.slot, hkey]
  split
  · rfl
  next hk => rw [h.slot, if_neg hk]

theorem Left.met {w w₁ : Task} {s : Slot} {v : Option VersionVector} (h : w.Left w₁ (some s) v)
    (hkey : w₁.key = w.key) : w₁.met = s :=
  met_of_some (by rw [hkey, h.slot, if_pos rfl])

theorem write_left (w : Task) (t : Token) :
    w.Left (w.write t) (some ⟨t, w.met.stamp.after w.event.tag⟩) w.copy.vector := by
  refine ⟨fun k => ?_, rfl⟩
  have hs : w.met.stamp = ((w.copy.slot? w.key).map Slot.stamp).getD {} := by
    unfold Task.met
    cases w.copy.slot? w.key <;> rfl
  rw [hs]
  exact RegionCopy.slot?_write w.copy w.key k t w.event.tag

/-- A token written and recorded. -/
theorem write_recordVersion {w : Task} (t : Token) {vector : Option VersionVector}
    (h : Rules.recorded w.event.tag w.copy.vector = .ok vector) :
    ∃ w', (w.write t).recordVersion = .ok w' ∧ w'.event = w.event ∧
      w.Left w' (some ⟨t, w.met.stamp.after w.event.tag⟩) vector :=
  ⟨_, recordVersion_eq (w := w.write t) h, rfl, (write_left w t).slot, rfl⟩

/-- The slot met is opened, and the event is given its tag. -/
theorem assign_left {rules : Rules} {now : Int} {w w₁ : Task} {e : Entry}
    {tag : Option VersionTag} {vector : Option VersionVector} {s : Slot}
    (hes : e.slot = s) (hevent : w₁.event = w.event) (hleft : w.Left w₁ (some s) w.copy.vector)
    (hver : rules.version w.event w.copy.vector s.stamp now = .ok (tag, vector)) :
    ∃ w₂, w₁.assignVersion rules now e = .ok w₂ ∧ w₂.event = { w.event with tag := tag } ∧
      w.Left w₂ (some s) w₂.copy.vector ∧
      Rules.recorded tag w₂.copy.vector = .ok vector := by
  have hver₁ : rules.version w₁.event w₁.copy.vector e.stamp now = .ok (tag, vector) := by
    rw [hevent, hleft.vector, ← hver, ← hes]
    rfl
  obtain ⟨w₂, hassign, hevent₂, hmap₂, hrec⟩ := assignVersion_eq hver₁
  refine ⟨w₂, hassign, by rw [hevent₂, hevent], ⟨fun k => ?_, rfl⟩, hrec⟩
  rw [← hleft.slot]
  simp only [RegionCopy.slot?, hmap₂]

/-- A token written over the slot met, for the event as it has become meanwhile. -/
theorem Left.write {w u : Task} {s : Slot} (t : Token) {tag : Option VersionTag}
    {vector : Option VersionVector} (hleft : w.Left u (some s) u.copy.vector)
    (hkey : u.key = w.key) (htag : u.event.tag = tag)
    (hrec : Rules.recorded tag u.copy.vector = .ok vector) :
    ∃ w', (u.write t).recordVersion = .ok w' ∧ w'.event = u.event ∧
      w.Left w' (some ⟨t, s.stamp.after tag⟩) vector := by
  obtain ⟨w', hw', hevent, hleft'⟩ := write_recordVersion (w := u) t (by rw [htag]; exact hrec)
  rw [htag, hleft.met hkey] at hleft'
  exact ⟨w', hw', hevent, hleft.trans hkey hleft'⟩

/-! ## Put -/

variable {rules : Rules} (now : Int) {w : Task}

theorem putRefused_default (e : Entry) : putRefused {} {} e = false := by
  simp [putRefused]

theorem put_stale {v : Value} (hv : w.event.newValue = some v) (ha : w.copy.Attached)
    (hst : rules.stale w.event.tag w.copy.vector w.met = true) :
    ∃ w', w.put rules now {} {} = .ok (.ok false, w') ∧ w.Unchanged w' := by
  obtain ⟨o, w₁, ho, hmet, hcreated, hevent, hleft⟩ := openOrCreate_eq ha
  have hkey : w₁.key = w.key := by simp only [key, hevent]
  have hstale : w₁.isStale rules o.entry = true := by
    rw [isStale_eq, hevent, hleft.vector, hmet]
    exact hst
  obtain ⟨h₁, h₂⟩ := Unchanged.refuseStale hkey hcreated hleft
  refine ⟨_, ?_, h₂⟩
  simp only [put, hv, ho, putRefused_default, hstale, Bool.false_eq_true, if_false, if_true,
    Except.ok.injEq]
  exact Prod.ext h₁ rfl

/-- What a put makes of its event. -/
def putEvent (e : EntryEvent) (old : Slot) (tag : Option VersionTag) : EntryEvent :=
  { e with
    tag := tag
    oldValue := old.token.value?
    operation := if old.token.isRemoved then .create else .update }

theorem commitPut_eq {w w₂ : Task} {e : Entry} {s : Slot} {v : Value} {tag : Option VersionTag}
    {vector : Option VersionVector} (hes : e.slot = s)
    (hevent : w₂.event = { w.event with tag := tag }) (hleft : w.Left w₂ (some s) w₂.copy.vector)
    (hrec : Rules.recorded tag w₂.copy.vector = .ok vector) :
    ∃ w₃, w₂.commitPut e v = .ok w₃ ∧ w₃.event = putEvent w.event s tag ∧
      w.Left w₃ (some ⟨.valid v, s.stamp.after tag⟩) vector := by
  have htok : e.token = s.token := congrArg Slot.token hes
  obtain ⟨w₃, hw₃, hevent₃, hleft₃⟩ := Left.write (w := w)
    (u := { w₂ with event := putEvent w.event s tag }) (.valid v) ⟨hleft.slot, hleft.vector⟩ rfl rfl hrec
  refine ⟨w₃, ?_, hevent₃, hleft₃⟩
  rw [← hw₃]
  simp only [commitPut, putEvent, hevent, Entry.value?, htok]

theorem put_fresh {v : Value} {tag : Option VersionTag} {vector : Option VersionVector}
    (hv : w.event.newValue = some v) (ha : w.copy.Attached)
    (hst : rules.stale w.event.tag w.copy.vector w.met = false)
    (hver : rules.version w.event w.copy.vector w.met.stamp now = .ok (tag, vector)) :
    ∃ w', w.put rules now {} {} = .ok (.ok true, w') ∧ w'.event = putEvent w.event w.met tag ∧
      w.Left w' (some ⟨.valid v, w.met.stamp.after tag⟩) vector := by
  obtain ⟨o, w₁, ho, hmet, hcreated, hevent, hleft⟩ := openOrCreate_eq ha
  have hstale : w₁.isStale rules o.entry = false := by
    rw [isStale_eq, hevent, hleft.vector, hmet]
    exact hst
  obtain ⟨w₂, hassign, hevent₂, hleft₂, hrec⟩ := assign_left hmet hevent hleft hver
  obtain ⟨w₃, hcommit, hevent₃, hleft₃⟩ := commitPut_eq (v := v) hmet hevent₂ hleft₂ hrec
  simp only [put, hv, ho, putRefused_default, hstale, Bool.false_eq_true, if_false, hassign,
    hcommit, bind, Except.bind, pure, Except.pure]
  exact ⟨_, rfl, hevent₃, hleft₃.slot, hleft₃.vector⟩

/-! ## Operations that need a present key -/

/-- How an operation answers that finds the key absent. -/
def missingAnswer (rules : Rules) (k : Key) : Applied :=
  if rules.toleratesMissing k then .ok false else .error (.notFound k)

theorem missingAnswer_ne (rules : Rules) (k : Key) : missingAnswer rules k ≠ .ok true := by
  unfold missingAnswer
  split <;> simp

theorem missing_eq (w : Task) (rules : Rules) :
    w.missing rules = (missingAnswer rules w.key, w.tell (.keyMissing w.key)) := by
  simp only [missing, missingAnswer, tell, key]
  by_cases h : rules.toleratesMissing w.event.key = true <;> simp [h]

theorem missing_ne (w : Task) (rules : Rules) : (w.missing rules).1 ≠ .ok true := by
  rw [missing_eq]
  exact missingAnswer_ne rules w.key

theorem Unchanged.tell {w w' : Task} (h : w.Unchanged w') (n : RegionNotice) :
    w.Unchanged (w'.tell n) := ⟨h.slot, h.vector⟩

theorem tellInvalidateCallbacks_false (w : Task) (config : OperationConfig) :
    w.tellInvalidateCallbacks config false = w := rfl

theorem open_eq (w : Task) (create : Bool) :
    w.open_ create = if create then (some w.openOrCreate.1, w.openOrCreate.2)
      else w.openExisting := by
  cases create <;> rfl

/-- An operation that only takes present keys opens nothing for an absent one. -/
theorem openExisting_absent {w : Task} (ha : w.copy.Attached) (hs : w.copy.slot? w.key = none) :
    w.openExisting = (none, w) := by
  rw [openExisting_eq ha, entry?_eq_none hs]
  rfl

theorem openExisting_present {w : Task} {s : Slot} (ha : w.copy.Attached)
    (hs : w.copy.slot? w.key = some s) :
    ∃ e, w.openExisting = (some ⟨e, false⟩, w) ∧ e.slot = s := by
  obtain ⟨e, he, hes⟩ := entry?_eq_some hs
  exact ⟨e, by rw [openExisting_eq ha, he]; rfl, hes⟩

theorem left_self {w : Task} {s : Slot} (hs : w.copy.slot? w.key = some s) :
    w.Left w (some s) w.copy.vector := by
  refine ⟨fun k => ?_, rfl⟩
  split
  next hk => rw [hk, hs]
  next => rfl

/-- A present key is opened as it is, whether or not an absent one would be created. -/
theorem open_present {w : Task} {s : Slot} (ha : w.copy.Attached) (hs : w.copy.slot? w.key = some s)
    (create : Bool) : ∃ o w₁, w.open_ create = (some o, w₁) ∧ o.entry.slot = s ∧
      w₁.event = w.event ∧ w.Left w₁ (some s) w.copy.vector := by
  rw [open_eq]
  cases create with
  | false =>
    obtain ⟨e, ho, hes⟩ := openExisting_present ha hs
    exact ⟨_, w, ho, hes, rfl, left_self hs⟩
  | true =>
    obtain ⟨o, w₁, ho, hmet, -, hevent, hleft⟩ := openOrCreate_eq ha
    rw [met_of_some hs] at hmet hleft
    rw [if_pos rfl, ho]
    exact ⟨o, w₁, rfl, hmet, hevent, hleft⟩

theorem refuseStale_existing (w : Task) (e : Entry) :
    ∃ w', w.refuseStale ⟨e, false⟩ = (.ok false, w') ∧ w.Unchanged w' :=
  ⟨w.mapStats Stats.countConflict, rfl, fun _ => rfl, rfl⟩

/-! ## Invalidate -/

/-- Without effect on an absent or invalid key, and when stale. -/
theorem invalidate_refused (ha : w.copy.Attached) (hi : rules.initialized = true)
    (hst : w.met.token.isRemoved = true ∨ w.met.token.isInvalid = true ∨
      rules.stale w.event.tag w.copy.vector w.met = true) :
    ∃ r w', w.invalidate rules now false false {} = .ok (r, w') ∧ r ≠ .ok true ∧
      w.Unchanged w' := by
  simp only [invalidate, hi, Bool.or_self, Bool.not_true, open_, Bool.false_eq_true, if_false,
    Bool.not_false, Bool.and_true, Bool.false_and]
  cases hs : w.copy.slot? w.key with
  | none =>
    rw [openExisting_absent ha hs]
    simp only [tellInvalidateCallbacks_false, missing_eq]
    exact ⟨_, _, rfl, missingAnswer_ne _ _, (Unchanged.refl w).tell _⟩
  | some s =>
    obtain ⟨e, he, hes⟩ := openExisting_present ha hs
    have htok : e.token = s.token := congrArg Slot.token hes
    rw [met_of_some hs] at hst
    simp only [he, htok, tellInvalidateCallbacks_false, isStale_eq, hes]
    by_cases hinv : s.token.isInvalid = true
    · simp only [hinv, if_true]
      exact ⟨_, _, rfl, by simp, .refl w⟩
    by_cases hrem : s.token.isRemoved = true
    · simp only [hinv, hrem, if_true, missing_eq]
      exact ⟨_, _, rfl, missingAnswer_ne _ _, (Unchanged.refl w).tell _⟩
    · have hstale : rules.stale w.event.tag w.copy.vector s = true := by
        rcases hst with h | h | h
        · exact absurd h hrem
        · exact absurd h hinv
        · exact h
      obtain ⟨w', hw', hun⟩ := refuseStale_existing w e
      simp only [hinv, hrem, hstale, if_true, hw']
      exact ⟨_, _, rfl, by simp, hun⟩

/-- What an invalidate or a destroy makes of its event. -/
def takenEvent (e : EntryEvent) (old : Slot) (tag : Option VersionTag) : EntryEvent :=
  { e with tag := tag, oldValue := old.token.value? }

theorem invalidate_fresh {s : Slot} {tag : Option VersionTag} {vector : Option VersionVector}
    (ha : w.copy.Attached) (hi : rules.initialized = true) (hs : w.copy.slot? w.key = some s)
    (hlive : s.token.isRemoved = false) (hval : s.token.isInvalid = false)
    (hst : rules.stale w.event.tag w.copy.vector s = false)
    (hver : rules.version w.event w.copy.vector s.stamp now = .ok (tag, vector)) :
    ∃ w', w.invalidate rules now false false {} = .ok (.ok true, w') ∧
      w'.event = takenEvent w.event s tag ∧
      w.Left w' (some ⟨invalidMark w.event, s.stamp.after tag⟩) vector := by
  obtain ⟨e, he, hes⟩ := openExisting_present ha hs
  have htok : e.token = s.token := congrArg Slot.token hes
  obtain ⟨w₂, hassign, hevent₂, hleft₂, hrec⟩ := assign_left hes rfl (left_self hs) hver
  obtain ⟨w₃, hw₃, hevent₃, hleft₃⟩ := Left.write (w := w)
    (u := { w₂ with event := takenEvent w.event s tag }) (invalidMark w.event)
    ⟨hleft₂.slot, hleft₂.vector⟩ rfl rfl hrec
  have hcommit : w₂.commitInvalidate e = .ok w₃ := by
    rw [← hw₃]
    simp only [commitInvalidate, takenEvent, hevent₂, Entry.value?, htok]
    rfl
  simp only [invalidate, hi, Bool.or_self, Bool.not_true, open_, Bool.false_eq_true, if_false, he,
    htok, hlive, hval, isStale_eq, hes, hst, hassign, hcommit, bind, Except.bind, pure, Except.pure,
    Bool.false_and]
  exact ⟨_, rfl, hevent₃, hleft₃.slot, hleft₃.vector⟩

/-- Before the region is initialized too: without effect on an invalid key, and when stale. -/
theorem invalidate_unready_refused (ha : w.copy.Attached) (hi : rules.initialized = false)
    (hst : w.met.token.isInvalid = true ∨
      rules.stale w.event.tag w.copy.vector w.met = true) :
    ∃ w', w.invalidate rules now false false {} = .ok (.ok false, w') ∧ w.Unchanged w' := by
  obtain ⟨o, w₁, ho, hmet, hcreated, hevent, hleft⟩ := openOrCreate_eq ha
  have hkey : w₁.key = w.key := by simp only [key, hevent]
  have htok : o.entry.token = w.met.token := congrArg Slot.token hmet
  simp only [invalidate, hi, Bool.false_or, Bool.not_false, Bool.true_or, open_eq, if_true, ho,
    htok, tellInvalidateCallbacks_false, Bool.and_false, Bool.not_true, Bool.false_eq_true,
    if_false]
  by_cases hinv : w.met.token.isInvalid = true
  · simp only [hinv, if_true]
    refine ⟨w₁, rfl, fun k => ?_, hleft.vector⟩
    rw [hleft.slot]
    split
    next hk =>
      cases hs : w.copy.slot? w.key with
      | none =>
        rw [met_of_none hs] at hinv
        cases hinv
      | some s => rw [hk, hs, met_of_some hs]
    next => rfl
  · have hstale : w₁.isStale rules o.entry = true := by
      rw [isStale_eq, hevent, hleft.vector, hmet]
      exact hst.resolve_left hinv
    obtain ⟨h₁, h₂⟩ := Unchanged.refuseStale hkey hcreated hleft
    simp only [hinv, hstale, if_true, Bool.false_eq_true, if_false]
    exact ⟨_, congrArg Except.ok (Prod.ext h₁ rfl), h₂⟩

/-- Before the region is initialized an invalidation leaves its mark for an absent key too, though
it does not count as applied there. -/
theorem invalidate_unready_fresh {tag : Option VersionTag} {vector : Option VersionVector}
    (ha : w.copy.Attached) (hi : rules.initialized = false)
    (hval : w.met.token.isInvalid = false)
    (hst : rules.stale w.event.tag w.copy.vector w.met = false)
    (hver : rules.version w.event w.copy.vector w.met.stamp now = .ok (tag, vector)) :
    ∃ r w', w.invalidate rules now false false {} = .ok (r, w') ∧
      (r = .ok true ↔ w.met.token.isRemoved = false) ∧
      w.Left w' (some ⟨invalidMark w.event, w.met.stamp.after tag⟩) vector := by
  obtain ⟨o, w₁, ho, hmet, hcreated, hevent, hleft⟩ := openOrCreate_eq ha
  have htok : o.entry.token = w.met.token := congrArg Slot.token hmet
  have hstale : w₁.isStale rules o.entry = false := by
    rw [isStale_eq, hevent, hleft.vector, hmet]
    exact hst
  obtain ⟨w₂, hassign, hevent₂, hleft₂, hrec⟩ := assign_left hmet hevent hleft hver
  obtain ⟨w₃, hw₃, hevent₃, hleft₃⟩ := Left.write (w := w)
    (u := { w₂ with event := takenEvent w.event w.met tag }) (invalidMark w.event)
    ⟨hleft₂.slot, hleft₂.vector⟩ rfl rfl hrec
  have hcommit : w₂.commitInvalidate o.entry = .ok w₃ := by
    rw [← hw₃]
    simp only [commitInvalidate, takenEvent, hevent₂, Entry.value?, htok]
    rfl
  cases hrem : w.met.token.isRemoved with
  | true =>
    simp only [invalidate, hi, Bool.false_or, Bool.not_false, Bool.true_or, open_eq, if_true, ho,
      htok, hval, hrem, hstale, hassign, hcommit, bind, Except.bind, pure, Except.pure,
      tellInvalidateCallbacks_false, Bool.not_true, Bool.and_false, Bool.and_true,
      Bool.false_eq_true, if_false]
    exact ⟨_, _, rfl, iff_of_false nofun nofun, hleft₃.slot, hleft₃.vector⟩
  | false =>
    simp only [invalidate, hi, Bool.false_or, Bool.not_false, Bool.true_or, open_eq, if_true, ho,
      htok, hval, hrem, hstale, hassign, hcommit, bind, Except.bind, pure, Except.pure,
      Bool.false_and, Bool.false_eq_true, if_false]
    exact ⟨_, _, rfl, iff_of_true rfl trivial, hleft₃.slot, hleft₃.vector⟩

/-! ## Destroy -/

variable (options : DestroyOptions)

/-- A tombstone is left, stamped with the tag, and its version recorded. -/
theorem bury_eq {vector : Option VersionVector} (old : Token)
    (h : Rules.recorded w.event.tag w.copy.vector = .ok vector) :
    ∃ w', w.bury now old = .ok w' ∧ w'.event = w.event ∧
      w.Left w' (some ⟨.tombstone, w.met.stamp.after w.event.tag⟩) vector := by
  obtain ⟨w₁, hw₁, hevent, hleft⟩ := write_recordVersion (w := w) .tombstone h
  simp only [bury, hw₁, bind, Except.bind, pure, Except.pure]
  exact ⟨_, rfl, hevent, hleft.slot, hleft.vector⟩

theorem finishDestroy_eq (config : OperationConfig) (options : DestroyOptions) (w : Task) :
    ∃ w', w.finishDestroy config options = (.ok true, w') ∧ w'.copy.map = w.copy.map ∧
      w'.copy.vector = w.copy.vector ∧ w'.event = w.event := ⟨_, rfl, rfl, rfl, rfl⟩

theorem Left.finishDestroy {w₁ w₂ : Task} {s : Option Slot} {v : Option VersionVector}
    (h : w.Left w₁ s v) (hmap : w₂.copy.map = w₁.copy.map)
    (hvec : w₂.copy.vector = w₁.copy.vector) : w.Left w₂ s v := by
  refine ⟨fun k => ?_, hvec.trans h.vector⟩
  rw [← h.slot]
  simp only [RegionCopy.slot?, hmap]

/-- A local destroy of an absent key has no effect. -/
theorem destroy_missing (ha : w.copy.Attached) (he : options.evict = false)
    (hl : w.event.remote = false) (hrem : w.met.token.isRemoved = true) :
    ∃ w', w.destroy rules now {} options = .ok (missingAnswer rules w.key, w') ∧
      w.Unchanged w' := by
  refine ⟨_, ?_, (Unchanged.refl w).tell (.keyMissing w.key)⟩
  rw [← missing_eq]
  simp only [destroy, hl, he, Bool.or_self, Bool.and_false, open_, Bool.false_eq_true, if_false]
  cases hs : w.copy.slot? w.key with
  | none => rw [openExisting_absent ha hs]
  | some s =>
    obtain ⟨e, ho, hes⟩ := openExisting_present ha hs
    have htok : e.token = s.token := congrArg Slot.token hes
    rw [met_of_some hs] at hrem
    simp only [ho, htok, hrem, if_true, destroyRemoved, he, hl, Bool.false_eq_true, if_false,
      Bool.and_false]

/-- An eviction leaves an absent key absent, with a placeholder perhaps. -/
theorem evict_missing (ha : w.copy.Attached) (he : options.evict = true)
    (hrem : w.met.token.isRemoved = true) :
    ∃ w', w.destroy rules now {} options = .ok (.ok false, w') ∧
      w'.copy.vector = w.copy.vector ∧
      ∀ k, w'.copy.slot? k = w.copy.slot? k ∨
        (w.copy.slot? k = none ∧ w'.copy.slot? k = some ⟨.placeholder, {}⟩) := by
  simp only [destroy, he, Bool.or_true, Bool.and_true, Bool.false_or, open_eq]
  cases hcc : rules.concurrencyChecks with
  | false =>
    simp only [Bool.false_eq_true, if_false]
    cases hs : w.copy.slot? w.key with
    | none =>
      rw [openExisting_absent ha hs]
      exact ⟨w, rfl, rfl, fun _ => .inl rfl⟩
    | some s =>
      obtain ⟨e, ho, hes⟩ := openExisting_present ha hs
      have htok : e.token = s.token := congrArg Slot.token hes
      rw [met_of_some hs] at hrem
      simp only [ho, htok, hrem, if_true, destroyRemoved, he]
      exact ⟨w, rfl, rfl, fun _ => .inl rfl⟩
  | true =>
    obtain ⟨o, w₁, ho, hmet, hcreated, hevent, hleft⟩ := openOrCreate_eq ha
    have htok : o.entry.token = w.met.token := congrArg Slot.token hmet
    simp only [if_true, ho, htok, hrem, destroyRemoved, he]
    refine ⟨w₁, rfl, hleft.vector, fun k => ?_⟩
    rw [hleft.slot]
    split
    next hk =>
      subst hk
      cases hs : w.copy.slot? w.key with
      | none => exact .inr ⟨rfl, by rw [met_of_none hs]⟩
      | some s => exact .inl (by rw [met_of_some hs])
    next => exact .inl rfl

/-- A stale destroy has no effect. -/
theorem destroy_stale (ha : w.copy.Attached) (he : options.evict = false)
    (hx : options.expectedOldValue = none) (hcc : rules.concurrencyChecks = true)
    (hr : w.event.remote = true)
    (hst : rules.stale w.event.tag w.copy.vector w.met = true) :
    ∃ w', w.destroy rules now {} options = .ok (.ok false, w') ∧ w.Unchanged w' := by
  obtain ⟨o, w₁, ho, hmet, hcreated, hevent, hleft⟩ := openOrCreate_eq ha
  have hkey : w₁.key = w.key := by simp only [key, hevent]
  have hstale : w₁.isStale rules o.entry = true := by
    rw [isStale_eq, hevent, hleft.vector, hmet]
    exact hst
  obtain ⟨h₁, h₂⟩ := Unchanged.refuseStale hkey hcreated hleft
  have hr₁ : w₁.event.remote = true := by rw [hevent, hr]
  refine ⟨_, ?_, h₂⟩
  simp only [destroy, hcc, hr, he, open_eq, Bool.or_false, Bool.and_self, Bool.false_or, if_true,
    ho, destroyRemoved, destroyLive, hx, hr₁, hstale, Option.isSome_none, Bool.false_and,
    Bool.false_eq_true, if_false]
  split <;> exact congrArg Except.ok (Prod.ext h₁ rfl)

/-- A stale eviction of a present key has no effect. -/
theorem evict_stale (ha : w.copy.Attached) (he : options.evict = true)
    (hx : options.expectedOldValue = none) (hcc : rules.concurrencyChecks = true)
    (hlive : w.met.token.isRemoved = false)
    (hst : rules.stale w.event.tag w.copy.vector w.met = true) :
    ∃ w', w.destroy rules now {} options = .ok (.ok false, w') ∧ w.Unchanged w' := by
  obtain ⟨o, w₁, ho, hmet, hcreated, hevent, hleft⟩ := openOrCreate_eq ha
  have hkey : w₁.key = w.key := by simp only [key, hevent]
  have htok : o.entry.token = w.met.token := congrArg Slot.token hmet
  have hstale : w₁.isStale rules o.entry = true := by
    rw [isStale_eq, hevent, hleft.vector, hmet]
    exact hst
  obtain ⟨h₁, h₂⟩ := Unchanged.refuseStale hkey hcreated hleft
  refine ⟨_, ?_, h₂⟩
  simp only [destroy, hcc, he, open_eq, Bool.or_true, Bool.and_true, if_true, ho, htok, hlive,
    destroyLive, hx, hstale, Option.isSome_none, Bool.false_and, Bool.false_eq_true, if_false]
  exact congrArg Except.ok (Prod.ext h₁ rfl)

/-- A received destroy with a version leaves a tombstone for an absent key too. -/
theorem destroy_absent_fresh {t : VersionTag} {vector : Option VersionVector}
    (ha : w.copy.Attached) (he : options.evict = false) (hcc : rules.concurrencyChecks = true)
    (hr : w.event.remote = true) (ht : w.event.tag = some t) (hval : t.isValid = true)
    (hrem : w.met.token.isRemoved = true)
    (hst : rules.stale w.event.tag w.copy.vector w.met = false)
    (hrec : Rules.recorded w.event.tag w.copy.vector = .ok vector) :
    ∃ w', w.destroy rules now {} options = .ok (.ok true, w') ∧ w'.event = w.event ∧
      w.Left w' (some ⟨.tombstone, .ofTag t⟩) vector := by
  obtain ⟨o, w₁, ho, hmet, hcreated, hevent, hleft⟩ := openOrCreate_eq ha
  have hkey : w₁.key = w.key := by simp only [key, hevent]
  have htok : o.entry.token = w.met.token := congrArg Slot.token hmet
  have hstale : w₁.isStale rules o.entry = false := by
    rw [isStale_eq, hevent, hleft.vector, hmet]
    exact hst
  have hvalid : w₁.event.hasValidVersion = true := by
    simp only [EntryEvent.hasValidVersion, hevent, ht, hval]
  obtain ⟨w₂, hbury, hevent₂, hleft₂⟩ := bury_eq now (w := w₁) w.met.token
    (by rw [hevent, hleft.vector]; exact hrec)
  rw [hevent, ht, VersionStamp.after_some hval] at hleft₂
  obtain ⟨w₃, hfinish, hmap, hvec, hevent₃⟩ := finishDestroy_eq {} options w₂
  have hr₁ : w₁.event.remote = true := by rw [hevent, hr]
  refine ⟨w₃, ?_, by rw [hevent₃, hevent₂, hevent], (hleft.trans hkey hleft₂).finishDestroy hmap hvec⟩
  simp only [destroy, hcc, hr, he, open_eq, Bool.or_false, Bool.and_self, Bool.false_or, if_true,
    ho, htok, hrem, destroyRemoved, hr₁, hstale, hvalid, Bool.false_eq_true, if_false, hbury,
    hfinish, bind, Except.bind, pure, Except.pure]

/-- What a destroy leaves of a present key: a tombstone if it has a version. -/
def buried (rules : Rules) (stamp : VersionStamp) (tag : Option VersionTag) : Option Slot :=
  if rules.concurrencyChecks && tag.any VersionTag.isValid then
    some ⟨.tombstone, stamp.after tag⟩
  else none

theorem commitDestroy_eq (rules : Rules) {w u : Task} {e : Entry} {s : Slot}
    {tag : Option VersionTag} {vector : Option VersionVector}
    (hevent : u.event = takenEvent w.event s tag)
    (hleft : w.Left u (some s) u.copy.vector)
    (hrec : Rules.recorded tag u.copy.vector = .ok vector) :
    ∃ w₃, u.commitDestroy false rules.concurrencyChecks now e = .ok w₃ ∧ w₃.event = u.event ∧
      w.Left w₃ (buried rules s.stamp tag) vector := by
  have hkey : u.key = w.key := by simp only [key, hevent, takenEvent]
  have htag : u.event.tag = tag := by rw [hevent]; rfl
  have hvalid : u.event.hasValidVersion = tag.any VersionTag.isValid := by
    simp only [EntryEvent.hasValidVersion, htag]
    cases tag <;> rfl
  simp only [commitDestroy, Bool.false_eq_true, if_false, hvalid, buried]
  split
  · obtain ⟨w₃, hbury, hevent₃, hleft₃⟩ :=
      bury_eq now (w := u) e.token (by rw [htag]; exact hrec)
    rw [htag, hleft.met hkey] at hleft₃
    exact ⟨w₃, hbury, hevent₃, hleft.trans hkey hleft₃⟩
  · refine ⟨_, recordVersion_eq (w := u.mapCopy (·.detach u.key)) (by rw [← htag] at hrec; exact hrec),
      rfl, fun k => ?_, rfl⟩
    refine (RegionCopy.slot?_detach u.copy u.key k).trans ?_
    rw [hkey]
    split
    · rfl
    next hk => rw [hleft.slot, if_neg hk]

/-- A destroy of a present key, evicting or not. -/
theorem destroy_fresh {s : Slot} {tag : Option VersionTag} {vector : Option VersionVector}
    (ha : w.copy.Attached) (hx : options.expectedOldValue = none)
    (hd : options.removeRecovered = false) (hs : w.copy.slot? w.key = some s)
    (hlive : s.token.isRemoved = false)
    (hst : rules.stale w.event.tag w.copy.vector s = false)
    (hver : rules.version w.event w.copy.vector s.stamp now = .ok (tag, vector)) :
    ∃ w', w.destroy rules now {} options = .ok (.ok true, w') ∧
      w'.event = takenEvent w.event s tag ∧ w.Left w' (buried rules s.stamp tag) vector := by
  obtain ⟨o, w₁, ho, hes, hevent, hleft⟩ :=
    open_present ha hs (rules.concurrencyChecks && (w.event.remote || options.evict))
  have htok : o.entry.token = s.token := congrArg Slot.token hes
  have hstale : w₁.isStale rules o.entry = false := by
    rw [isStale_eq, hevent, hleft.vector, hes]
    exact hst
  obtain ⟨w₂, hassign, hevent₂, hleft₂, hrec⟩ := assign_left hes hevent hleft hver
  obtain ⟨w₃, hcommit, hevent₃, hleft₃⟩ := commitDestroy_eq now rules
    (u := { w₂ with event := { w₂.event with oldValue := o.entry.value? } }) (e := o.entry) (s := s)
    (by simp only [takenEvent, hevent₂, Entry.value?, htok]) ⟨hleft₂.slot, hleft₂.vector⟩ hrec
  have hevict : ∃ w₄, (if options.evict then w₃.mapStats Stats.countEviction else w₃) = w₄ ∧
      w₄.copy.map = w₃.copy.map ∧ w₄.copy.vector = w₃.copy.vector ∧ w₄.event = w₃.event := by
    cases options.evict <;> exact ⟨_, rfl, rfl, rfl, rfl⟩
  obtain ⟨w₄, hw₄, hmap₄, hvec₄, hevent₄⟩ := hevict
  obtain ⟨w₅, hfinish, hmap₅, hvec₅, hevent₅⟩ := finishDestroy_eq {} options w₄
  refine ⟨w₅, ?_, ?_, (hleft₃.finishDestroy hmap₄ hvec₄).finishDestroy hmap₅ hvec₅⟩
  · simp only [destroy, Bool.false_or, ho, htok, hlive, Bool.false_eq_true, if_false, destroyLive,
      hx, Option.isSome_none, Bool.false_and, hstale, hassign, hd, Bool.not_false, Bool.and_true,
      hcommit, bind, Except.bind, pure, Except.pure, hw₄, hfinish]
  · rw [hevent₅, hevent₄, hevent₃]
    simp only [takenEvent, hevent₂, Entry.value?, htok]

end Task
end DataGrid
