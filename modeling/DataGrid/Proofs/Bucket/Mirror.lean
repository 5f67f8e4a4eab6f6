import DataGrid.Bucket.Basic
import DataGrid.Proofs.Entry.Own

/-
A secondary that gets every event the primary applied, in order, holds what
the primary holds.

The primary chooses a version and the secondary checks it. The check always
passes, for the two meet the same slot, where the new entry version is above
the one of the stamp; and where there is no stamp the new region version is one
that the secondary has not seen, because its vector contains just the primary's
versions (`InStep`).
-/

namespace DataGrid

/-- The token that an event on a key leaves when it meets a token there, if it has an effect. -/
def EntryEvent.leaves? (e : EntryEvent) (met : Token) : Option Token :=
  match e.operation with
  | .create | .update => e.newValue.map .valid
  | .invalidate | .localInvalidate =>
    if met.isRemoved || met.isInvalid then none else some (Task.invalidMark e)
  | .destroy | .evict => if met.isRemoved then none else some .tombstone
  | .regionClear => none

theorem Task.invalidMark_ne (e : EntryEvent) : invalidMark e ≠ .detached := by
  unfold invalidMark
  split <;> simp

theorem EntryEvent.leaves?_ne {e : EntryEvent} {met t : Token} (h : e.leaves? met = some t) :
    t ≠ .detached := by
  unfold leaves? at h
  split at h
  · cases hv : e.newValue <;> simp [hv] at h
    simp [← h]
  · cases hv : e.newValue <;> simp [hv] at h
    simp [← h]
  · split at h
    · cases h
    · cases h
      exact Task.invalidMark_ne e
  · split at h
    · cases h
    · cases h
      exact Task.invalidMark_ne e
  · split at h <;> cases h
    simp
  · split at h <;> cases h
    simp
  · cases h

namespace Task

/-- The operation has left its token and its tag, and its event asks for the same as before. -/
structure Took (w w' : Task) (t : Token) (tag : VersionTag) (vector : Option VersionVector) :
    Prop where
  tagged : w'.event.tag = some tag
  sameKey : w'.event.key = w.event.key
  leaves : ∀ met, w'.event.leaves? met = w.event.leaves? met
  onKey : w'.event.operation ≠ .regionClear
  left : w.Left w' (some ⟨t, .ofTag tag⟩) vector

variable {rules : Rules} (now : Int) {w : Task} {t : Token} {tag : VersionTag}
  {vector : Option VersionVector}

theorem put_takes (hop : w.event.operation = .create ∨ w.event.operation = .update)
    (ha : w.copy.Attached) (heff : w.event.leaves? w.met.token = some t)
    (hst : rules.stale w.event.tag w.copy.vector w.met = false)
    (hver : rules.version w.event w.copy.vector w.met.stamp now = .ok (some tag, vector))
    (hval : tag.isValid = true) :
    ∃ w', w.put rules now {} {} = .ok (.ok true, w') ∧ w.Took w' t tag vector := by
  have hasked : ∀ met, w.event.leaves? met = w.event.newValue.map .valid := fun met => by
    rcases hop with hop | hop <;> simp only [EntryEvent.leaves?, hop]
  rw [hasked] at heff
  obtain ⟨v, hv, rfl⟩ := Option.map_eq_some_iff.1 heff
  obtain ⟨w', hw', hevent, hleft⟩ := put_fresh now hv ha hst hver
  rw [VersionStamp.after_some hval] at hleft
  refine ⟨w', hw', by rw [hevent]; rfl, by rw [hevent]; rfl, fun met => ?_, ?_, hleft⟩
  · rw [hasked, hevent]
    cases hr : w.met.token.isRemoved <;> simp [EntryEvent.leaves?, putEvent, hr]
  · rw [hevent]
    cases hr : w.met.token.isRemoved <;> simp [putEvent, hr]

theorem put_valueless (hv : w.event.newValue = none) :
    w.put rules now {} {} = .ok (.error (.invalidToken w.key .invalid), w) := by
  simp only [put, hv]

theorem invalidate_takes
    (hop : w.event.operation = .invalidate ∨ w.event.operation = .localInvalidate)
    (ha : w.copy.Attached) (hi : rules.initialized = true)
    (heff : w.event.leaves? w.met.token = some t)
    (hst : rules.stale w.event.tag w.copy.vector w.met = false)
    (hver : rules.version w.event w.copy.vector w.met.stamp now = .ok (some tag, vector))
    (hval : tag.isValid = true) :
    ∃ w', w.invalidate rules now false false {} = .ok (.ok true, w') ∧ w.Took w' t tag vector := by
  have hmark : w.met.token.isRemoved = false ∧ w.met.token.isInvalid = false ∧
      invalidMark w.event = t := by
    rcases hop with hop | hop <;> simpa [EntryEvent.leaves?, hop, and_assoc] using heff
  obtain ⟨hlive, hvalid, rfl⟩ := hmark
  cases hs : w.copy.slot? w.key with
  | none =>
    rw [met_of_none hs] at hlive
    cases hlive
  | some s =>
    rw [met_of_some hs] at hlive hvalid hst hver
    obtain ⟨w', hw', hevent, hleft⟩ := invalidate_fresh now ha hi hs hlive hvalid hst hver
    rw [VersionStamp.after_some hval] at hleft
    refine ⟨w', hw', by rw [hevent]; rfl, by rw [hevent]; rfl, fun met => by rw [hevent]; rfl, ?_,
      hleft⟩
    rw [hevent]
    rcases hop with hop | hop <;> simp [takenEvent, hop]

theorem destroy_takes (options : DestroyOptions)
    (hop : w.event.operation = .destroy ∨ w.event.operation = .evict)
    (hx : options.expectedOldValue = none) (hd : options.removeRecovered = false)
    (hcc : rules.concurrencyChecks = true) (ha : w.copy.Attached)
    (heff : w.event.leaves? w.met.token = some t)
    (hst : rules.stale w.event.tag w.copy.vector w.met = false)
    (hver : rules.version w.event w.copy.vector w.met.stamp now = .ok (some tag, vector))
    (hval : tag.isValid = true) :
    ∃ w', w.destroy rules now {} options = .ok (.ok true, w') ∧ w.Took w' t tag vector := by
  have hmark : w.met.token.isRemoved = false ∧ Token.tombstone = t := by
    rcases hop with hop | hop <;> simpa [EntryEvent.leaves?, hop] using heff
  obtain ⟨hlive, rfl⟩ := hmark
  cases hs : w.copy.slot? w.key with
  | none =>
    rw [met_of_none hs] at hlive
    cases hlive
  | some s =>
    rw [met_of_some hs] at hlive hst hver
    obtain ⟨w', hw', hevent, hleft⟩ := destroy_fresh now options ha hx hd hs hlive hst hver
    simp only [buried, hcc, Option.any_some, hval, Bool.and_self, if_true,
      VersionStamp.after_some hval] at hleft
    refine ⟨w', hw', by rw [hevent]; rfl, by rw [hevent]; rfl, fun met => by rw [hevent]; rfl, ?_,
      hleft⟩
    rw [hevent]
    rcases hop with hop | hop <;> simp [takenEvent, hop]

end Task

namespace Bucket

variable {b : Bucket} {e : EntryEvent} (now : Int)

/-- What an event meets in a bucket. -/
def met (b : Bucket) (k : Key) : Slot := (b.copy.slot? k).getD ⟨.placeholder, {}⟩

theorem met_left {w : Task} {x : Slot} {vector : Option VersionVector}
    (h : Task.Left ⟨b.copy, e, []⟩ w (some x) vector) (k : Key) :
    met { b with copy := w.copy } k = if k = e.key then x else b.met k := by
  by_cases hk : k = e.key <;> simp [met, h.slot, Task.key, hk]

theorem applyToEntry_takes {t : Token} {tag : VersionTag} {vector : Option VersionVector}
    (hcc : b.attributes.concurrencyChecks = true) (hopen : b.advisor.gateOpen = true)
    (ha : b.copy.Attached) (heff : e.leaves? (b.met e.key).token = some t)
    (hst : b.rules.stale e.tag b.copy.vector (b.met e.key) = false)
    (hver : b.rules.version e b.copy.vector (b.met e.key).stamp now = .ok (some tag, vector))
    (hval : tag.isValid = true) :
    ∃ w, b.applyToEntry now e = some (.ok (.ok true, w)) ∧
      Task.Took ⟨b.copy, e, []⟩ w t tag vector := by
  unfold applyToEntry
  cases hop : e.operation with
  | create | update =>
    obtain ⟨w, hw, htook⟩ := Task.put_takes now (w := ⟨b.copy, e, []⟩) (by simp [hop]) ha heff hst
      hver hval
    exact ⟨w, congrArg some hw, htook⟩
  | invalidate | localInvalidate =>
    obtain ⟨w, hw, htook⟩ := Task.invalidate_takes now (w := ⟨b.copy, e, []⟩) (by simp [hop]) ha
      hopen heff hst hver hval
    exact ⟨w, congrArg some hw, htook⟩
  | destroy =>
    obtain ⟨w, hw, htook⟩ := Task.destroy_takes now {} (w := ⟨b.copy, e, []⟩) (by simp [hop]) rfl rfl
      hcc ha heff hst hver hval
    exact ⟨w, congrArg some hw, htook⟩
  | evict =>
    obtain ⟨w, hw, htook⟩ := Task.destroy_takes now .eviction (w := ⟨b.copy, e, []⟩) (by simp [hop]) rfl rfl
      hcc ha heff hst hver hval
    exact ⟨w, congrArg some hw, htook⟩
  | regionClear => simp [EntryEvent.leaves?, hop] at heff

/-- A local event without an effect is not applied, and leaves a placeholder at most. -/
theorem applyToEntry_void (hl : e.remote = false) (hopen : b.advisor.gateOpen = true)
    (ha : b.copy.Attached) (heff : e.leaves? (b.met e.key).token = none)
    (hop : e.operation ≠ .regionClear) :
    ∃ r w, b.applyToEntry now e = some (.ok (r, w)) ∧ r ≠ .ok true ∧
      w.copy.vector = b.copy.vector ∧
      ∀ k, w.copy.slot? k = b.copy.slot? k ∨
        (b.copy.slot? k = none ∧ w.copy.slot? k = some ⟨.placeholder, {}⟩) := by
  have hsame : ∀ {w : Task}, Task.Unchanged ⟨b.copy, e, []⟩ w →
      w.copy.vector = b.copy.vector ∧ ∀ k, w.copy.slot? k = b.copy.slot? k ∨
        (b.copy.slot? k = none ∧ w.copy.slot? k = some ⟨.placeholder, {}⟩) :=
    fun h => ⟨h.vector, fun k => .inl (h.slot k)⟩
  unfold applyToEntry
  cases ho : e.operation with
  | create | update =>
    have hnew : e.newValue = none := by simpa [EntryEvent.leaves?, ho] using heff
    exact ⟨_, _, congrArg some (Task.put_valueless now (w := ⟨b.copy, e, []⟩) hnew), by simp,
      hsame (.refl _)⟩
  | invalidate | localInvalidate =>
    have hvoid : (b.met e.key).token.isRemoved = true ∨ (b.met e.key).token.isInvalid = true := by
      cases hr : (b.met e.key).token.isRemoved with
      | true => exact .inl rfl
      | false => exact .inr (by simpa [EntryEvent.leaves?, ho, hr] using heff)
    obtain ⟨r, w, hw, hr, hun⟩ := Task.invalidate_refused now (w := ⟨b.copy, e, []⟩) ha
      (show b.rules.initialized = true from hopen) (hvoid.imp_right .inl)
    exact ⟨r, w, congrArg some hw, hr, hsame hun⟩
  | destroy =>
    have hrem : (b.met e.key).token.isRemoved = true := by
      simpa [EntryEvent.leaves?, ho] using heff
    obtain ⟨w, hw, hun⟩ := Task.destroy_missing now {} (w := ⟨b.copy, e, []⟩) ha rfl hl hrem
    exact ⟨_, w, congrArg some hw, Task.missingAnswer_ne _ _, hsame hun⟩
  | evict =>
    have hrem : (b.met e.key).token.isRemoved = true := by
      simpa [EntryEvent.leaves?, ho] using heff
    obtain ⟨w, hw, hvec, hslot⟩ := Task.evict_missing now .eviction (w := ⟨b.copy, e, []⟩) ha rfl hrem
    exact ⟨_, w, congrArg some hw, by simp, hvec, hslot⟩
  | regionClear => exact absurd ho hop

theorem mapError_ne_ok {r : Applied} (h : r ≠ .ok true) :
    r.mapError BucketError.entry ≠ .ok true := by
  cases r with
  | error err => exact nofun
  | ok applied => exact fun heq => h (by cases heq; rfl)

theorem apply_of_entry {r : Applied} {w : Task} (hh : b.held e = none)
    (h : b.applyToEntry now e = some (.ok (r, w))) :
    b.apply now e = .ok (r.mapError .entry, w.event, { b with copy := w.copy }) := by
  simp only [apply, hh, h, bind, Except.bind, pure, Except.pure]

theorem apply_clear (hh : b.held e = none) (hop : e.operation = .regionClear) :
    b.apply now e = .ok (.ok true, e, b.clear.2) := by
  simp only [apply, hh, applyToEntry, hop]

end Bucket

/-! ## The two copies -/

/-- Where there is no stamp, a version passes that the vector has not seen. -/
theorem Rules.stale_unversioned {rules : Rules} {u : VersionVector} {t : VersionTag} {s : Slot}
    (hs : s.stamp.member = none) (hu : u.contains t.member t.regionVersion = false) :
    rules.stale (some t) (some u) s = false := by
  have happ : u.judgeAbsent t = .apply := by
    rw [VersionVector.judgeAbsent_eq_apply_iff]
    simp [VersionVector.containsTag, hu]
  simp [stale, VersionStamp.isVersioned, hs, happ]

/-- The version a member gives next passes the check of a copy that has not seen it and holds the
same stamp. -/
theorem Rules.stale_localTag {rules : Rules} {m : Member} {v u : VersionVector} {s : Slot}
    (now : Int) (hu : u.contains m (v.localVersion + 1) = false) :
    rules.stale (some (localTag m v s.stamp now)) (some u) s = false := by
  cases hm : s.stamp.member with
  | some m' =>
    have hgt : compare (s.stamp.entryVersion + 1) s.stamp.entryVersion = .gt :=
      Nat.compare_eq_gt.2 (Nat.lt_succ_self _)
    simp only [stale, VersionStamp.isVersioned, hm, Option.isSome_some, if_true,
      VersionStamp.judge, isValid_localTag]
    simp [localTag, hgt]
  | none => exact stale_unversioned hm hu

namespace Bucket

/-! ## The primary -/

/-- A primary that gives the operations on its keys their versions. -/
structure Leads (p : Bucket) : Prop where
  checked : p.attributes.concurrencyChecks = true
  initialized : p.advisor.gateOpen = true
  passes : p.gate.passes = true
  primary : p.notForLocal = none
  own : p.copy.Own p.advisor.member
  vector : p.copy.vector.isSome = true

variable {p s : Bucket}

theorem leads_new (path : String) {a : Advisor} {attributes : RegionAttributes}
    (hcc : attributes.concurrencyChecks = true) (hopen : a.gateOpen = true)
    (hhosts : a.hosting = true) (hprimary : a.isPrimary = true) :
    Leads (.new path a attributes) where
  checked := hcc
  initialized := hopen
  passes := rfl
  primary := by
    have hstate : a.state = .isPrimaryHosting := eq_of_beq hprimary
    simp [notForLocal, new, Advisor.isClosed, hstate, hhosts, hprimary]
  own := RegionCopy.own_new _ {} attributes.concurrencyChecks rfl
  vector := by simp only [new, hcc, if_true, Option.isSome_some]

theorem Leads.held (h : p.Leads) {e : EntryEvent} (hl : e.remote = false) : p.held e = none := by
  simp [Bucket.held, hl, h.primary, h.passes]

theorem Leads.withCopy (h : p.Leads) {c : RegionCopy} (n : Nat) (hv : c.vector.isSome = true)
    (ho : c.Own p.advisor.member) : Leads { p with copy := c, clears := n } :=
  ⟨h.checked, h.initialized, h.passes, h.primary, ho, hv⟩

theorem Leads.clear (h : p.Leads) : p.clear.2.Leads := by
  have hv : (p.copy.clear p.copy.vector).2.vector.isSome = true := by
    rw [RegionCopy.vector_clear]
    exact h.vector
  exact h.withCopy (p.clears + 1) hv h.own.clear

/-- A local event has taken effect at the primary, under the version that comes next. -/
structure Takes (p : Bucket) (now : Int) (e : EntryEvent) (t : Token) (v v' : VersionVector)
    (w : Task) : Prop where
  effect : e.leaves? (p.met e.key).token = some t
  vector : p.copy.vector = some v
  fits : v.localVersion < counterMax
  next : v'.localVersion = v.localVersion + 1
  recorded : v.Recorded p.advisor.member (v.localVersion + 1) v'
  applied : p.apply now e = .ok (.ok true, w.event, { p with copy := w.copy })
  took : Task.Took ⟨p.copy, e, []⟩ w t
    (Rules.localTag p.advisor.member v (p.met e.key).stamp now) (some v')

theorem Leads.takes (h : p.Leads) (now : Int) {e : EntryEvent} {t : Token} (hl : e.remote = false)
    (hn : e.tag = none) (hfit : p.copy.Countable)
    (heff : e.leaves? (p.met e.key).token = some t) : ∃ v v' w, p.Takes now e t v v' w := by
  obtain ⟨v, hv⟩ := Option.isSome_iff_exists.1 h.vector
  have hfits := hfit v hv
  obtain ⟨v', hver, hrec, hnext⟩ := Task.version_own (w := ⟨p.copy, e, []⟩) h.own
    (show p.rules.concurrencyChecks = true from h.checked) rfl hl hn hv hfits now
  have hmet : Task.met ⟨p.copy, e, []⟩ = p.met e.key := rfl
  rw [hmet] at hver
  obtain ⟨w, hw, htook⟩ := applyToEntry_takes now h.checked h.initialized h.own.attached heff
    (by rw [hn]; rfl) hver (Rules.isValid_localTag ..)
  exact ⟨v, v', w, heff, hv, hfits, hnext, hrec, apply_of_entry now (h.held hl) hw, htook⟩

theorem Takes.leads {now : Int} {e : EntryEvent} {t : Token} {v v' : VersionVector} {w : Task}
    (ht : p.Takes now e t v v' w) (h : p.Leads) : Leads { p with copy := w.copy } := by
  refine h.withCopy p.clears (by rw [ht.took.left.vector]; rfl) ?_
  exact Task.Left.own (w := ⟨p.copy, e, []⟩) now h.own ht.vector
    (fun x hx => by cases hx; exact ⟨EntryEvent.leaves?_ne ht.effect, rfl⟩) ht.recorded ht.next
    ht.took.left

/-- A local event without an effect at the primary leaves a placeholder at most, and these do not
show. -/
theorem Leads.skips (h : p.Leads) (now : Int) {e : EntryEvent} (hl : e.remote = false)
    (hop : e.operation ≠ .regionClear) (heff : e.leaves? (p.met e.key).token = none) :
    ∃ r e' c, p.apply now e = .ok (r, e', { p with copy := c }) ∧ r ≠ .ok true ∧
      Leads { p with copy := c } ∧ c.vector = p.copy.vector ∧
      ∀ k, met { p with copy := c } k = p.met k := by
  obtain ⟨r, w, hw, hr, hvec, hslot⟩ :=
    applyToEntry_void now hl h.initialized h.own.attached heff hop
  refine ⟨r.mapError .entry, w.event, w.copy, apply_of_entry now (h.held hl) hw,
    mapError_ne_ok hr, h.withCopy p.clears (by rw [hvec]; exact h.vector)
      (h.own.frame hvec fun k x hx => ?_), hvec, fun k => ?_⟩
  · rcases hslot k with heq | ⟨-, heq⟩
    · exact .inl (by rw [← heq]; exact hx)
    · rw [heq] at hx
      cases hx
      exact .inr rfl
  · unfold met
    rcases hslot k with heq | ⟨hn, heq⟩
    · rw [heq]
    · rw [heq, hn]
      rfl

/-! ## The two in step -/

/-- Two buckets meet the same slots, and the secondary has seen just the primary's versions. -/
structure InStep (p s : Bucket) : Prop where
  checked : p.attributes.concurrencyChecks = true ∧ s.attributes.concurrencyChecks = true
  initialized : p.advisor.gateOpen = true ∧ s.advisor.gateOpen = true
  passes : p.gate.passes = true ∧ s.gate.passes = true
  primary : p.notForLocal = none
  own : p.copy.Own p.advisor.member
  attached : s.copy.Attached
  vectors : ∃ v u, p.copy.vector = some v ∧ s.copy.vector = some u ∧ u.Sound ∧
    ∀ w, u.contains p.advisor.member w = v.contains p.advisor.member w
  met : ∀ k, s.met k = p.met k

theorem InStep.leads (h : InStep p s) : p.Leads where
  checked := h.checked.1
  initialized := h.initialized.1
  passes := h.passes.1
  primary := h.primary
  own := h.own
  vector := by
    obtain ⟨v, -, hv, -⟩ := h.vectors
    rw [hv]
    rfl

theorem InStep.held_secondary (h : InStep p s) {e : EntryEvent} (hr : e.remote = true) :
    s.held e = none := by
  simp [held, hr, h.passes.2]

/-- An effect on both copies keeps them in step. -/
theorem InStep.take (h : InStep p s) {now : Int} {e d : EntryEvent} {t : Token}
    {v v' u u' : VersionVector} {w w' : Task} (ht : p.Takes now e t v v' w)
    (hu : s.copy.vector = some u)
    (hrec : u.Recorded p.advisor.member (v.localVersion + 1) u') (hk : d.key = e.key)
    (hleft : Task.Left ⟨s.copy, d, []⟩ w'
      (some ⟨t, .ofTag (Rules.localTag p.advisor.member v (p.met e.key).stamp now)⟩) (some u')) :
    InStep { p with copy := w.copy } { s with copy := w'.copy } where
  checked := h.checked
  initialized := h.initialized
  passes := h.passes
  primary := h.primary
  own := (ht.leads h.leads).own
  attached := by
    refine h.attached.of_slot? fun x y hy => ?_
    rw [hleft.slot] at hy
    split at hy
    · cases hy
      exact .inl (EntryEvent.leaves?_ne ht.effect)
    · exact .inr hy
  vectors := by
    obtain ⟨v₀, u₀, hv₀, hu₀, -, hc⟩ := h.vectors
    rw [ht.vector] at hv₀
    rw [hu] at hu₀
    cases hv₀
    cases hu₀
    refine ⟨v', u', ht.took.left.vector, hleft.vector, hrec.sound, fun n => ?_⟩
    rw [ht.recorded.contains, hrec.contains, hc]
  met x := by rw [met_left ht.took.left, met_left hleft, hk, h.met]

theorem slot?_clear_secondary (h : InStep p s) (k : Key) : s.clear.2.copy.slot? k = none := by
  obtain ⟨v, u, hv, hu, -, hc⟩ := h.vectors
  refine RegionCopy.slot?_clear_seen h.attached (fun k x u' m hx hu' hm => ?_) k
  rw [hu] at hu'
  cases hu'
  have hx' : p.met k = x := by
    rw [← h.met k]
    simp only [Bucket.met, hx, Option.getD_some]
  have hgiven : (p.met k).stamp.Given p.advisor.member v :=
    RegionCopy.Own.given_met (w := ⟨p.copy, .ofDestroy k, []⟩) h.own hv
  rw [hx'] at hgiven
  obtain ⟨rfl, hseen⟩ := hgiven.member m hm
  rw [hc]
  exact hseen

/-- A clear empties both copies. -/
theorem InStep.clear (h : InStep p s) : InStep p.clear.2 s.clear.2 where
  checked := h.checked
  initialized := h.initialized
  passes := h.passes
  primary := h.primary
  own := h.own.clear
  attached := RegionCopy.attached_empty (slot?_clear_secondary h)
  vectors := by
    obtain ⟨v, u, hv, hu, hsound, hc⟩ := h.vectors
    exact ⟨v, u, (RegionCopy.vector_clear _ _).trans hv, (RegionCopy.vector_clear _ _).trans hu,
      hsound, hc⟩
  met k := by
    have hp : p.clear.2.copy.slot? k = none := h.own.slot?_clear k
    simp only [Bucket.met, slot?_clear_secondary h k, hp]

/-! ## Passing events on -/

/-- A local event without a version, and when the two copies get it. -/
structure LocalEvent where
  event : EntryEvent
  now : Int
  later : Int
  isLocal : event.remote = false
  untagged : event.tag = none

/-- What came of an event: the answer of the primary and, if the event was passed on, that of the
secondary. -/
structure Forwarded where
  answer : Except BucketError Bool
  passedOn : Option (Except BucketError Bool)
  primary : Bucket
  secondary : Bucket

/-- Apply an event at the primary and, if it took effect there, at the secondary. -/
def forward (p s : Bucket) (e : LocalEvent) : Checked Forwarded := do
  let (answer, event, p) ← p.apply e.now e.event
  match answer with
  | .ok true =>
    let (passed, _, s) ← s.apply e.later { event with remote := true }
    return ⟨answer, some passed, p, s⟩
  | _ => return ⟨answer, none, p, s⟩

/-- Apply and pass on events in order: the answers to each, and the buckets at the end. -/
def forwardAll : List LocalEvent → Bucket → Bucket →
    Checked (List (Except BucketError Bool × Option (Except BucketError Bool)) × Bucket × Bucket)
  | [], p, s => .ok ([], p, s)
  | e :: rest, p, s => do
    let r ← p.forward s e
    let (answers, p, s) ← forwardAll rest r.primary r.secondary
    return ((r.answer, r.passedOn) :: answers, p, s)

/-- What the primary takes is passed on with its version. -/
theorem Takes.forward {e : LocalEvent} {t : Token} {v v' : VersionVector} {w w' : Task}
    {r : Applied} (h : p.Takes e.now e.event t v v' w)
    (hs : s.held { w.event with remote := true } = none)
    (happ : s.applyToEntry e.later { w.event with remote := true } = some (.ok (r, w'))) :
    p.forward s e = .ok ⟨.ok true, some (r.mapError .entry), { p with copy := w.copy },
      { s with copy := w'.copy }⟩ := by
  simp only [Bucket.forward, h.applied, apply_of_entry e.later hs happ, bind, Except.bind, pure,
    Except.pure]

theorem Leads.forward_skips (h : p.Leads) (s : Bucket) (e : LocalEvent)
    (hop : e.event.operation ≠ .regionClear)
    (heff : e.event.leaves? (p.met e.event.key).token = none) :
    ∃ r c, p.forward s e = .ok ⟨r, none, { p with copy := c }, s⟩ ∧ r ≠ .ok true ∧
      Leads { p with copy := c } ∧ c.vector = p.copy.vector ∧
      ∀ k, met { p with copy := c } k = p.met k := by
  obtain ⟨r, e', c, happ, hnot, hrest⟩ := h.skips e.now e.isLocal hop heff
  refine ⟨r, c, ?_, hnot, hrest⟩
  simp only [Bucket.forward, happ, bind, Except.bind, pure, Except.pure]

/-- The secondary takes an event with the version that the primary gives next. -/
theorem InStep.secondary_takes (h : InStep p s) {e : EntryEvent} {v : VersionVector} {t : Token}
    (now later : Int) (hv : p.copy.vector = some v) (hfits : v.localVersion < counterMax)
    (hr : e.remote = true)
    (htag : e.tag = some (Rules.localTag p.advisor.member v (p.met e.key).stamp now))
    (heff : e.leaves? (p.met e.key).token = some t) :
    ∃ u u' w, s.copy.vector = some u ∧
      u.Recorded p.advisor.member (v.localVersion + 1) u' ∧
      s.applyToEntry later e = some (.ok (.ok true, w)) ∧ Task.Took ⟨s.copy, e, []⟩ w t
        (Rules.localTag p.advisor.member v (p.met e.key).stamp now) (some u') := by
  obtain ⟨v₀, u, hv₀, hu, hsound, hc⟩ := h.vectors
  rw [hv] at hv₀
  cases hv₀
  obtain ⟨howner, hcount⟩ := h.own.counting v hv
  have hnew : u.contains p.advisor.member (v.localVersion + 1) = false := by
    rw [hc, ← howner]
    exact hcount.next_new
  obtain ⟨u', hrecorded, hrec⟩ := Rules.recorded_eq
    (t := Rules.localTag p.advisor.member v (p.met e.key).stamp now) hsound
    (show v.localVersion + 1 ≤ counterMax by omega)
  have hver : s.rules.version e s.copy.vector (s.met e.key).stamp later = .ok (e.tag, some u') :=
    Rules.version_remote hr (by rw [htag, hu, hrecorded])
  rw [htag] at hver
  obtain ⟨w, hw, htook⟩ := applyToEntry_takes later h.checked.2 h.initialized.2 h.attached
    (by rw [h.met]; exact heff) (by rw [h.met, htag, hu]; exact Rules.stale_localTag now hnew) hver
    (Rules.isValid_localTag ..)
  exact ⟨u, u', w, hu, hrec, hw, htook⟩

/-- Both buckets take the event, or the primary does not, and they stay in step. -/
def KeepsStep (p s : Bucket) (e : LocalEvent) : Prop :=
  ∃ r, p.forward s e = .ok r ∧ (r.answer = .ok true → r.passedOn = some (.ok true)) ∧
    r.primary.advisor = p.advisor ∧ InStep r.primary r.secondary

theorem InStep.forward_clear (h : InStep p s) (e : LocalEvent)
    (hop : e.event.operation = .regionClear) : KeepsStep p s e := by
  have hp := apply_clear e.now (h.leads.held e.isLocal) hop
  have hs := apply_clear e.later (h.held_secondary (e := { e.event with remote := true }) rfl) hop
  refine ⟨⟨.ok true, some (.ok true), p.clear.2, s.clear.2⟩, ?_, fun _ => rfl, rfl, h.clear⟩
  simp only [Bucket.forward, hp, hs, bind, Except.bind, pure, Except.pure]

/-- An event without an effect at the primary is not passed on. -/
theorem InStep.forward_void (h : InStep p s) (e : LocalEvent)
    (hop : e.event.operation ≠ .regionClear)
    (heff : e.event.leaves? (p.met e.event.key).token = none) : KeepsStep p s e := by
  obtain ⟨r, c, hr, hnot, hleads, hvec, hmet⟩ := h.leads.forward_skips s e hop heff
  refine ⟨_, hr, fun ht => absurd ht hnot, rfl, h.checked, h.initialized, h.passes, h.primary,
    hleads.own, h.attached, ?_, fun k => (h.met k).trans (hmet k).symm⟩
  obtain ⟨v, u, hv, hu, hsound, hc⟩ := h.vectors
  exact ⟨v, u, hvec.trans hv, hu, hsound, hc⟩

theorem InStep.forward_taken (h : InStep p s) (e : LocalEvent) (hfit : p.copy.Countable) {t : Token}
    (heff : e.event.leaves? (p.met e.event.key).token = some t) : KeepsStep p s e := by
  obtain ⟨v, v', w, ht⟩ := h.leads.takes e.now e.isLocal e.untagged hfit heff
  have hkey : w.event.key = e.event.key := ht.took.sameKey
  obtain ⟨u, u', w', hu, hrec, hw', htook⟩ :=
    h.secondary_takes (e := { w.event with remote := true }) e.now e.later ht.vector ht.fits rfl
      (by rw [hkey]; exact ht.took.tagged) (by rw [hkey]; exact (ht.took.leaves _).trans heff)
  rw [hkey] at htook
  exact ⟨_, ht.forward (h.held_secondary rfl) hw', fun _ => rfl, rfl,
    h.take (d := { w.event with remote := true }) ht hu hrec hkey htook.left⟩

/-- The secondary takes what the primary took, and the two stay in step. -/
theorem InStep.forward (h : InStep p s) (e : LocalEvent) (hfit : p.copy.Countable) :
    KeepsStep p s e := by
  by_cases hop : e.event.operation = .regionClear
  · exact h.forward_clear e hop
  · cases heff : e.event.leaves? (p.met e.event.key).token with
    | none => exact h.forward_void e hop heff
    | some t => exact h.forward_taken e hfit heff

/-- While the versions of the primary fit, every event it takes is taken by the secondary. -/
theorem InStep.forwardAll : ∀ (events : List LocalEvent) {p s : Bucket}, InStep p s →
    (∀ n < events.length, ∀ answers p' s',
      forwardAll (events.take n) p s = .ok (answers, p', s') → p'.copy.Countable) →
    ∃ answers p' s', forwardAll events p s = .ok (answers, p', s') ∧
      (∀ a ∈ answers, a.1 = .ok true → a.2 = some (.ok true)) ∧
      p'.advisor = p.advisor ∧ InStep p' s'
  | [], p, s, h, _ => ⟨[], p, s, rfl, by simp, rfl, h⟩
  | e :: rest, p, s, h, hfit => by
    obtain ⟨r, hr, hans, hadv, hnext⟩ := h.forward e (hfit 0 (Nat.zero_lt_succ _) [] p s rfl)
    obtain ⟨answers, p', s', hrest, hall, hadv', hfin⟩ := hnext.forwardAll rest
      (fun n hn answers p' s' hp => hfit (n + 1) (Nat.succ_lt_succ hn)
        ((r.answer, r.passedOn) :: answers) p' s' (by
          simp only [List.take_succ_cons, Bucket.forwardAll, hr, hp, bind, Except.bind, pure,
            Except.pure]))
    refine ⟨(r.answer, r.passedOn) :: answers, p', s', ?_, fun a ha => ?_, hadv'.trans hadv, hfin⟩
    · simp only [Bucket.forwardAll, hr, hrest, bind, Except.bind, pure, Except.pure]
    · rcases List.mem_cons.1 ha with rfl | ha
      · exact hans
      · exact hall a ha

/-- What shows of a bucket for a key. A placeholder does not. -/
def shown (b : Bucket) (k : Key) : Option Slot :=
  (b.copy.slot? k).filter fun s => s.token != .placeholder

/-- Both buckets show the same, and their vectors have seen the same versions of a member. -/
structure Mirrored (m : Member) (p s : Bucket) : Prop where
  shown : ∀ k, s.shown k = p.shown k
  versions : ∃ v u, p.copy.vector = some v ∧ s.copy.vector = some u ∧
    ∀ n, u.contains m n = v.contains m n

theorem shown_eq_met (b : Bucket) (k : Key) :
    b.shown k = (some (b.met k)).filter fun s => s.token != .placeholder := by
  simp only [shown, met]
  cases b.copy.slot? k <;> rfl

theorem InStep.mirrored (h : InStep p s) : Mirrored p.advisor.member p s where
  shown k := by rw [shown_eq_met, shown_eq_met, h.met]
  versions := by
    obtain ⟨v, u, hv, hu, -, hc⟩ := h.vectors
    exact ⟨v, u, hv, hu, hc⟩

theorem inStep_new (path path' : String) {a a' : Advisor} {attributes attributes' : RegionAttributes}
    (hcc : attributes.concurrencyChecks = true) (hcc' : attributes'.concurrencyChecks = true)
    (hopen : a.gateOpen = true) (hopen' : a'.gateOpen = true) (hhosts : a.hosting = true)
    (hprimary : a.isPrimary = true) :
    InStep (.new path a attributes) (.new path' a' attributes') where
  checked := ⟨hcc, hcc'⟩
  initialized := ⟨hopen, hopen'⟩
  passes := ⟨rfl, rfl⟩
  primary := (leads_new path hcc hopen hhosts hprimary).primary
  own := (leads_new path hcc hopen hhosts hprimary).own
  attached := RegionCopy.attached_empty fun k => rfl
  vectors := by
    refine ⟨{ owner := a.member }, { owner := a'.member }, ?_, ?_, VersionVector.sound_new _,
      fun n => rfl⟩
    · simp only [new, hcc, if_true]
    · simp only [new, hcc', if_true]
  met k := rfl

/-- Of two fresh buckets, the secondary mirrors the primary after any local events: it takes
whatever the primary takes. -/
theorem forwardAll_mirrors (path path' : String) {a a' : Advisor}
    {attributes attributes' : RegionAttributes} (hcc : attributes.concurrencyChecks = true)
    (hcc' : attributes'.concurrencyChecks = true) (hopen : a.gateOpen = true)
    (hopen' : a'.gateOpen = true) (hhosts : a.hosting = true) (hprimary : a.isPrimary = true)
    (events : List LocalEvent)
    (hfit : ∀ n < events.length, ∀ answers p s,
      forwardAll (events.take n) (.new path a attributes) (.new path' a' attributes') =
        .ok (answers, p, s) → p.copy.Countable) :
    ∃ answers p s,
      forwardAll events (.new path a attributes) (.new path' a' attributes') = .ok (answers, p, s) ∧
      (∀ x ∈ answers, x.1 = .ok true → x.2 = some (.ok true)) ∧ Mirrored a.member p s := by
  obtain ⟨answers, p, s, hrun, hall, hadv, hstep⟩ :=
    (inStep_new path path' hcc hcc' hopen hopen' hhosts hprimary).forwardAll events hfit
  refine ⟨answers, p, s, hrun, hall, ?_⟩
  have hm := hstep.mirrored
  rw [hadv] at hm
  exact hm

/-- A key is written, destroyed and created again over its tombstone; then all is cleared. -/
def rewriting : List LocalEvent :=
  [⟨.ofPut "k" "v", 0, 0, rfl, rfl⟩, ⟨.ofDestroy "k", 1, 3, rfl, rfl⟩, ⟨.ofPut "k" "w", 2, 4, rfl, rfl⟩,
    ⟨{ key := "", operation := .regionClear }, 3, 5, rfl, rfl⟩]

/-- One of two hosts of a bucket, where the host at the first port is primary. -/
def hostAt (port : UInt16) : Advisor where
  bucketId := 7
  member := { address := .localhost, port := port }
  state := if port = 1 then .isPrimaryHosting else .otherPrimaryHosting
  hosting := true
  primary := some { address := .localhost, port := 1 }
  gateOpen := true

theorem forwardAll_mirrors_rewriting :
    (hostAt 1).isPrimary = true ∧ (hostAt 2).isPrimary = false ∧ ∃ answers p s,
      forwardAll rewriting (.new "/orders" (hostAt 1) {}) (.new "/orders" (hostAt 2) {}) =
        .ok (answers, p, s) ∧
      (∀ x ∈ answers, x.1 = .ok true → x.2 = some (.ok true)) ∧
      Mirrored (hostAt 1).member p s := by
  refine ⟨rfl, rfl, forwardAll_mirrors "/orders" "/orders" rfl rfl rfl rfl rfl rfl rewriting ?_⟩
  intro n hn answers p s hp v hv
  have hlast : (forwardAll (rewriting.take n) (.new "/orders" (hostAt 1) {})
      (.new "/orders" (hostAt 2) {})).map (fun r => r.2.1.copy.vector.map (·.localVersion)) =
        .ok (some n) := by
    match n, hn with
    | 0, _ | 1, _ | 2, _ | 3, _ => rfl
  simp only [hp, Except.map, hv, Option.map_some, Except.ok.injEq, Option.some.injEq] at hlast
  have hlen : n < 4 := hn
  have hmax : 4 ≤ counterMax := by decide
  omega

end Bucket
end DataGrid
