import DataGrid.Proofs.Bucket.Mirror
import DataGrid.Proofs.Entry.Known

/-
What a bucket makes of the events it receives from other members, whichever
operations they ask for and whether the bucket is initialized or not. An event
with a version either leaves its tag on its key, and then its version is
recorded (`Stamped`), or it has no effect, except that an eviction may leave a
placeholder (`Hollowed`).

In both cases the vector goes on having seen every stamp there is (`Seen`). This
is why a clear up to the vector leaves nothing.
-/

namespace DataGrid

namespace RegionCopy

/-- The vector has seen every version that a slot is stamped with, and no entry is detached. -/
structure Seen (c : RegionCopy) : Prop extends c.Known where
  attached : c.Attached

/-- At most placeholders were put for absent keys. -/
structure Hollowed (c c' : RegionCopy) : Prop where
  vector : c'.vector = c.vector
  slot : ∀ k, c'.slot? k = c.slot? k ∨
    (c.slot? k = none ∧ c'.slot? k = some ⟨.placeholder, {}⟩)

/-- A key was given a token stamped with a tag, and the version of the tag was recorded. -/
structure Stamped (c c' : RegionCopy) (k : Key) (t : VersionTag) : Prop where
  vector : ∃ v v', c.vector = some v ∧ c'.vector = some v' ∧
    v.Recorded t.member t.regionVersion v'
  slot : ∃ token : Token, token ≠ .detached ∧
    ∀ k', c'.slot? k' = if k' = k then some ⟨token, .ofTag t⟩ else c.slot? k'

variable {c c' : RegionCopy}

theorem seen_new (map : EntryMap) (stats : Stats) (m : Member) (versioned : Bool)
    (h : map.slots = .empty) :
    Seen ⟨map, if versioned then some { owner := m } else none, stats⟩ :=
  ⟨known_new map stats m versioned h, (own_new (m := m) map stats versioned h).attached⟩

/-- Slots may go, and placeholders come. -/
theorem Seen.frame (h : c.Seen) (hv : c'.vector = c.vector)
    (hs : ∀ k s, c'.slot? k = some s → c.slot? k = some s ∨ s = ⟨.placeholder, {}⟩) :
    c'.Seen := by
  refine ⟨h.grow (hv ▸ h.grows_self) fun k s m hk hm => ?_, fun k s hk => ?_⟩
  · rcases hs k s hk with hk | rfl
    · exact ⟨s, hk, rfl⟩
    · cases hm
  · rcases hs k s hk with hk | rfl
    · exact h.attached k s hk
    · simp

theorem Hollowed.refl (c : RegionCopy) : c.Hollowed c := ⟨rfl, fun _ => .inl rfl⟩

theorem Hollowed.of_slot? (h : c.Hollowed c') {k : Key} {s : Slot} (hk : c'.slot? k = some s) :
    c.slot? k = some s ∨ s = ⟨.placeholder, {}⟩ := by
  rcases h.slot k with heq | ⟨-, heq⟩
  · exact .inl (heq ▸ hk)
  · rw [heq] at hk
    cases hk
    exact .inr rfl

theorem Seen.hollowed (h : c.Seen) (hh : c.Hollowed c') : c'.Seen :=
  h.frame hh.vector fun _ _ hk => hh.of_slot? hk

theorem Seen.swept (h : c.Seen) (hs : Swept c c') : c'.Seen :=
  h.frame hs.vector fun _ _ hk => .inl (hs.of_slot? hk)

theorem Seen.slot?_clear (h : c.Seen) (k : Key) : (c.clear c.vector).2.slot? k = none :=
  slot?_clear_seen h.attached h.stamps k

theorem Seen.clear (h : c.Seen) : (c.clear c.vector).2.Seen :=
  ⟨h.toKnown.clear c.vector, fun k _ hk => nomatch (h.slot?_clear k).symm.trans hk⟩

theorem Seen.stamped (h : c.Seen) {k : Key} {t : VersionTag} (hs : c.Stamped c' k t) :
    c'.Seen := by
  obtain ⟨v, v', hv, hv', hrec⟩ := hs.vector
  obtain ⟨token, htok, hslot⟩ := hs.slot
  refine ⟨⟨fun u hu => ?_, fun k' s u m hk hu hm => ?_⟩, fun k' s hk => ?_⟩
  · rw [hv'] at hu
    cases hu
    exact hrec.sound
  · rw [hv'] at hu
    cases hu
    rw [hslot] at hk
    split at hk
    · cases hk
      cases hm
      exact hrec.of_contains
    · exact hrec.mono (h.stamps k' s v m hk hv hm)
  · rw [hslot] at hk
    split at hk
    · cases hk
      exact htok
    · exact h.attached k' s hk

end RegionCopy

namespace Task

open RegionCopy

theorem Unchanged.hollowed {w w' : Task} (h : w.Unchanged w') : w.copy.Hollowed w'.copy :=
  ⟨h.vector, fun k => .inl (h.slot k)⟩

/-- A received operation with a tag is answered, and either leaves its tag or has no effect. -/
def Settles (w : Task) (t : VersionTag) (done : Checked (Applied × Task)) : Prop :=
  ∃ r w', done = .ok (r, w') ∧
    ((r ≠ .ok true ∧ w.copy.Hollowed w'.copy) ∨ w.copy.Stamped w'.copy w.key t)

/-- A received operation is answered without effect. -/
def Refused (w : Task) (done : Checked (Applied × Task)) : Prop :=
  ∃ r w', done = .ok (r, w') ∧ r ≠ .ok true ∧ w.Unchanged w'

theorem Refused.settles {w : Task} {done : Checked (Applied × Task)} (h : w.Refused done)
    (t : VersionTag) : w.Settles t done := by
  obtain ⟨r, w', hdone, hr, hun⟩ := h
  exact ⟨r, w', hdone, .inl ⟨hr, hun.hollowed⟩⟩

variable {rules : Rules} (now : Int) {w : Task} {t : VersionTag}

/-! ## Stale operations -/

theorem put_refused (ha : w.copy.Attached)
    (hst : rules.stale w.event.tag w.copy.vector w.met = true) :
    w.Refused (w.put rules now {} {}) := by
  cases hval : w.event.newValue with
  | none => exact ⟨_, w, put_valueless now hval, by simp, .refl w⟩
  | some x =>
    obtain ⟨w', hw, hun⟩ := put_stale now hval ha hst
    exact ⟨_, w', hw, by simp, hun⟩

theorem invalidate_stale (ha : w.copy.Attached)
    (hst : rules.stale w.event.tag w.copy.vector w.met = true) :
    w.Refused (w.invalidate rules now false false {}) := by
  cases hi : rules.initialized with
  | true => exact invalidate_refused now ha hi (.inr (.inr hst))
  | false =>
    obtain ⟨w', hw, hun⟩ := invalidate_unready_refused now ha hi (.inr hst)
    exact ⟨_, w', hw, by simp, hun⟩

theorem destroy_refused (ha : w.copy.Attached) (hcc : rules.concurrencyChecks = true)
    (hr : w.event.remote = true)
    (hst : rules.stale w.event.tag w.copy.vector w.met = true) :
    w.Refused (w.destroy rules now {} {}) := by
  obtain ⟨w', hw, hun⟩ := destroy_stale now {} ha rfl rfl hcc hr hst
  exact ⟨_, w', hw, by simp, hun⟩

/-! ## Any operation -/

/-- A copy that can be told of an operation received with the tag. -/
structure Receives (w : Task) (rules : Rules) (t : VersionTag) : Prop where
  checked : rules.concurrencyChecks = true
  attached : w.copy.Attached
  vector : ∃ v, w.copy.vector = some v ∧ v.Sound
  remote : w.event.remote = true
  tagged : w.event.tag = some t
  valid : t.isValid = true
  fits : t.regionVersion ≤ counterMax

/-- The operation goes by its tag. -/
theorem Receives.version (h : w.Receives rules t) :
    ∃ v v', w.copy.vector = some v ∧ v.Recorded t.member t.regionVersion v' ∧
      Rules.recorded w.event.tag w.copy.vector = .ok (some v') ∧
      ∀ stamp, rules.version w.event w.copy.vector stamp now = .ok (some t, some v') := by
  obtain ⟨v, hv, hsound⟩ := h.vector
  obtain ⟨v', hrec, hrecorded⟩ := Rules.recorded_eq hsound h.fits
  have hrec' : Rules.recorded w.event.tag w.copy.vector = .ok (some v') := by
    rw [h.tagged, hv, hrec]
  refine ⟨v, v', hv, hrecorded, hrec', fun stamp => ?_⟩
  rw [Rules.version_remote h.remote hrec', h.tagged]

theorem Left.stamped {w' : Task} {v v' : VersionVector} {token : Token}
    (hleft : w.Left w' (some ⟨token, .ofTag t⟩) (some v')) (htok : token ≠ .detached)
    (hv : w.copy.vector = some v) (hrec : v.Recorded t.member t.regionVersion v') :
    w.copy.Stamped w'.copy w.key t :=
  ⟨⟨v, v', hv, hleft.vector, hrec⟩, token, htok, hleft.slot⟩

theorem put_settles (h : w.Receives rules t) : w.Settles t (w.put rules now {} {}) := by
  cases hval : w.event.newValue with
  | none => exact ⟨_, w, put_valueless now hval, .inl ⟨by simp, .refl _⟩⟩
  | some x =>
    cases hst : rules.stale w.event.tag w.copy.vector w.met with
    | true => exact (put_refused now h.attached hst).settles t
    | false =>
      obtain ⟨v, v', hv, hrec, -, hver⟩ := h.version now
      obtain ⟨w', hw, -, hleft⟩ := put_fresh now hval h.attached hst (hver _)
      rw [VersionStamp.after_some h.valid] at hleft
      exact ⟨_, w', hw, .inr (hleft.stamped (by simp) hv hrec)⟩

theorem invalidate_settles (h : w.Receives rules t) :
    w.Settles t (w.invalidate rules now false false {}) := by
  cases hst : rules.stale w.event.tag w.copy.vector w.met with
  | true => exact (invalidate_stale now h.attached hst).settles t
  | false =>
    obtain ⟨v, v', hv, hrec, -, hver⟩ := h.version now
    cases hi : rules.initialized with
    | true =>
      by_cases hvoid : w.met.token.isRemoved = true ∨ w.met.token.isInvalid = true
      · exact Refused.settles
          (invalidate_refused now h.attached hi (hvoid.imp_right .inl)) t
      · obtain ⟨hlive, hvalid⟩ := not_or.1 hvoid
        rw [Bool.not_eq_true] at hlive hvalid
        cases hs : w.copy.slot? w.key with
        | none =>
          rw [met_of_none hs] at hlive
          cases hlive
        | some s =>
          rw [met_of_some hs] at hlive hvalid hst
          obtain ⟨w', hw, -, hleft⟩ :=
            invalidate_fresh now h.attached hi hs hlive hvalid hst (hver _)
          rw [VersionStamp.after_some h.valid] at hleft
          exact ⟨_, w', hw, .inr (hleft.stamped (invalidMark_ne _) hv hrec)⟩
    | false =>
      cases hinv : w.met.token.isInvalid with
      | true =>
        obtain ⟨w', hw, hun⟩ := invalidate_unready_refused now h.attached hi (.inl hinv)
        exact ⟨_, w', hw, .inl ⟨by simp, hun.hollowed⟩⟩
      | false =>
        obtain ⟨r, w', hw, -, hleft⟩ :=
          invalidate_unready_fresh now h.attached hi hinv hst (hver _)
        rw [VersionStamp.after_some h.valid] at hleft
        exact ⟨r, w', hw, .inr (hleft.stamped (invalidMark_ne _) hv hrec)⟩

/-- A received destroy of a present key leaves a tombstone, whether or not it evicts. -/
theorem destroy_live_settles (h : w.Receives rules t) (options : DestroyOptions)
    (hx : options.expectedOldValue = none) (hd : options.removeRecovered = false)
    (hlive : w.met.token.isRemoved = false)
    (hst : rules.stale w.event.tag w.copy.vector w.met = false) :
    w.Settles t (w.destroy rules now {} options) := by
  obtain ⟨v, v', hv, hrec, -, hver⟩ := h.version now
  cases hs : w.copy.slot? w.key with
  | none =>
    rw [met_of_none hs] at hlive
    cases hlive
  | some s =>
    rw [met_of_some hs] at hlive hst
    obtain ⟨w', hw, -, hleft⟩ :=
      destroy_fresh now options h.attached hx hd hs hlive hst (hver _)
    simp only [buried, h.checked, Option.any_some, h.valid, Bool.and_self, if_true,
      VersionStamp.after_some h.valid] at hleft
    exact ⟨_, w', hw, .inr (hleft.stamped (by simp) hv hrec)⟩

theorem destroy_settles (h : w.Receives rules t) : w.Settles t (w.destroy rules now {} {}) := by
  cases hst : rules.stale w.event.tag w.copy.vector w.met with
  | true => exact (destroy_refused now h.attached h.checked h.remote hst).settles t
  | false =>
    cases hrem : w.met.token.isRemoved with
    | true =>
      obtain ⟨v, v', hv, hrec, hrecorded, -⟩ := h.version now
      obtain ⟨w', hw, -, hleft⟩ := destroy_absent_fresh now {} h.attached rfl h.checked h.remote
        h.tagged h.valid hrem hst hrecorded
      exact ⟨_, w', hw, .inr (hleft.stamped (by simp) hv hrec)⟩
    | false => exact destroy_live_settles now h {} rfl rfl hrem hst

theorem evict_settles (h : w.Receives rules t) :
    w.Settles t (w.destroy rules now {} .eviction) := by
  cases hrem : w.met.token.isRemoved with
  | true =>
    obtain ⟨w', hw, hvec, hslot⟩ := evict_missing now .eviction h.attached rfl hrem
    exact ⟨_, w', hw, .inl ⟨by simp, hvec, hslot⟩⟩
  | false =>
    cases hst : rules.stale w.event.tag w.copy.vector w.met with
    | true =>
      obtain ⟨w', hw, hun⟩ := evict_stale now .eviction h.attached rfl rfl h.checked hrem hst
      exact ⟨_, w', hw, .inl ⟨by simp, hun.hollowed⟩⟩
    | false => exact destroy_live_settles now h .eviction rfl rfl hrem hst

end Task

namespace Bucket

variable {b : Bucket} {e : EntryEvent} {t : VersionTag} (now : Int)

theorem applyToEntry_settles (h : Task.Receives ⟨b.copy, e, []⟩ b.rules t)
    (hop : e.operation ≠ .regionClear) :
    ∃ done, b.applyToEntry now e = some done ∧ Task.Settles ⟨b.copy, e, []⟩ t done := by
  unfold applyToEntry
  cases ho : e.operation with
  | create | update => exact ⟨_, rfl, Task.put_settles now h⟩
  | invalidate | localInvalidate => exact ⟨_, rfl, Task.invalidate_settles now h⟩
  | destroy => exact ⟨_, rfl, Task.destroy_settles now h⟩
  | evict => exact ⟨_, rfl, Task.evict_settles now h⟩
  | regionClear => exact absurd ho hop

theorem applyToEntry_refused (h : Task.Receives ⟨b.copy, e, []⟩ b.rules t)
    (hop : e.operation ≠ .regionClear) (hevict : e.operation ≠ .evict)
    (hst : b.rules.stale (some t) b.copy.vector (b.met e.key) = true) :
    ∃ done, b.applyToEntry now e = some done ∧ Task.Refused ⟨b.copy, e, []⟩ done := by
  have hst' : b.rules.stale e.tag b.copy.vector (b.met e.key) = true := by
    rw [show e.tag = some t from h.tagged, hst]
  unfold applyToEntry
  cases ho : e.operation with
  | create | update => exact ⟨_, rfl, Task.put_refused now h.attached hst'⟩
  | invalidate | localInvalidate => exact ⟨_, rfl, Task.invalidate_stale now h.attached hst'⟩
  | destroy => exact ⟨_, rfl, Task.destroy_refused now h.attached h.checked h.remote hst'⟩
  | evict => exact absurd ho hevict
  | regionClear => exact absurd ho hop

end Bucket
end DataGrid
