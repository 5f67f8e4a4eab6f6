import DataGrid.Proofs.Entry.Operations

/-
A copy that only its own member has written. The member gave every stamp there
is, with a version that its vector contains, and gave no version above the
last. So the next version is new, no counter of an entry overtakes that of the
region, and a clear up to the vector leaves nothing.

A copy without a vector qualifies as well, with nothing to say of stamps.
-/

namespace DataGrid

/-- What a vector and a stamp have to do with each other in a copy that only `m` has written. -/
structure VersionStamp.Given (s : VersionStamp) (m : Member) (v : VersionVector) : Prop where
  entryVersion : s.entryVersion ≤ v.localVersion
  member : ∀ m', s.member = some m' → m' = m ∧ v.contains m s.regionVersion = true

theorem VersionStamp.given_unversioned (m : Member) (v : VersionVector) :
    VersionStamp.Given {} m v := ⟨Nat.zero_le _, fun _ h => by cases h⟩

namespace VersionVector

/-- A vector that has seen its owner's versions as far as they were taken. -/
structure Counting (v : VersionVector) : Prop where
  sound : v.Sound
  taken : ∀ w, v.contains v.owner w = true → w ≤ v.localVersion

theorem counting_new (owner : Member) : Counting { owner := owner } := by
  refine ⟨sound_new owner, fun w hw => ?_⟩
  rw [contains_new] at hw
  have hw0 : w = 0 := eq_of_beq hw
  omega

/-- The next version is a new one. -/
theorem Counting.next_new {v : VersionVector} (h : v.Counting) :
    v.contains v.owner (v.localVersion + 1) = false := by
  rw [Bool.eq_false_iff]
  intro hc
  have := h.taken _ hc
  omega

theorem Counting.recorded {v v' : VersionVector} (h : v.Counting)
    (hrec : v.Recorded v.owner (v.localVersion + 1) v') (hl : v'.localVersion = v.localVersion + 1) :
    v'.Counting := by
  refine ⟨hrec.sound, fun w hw => ?_⟩
  rw [hrec.owner, hrec.contains, Bool.or_eq_true, Bool.and_eq_true, beq_iff_eq] at hw
  rcases hw with hw | ⟨-, hw⟩
  · have := h.taken w hw
    omega
  · omega

end VersionVector

namespace RegionCopy

/-- Only `m` has written the copy. -/
structure Own (m : Member) (c : RegionCopy) : Prop where
  attached : c.Attached
  counting : ∀ v, c.vector = some v → v.owner = m ∧ v.Counting
  given : ∀ k s v, c.slot? k = some s → c.vector = some v → s.stamp.Given m v

/-- The next version fits its counter. -/
def Countable (c : RegionCopy) : Prop := ∀ v, c.vector = some v → v.localVersion < counterMax

instance (c : RegionCopy) : Decidable c.Countable :=
  decidable_of_iff ((c.vector.all fun v => v.localVersion < counterMax) = true) (by
    unfold Countable
    cases c.vector <;> simp)

variable {m : Member} {c c' : RegionCopy}

theorem own_new (map : EntryMap) (stats : Stats) (versioned : Bool) (h : map.slots = .empty) :
    Own m ⟨map, if versioned then some { owner := m } else none, stats⟩ := by
  have hslot : ∀ k, RegionCopy.slot?
      ⟨map, if versioned then some { owner := m } else none, stats⟩ k = none := by
    intro k
    simp [RegionCopy.slot?, EntryMap.slot?, EntryMap.entry?, h]
  refine ⟨attached_empty hslot, fun v hv => ?_, fun k s v hs => ?_⟩
  · cases versioned with
    | true =>
      cases hv
      exact ⟨rfl, VersionVector.counting_new m⟩
    | false => cases hv
  · rw [hslot] at hs
    cases hs

/-- The stamp an operation meets is one of the copy, or none. -/
theorem Own.given_met {w : Task} {v : VersionVector} (h : w.copy.Own m)
    (hv : w.copy.vector = some v) : w.met.stamp.Given m v := by
  cases hs : w.copy.slot? w.key with
  | none =>
    rw [Task.met_of_none hs]
    exact VersionStamp.given_unversioned m v
  | some s =>
    rw [Task.met_of_some hs]
    exact h.given _ _ _ hs hv

/-- Losing slots, and gaining placeholders, changes nothing about who wrote the copy. -/
theorem Own.frame (h : c.Own m) (hv : c'.vector = c.vector)
    (hs : ∀ k s, c'.slot? k = some s → c.slot? k = some s ∨ s = ⟨.placeholder, {}⟩) :
    c'.Own m := by
  refine ⟨fun k s hk => ?_, fun v hv' => h.counting v (hv ▸ hv'), fun k s v hk hv' => ?_⟩
  · rcases hs k s hk with hk | rfl
    · exact h.attached k s hk
    · simp
  · rcases hs k s hk with hk | rfl
    · exact h.given k s v hk (hv ▸ hv')
    · exact VersionStamp.given_unversioned m v

theorem Own.swept (h : c.Own m) (hs : Swept c c') : c'.Own m :=
  h.frame hs.vector fun _ _ hk => .inl (hs.of_slot? hk)

/-- A clear up to the vector of the copy takes every entry if the vector has seen every stamp. -/
theorem isCleared_seen (h : c.Attached)
    (hseen : ∀ k s v m', c.slot? k = some s → c.vector = some v → s.stamp.member = some m' →
      v.contains m' s.stamp.regionVersion = true) {k : Key} {e : Entry}
    (he : c.map.entry? k = some e) : isCleared c.vector e = true := by
  have hs : c.slot? k = some e.slot := slot?_eq_some_iff.2 ⟨e, he, rfl⟩
  have hd : e.token.isDetached = false :=
    Bool.eq_false_iff.2 fun hd => h k e.slot hs (Token.isDetached_iff.1 hd)
  simp only [isCleared, hd, Bool.not_false, Bool.true_and]
  split
  next v m' hv hm => exact hseen k e.slot v m' hs hv hm
  next => rfl

/-- A clear up to the vector of the copy leaves nothing if the vector has seen every stamp. -/
theorem slot?_clear_seen (h : c.Attached)
    (hseen : ∀ k s v m', c.slot? k = some s → c.vector = some v → s.stamp.member = some m' →
      v.contains m' s.stamp.regionVersion = true) (k : Key) :
    (c.clear c.vector).2.slot? k = none := by
  rw [slot?_eq_none_iff, entry?_clear]
  cases he : c.map.entry? k with
  | none => rfl
  | some e => simp [Option.filter, isCleared_seen h hseen he]

theorem Own.slot?_clear (h : c.Own m) (k : Key) : (c.clear c.vector).2.slot? k = none := by
  refine slot?_clear_seen h.attached (fun k s v m' hs hv hm => ?_) k
  obtain ⟨rfl, hc⟩ := (h.given k s v hs hv).member m' hm
  exact hc

theorem Own.clear (h : c.Own m) : (c.clear c.vector).2.Own m := by
  refine h.frame (vector_clear c c.vector) fun k s hk => ?_
  rw [h.slot?_clear k] at hk
  cases hk

end RegionCopy

namespace Task

open Rules

variable {m : Member} {rules : Rules} {w w' : Task}

/-- A local operation of the member gets a tag with the next versions. -/
theorem version_own {v : VersionVector} (h : w.copy.Own m) (hc : rules.concurrencyChecks = true)
    (ha : rules.assignTag = nextTag m) (hr : w.event.remote = false) (ht : w.event.tag = none)
    (hv : w.copy.vector = some v) (hl : v.localVersion < counterMax) (now : Int) :
    ∃ v', rules.version w.event w.copy.vector w.met.stamp now =
        .ok (some (localTag m v w.met.stamp now), some v') ∧
      v.Recorded m (v.localVersion + 1) v' ∧ v'.localVersion = v.localVersion + 1 := by
  obtain ⟨howner, hcount⟩ := h.counting v hv
  have hle := (h.given_met hv).entryVersion
  rw [hv]
  exact version_local hc ha hr ht hcount.sound (by rw [howner]; exact Member.same_refl m) hl
    (by omega)

/-- The copy stays the member's own once the operation has taken effect. -/
theorem Left.own {v v' : VersionVector} {s : Option Slot} (now : Int) (h : w.copy.Own m)
    (hv : w.copy.vector = some v)
    (hs : ∀ x, s = some x → x.token ≠ .detached ∧ x.stamp = .ofTag (localTag m v w.met.stamp now))
    (hrec : v.Recorded m (v.localVersion + 1) v') (hl : v'.localVersion = v.localVersion + 1)
    (hleft : w.Left w' s (some v')) : w'.copy.Own m := by
  obtain ⟨rfl, hcount⟩ := h.counting v hv
  have hle := (h.given_met hv).entryVersion
  refine ⟨fun k x hk => ?_, fun u hu => ?_, fun k x u hk hu => ?_⟩
  · rw [hleft.slot] at hk
    split at hk
    · exact (hs x hk).1
    · exact h.attached k x hk
  · rw [hleft.vector] at hu
    cases hu
    exact ⟨hrec.owner, hcount.recorded hrec hl⟩
  · rw [hleft.vector] at hu
    cases hu
    rw [hleft.slot] at hk
    split at hk
    · rw [(hs x hk).2]
      refine ⟨?_, fun m' hm => ?_⟩
      · simp only [VersionStamp.ofTag, localTag]
        omega
      · cases hm
        exact ⟨rfl, hrec.of_contains⟩
    · obtain ⟨hev, hmem⟩ := h.given k x v hk hv
      refine ⟨by omega, fun m' hm => ?_⟩
      obtain ⟨rfl, hc⟩ := hmem m' hm
      exact ⟨rfl, hrec.mono hc⟩

/-- Without a vector any operation leaves the copy its member's own. -/
theorem Left.own_unversioned {s : Option Slot} (h : w.copy.Own m)
    (ht : ∀ x, s = some x → x.token ≠ .detached) (hleft : w.Left w' s none) : w'.copy.Own m := by
  refine ⟨fun k x hk => ?_, fun u hu => ?_, fun k x u hk hu => ?_⟩
  · rw [hleft.slot] at hk
    split at hk
    · exact ht x hk
    · exact h.attached k x hk
  · rw [hleft.vector] at hu
    cases hu
  · rw [hleft.vector] at hu
    cases hu

/-- A local operation goes by some tag, and whatever it leaves with that tag is the member's own.
With versions the tag is valid. -/
theorem version_local_own (h : w.copy.Own m) (ha : rules.assignTag = nextTag m)
    (hvec : w.copy.vector.isSome = rules.concurrencyChecks) (hr : w.event.remote = false)
    (ht : w.event.tag = none) (hfit : w.copy.Countable) (now : Int) :
    ∃ tag vector, rules.version w.event w.copy.vector w.met.stamp now = .ok (tag, vector) ∧
      vector.isSome = rules.concurrencyChecks ∧
      (rules.concurrencyChecks = true → tag.any VersionTag.isValid = true) ∧
      ∀ w' s, (∀ x, s = some x → x.token ≠ .detached ∧ x.stamp = w.met.stamp.after tag) →
        w.Left w' s vector → w'.copy.Own m := by
  cases hv : w.copy.vector with
  | none =>
    have hcc : rules.concurrencyChecks = false := by rw [← hvec, hv]; rfl
    refine ⟨none, none, version_unversioned hcc ht, by rw [hcc]; rfl, fun h => ?_,
      fun w' s hs hleft => hleft.own_unversioned h fun x hx => (hs x hx).1⟩
    rw [hcc] at h
    cases h
  | some v =>
    have hcc : rules.concurrencyChecks = true := by rw [← hvec, hv]; rfl
    obtain ⟨v', hver, hrec, hl⟩ := version_own h hcc ha hr ht hv (hfit v hv) now
    have hvalid := isValid_localTag m v w.met.stamp now
    rw [hv] at hver
    refine ⟨_, _, hver, by rw [hcc]; rfl, fun _ => hvalid, fun w' s hs hleft =>
      hleft.own now h hv (fun x hx => ⟨(hs x hx).1, ?_⟩) hrec hl⟩
    rw [(hs x hx).2, VersionStamp.after_some hvalid]

/-- No version is assigned past the last that the counter has. -/
theorem assignVersion_overflow (ha : rules.assignTag = nextTag m)
    (hvec : w.copy.vector.isSome = rules.concurrencyChecks) (hr : w.event.remote = false)
    (ht : w.event.tag = none) (hfit : ¬ w.copy.Countable) (now : Int) (e : Entry) :
    ∃ err, w.assignVersion rules now e = .error err := by
  cases hv : w.copy.vector with
  | none => exact absurd (fun v h => by rw [hv] at h; cases h) hfit
  | some v =>
    have hcc : rules.concurrencyChecks = true := by rw [← hvec, hv]; rfl
    have hlast : ¬ v.localVersion + 1 ≤ counterMax := fun hle =>
      hfit fun u hu => by
        rw [hv] at hu
        cases hu
        omega
    have hadd : Counter.add v.localVersion 1 = .error .add := by
      simp only [Counter.add, hlast, if_false]
    refine ⟨.add, ?_⟩
    simp [assignVersion, hcc, hr, ht, ha, tell, hv, nextTag, VersionVector.next, hadd, bind,
      Except.bind]

theorem put_overflow {v : Value} (hval : w.event.newValue = some v) (hat : w.copy.Attached)
    (ha : rules.assignTag = nextTag m) (hvec : w.copy.vector.isSome = rules.concurrencyChecks)
    (hr : w.event.remote = false) (ht : w.event.tag = none) (hfit : ¬ w.copy.Countable)
    (now : Int) : ∃ err, w.put rules now {} {} = .error err := by
  obtain ⟨o, w₁, ho, -, -, hevent, hleft⟩ := openOrCreate_eq hat
  have hstale : w₁.isStale rules o.entry = false := by
    rw [isStale_eq, hevent, ht]
    rfl
  obtain ⟨err, herr⟩ := assignVersion_overflow (w := w₁) ha (by rw [hleft.vector, hvec])
    (by rw [hevent, hr]) (by rw [hevent, ht])
    (by simpa only [RegionCopy.Countable, hleft.vector] using hfit) now o.entry
  refine ⟨err, ?_⟩
  simp only [put, hval, ho, putRefused_default, hstale, herr, Bool.false_eq_true, if_false, bind,
    Except.bind]

theorem destroy_overflow {s : Slot} (hat : w.copy.Attached) (hs : w.copy.slot? w.key = some s)
    (hlive : s.token.isRemoved = false) (ha : rules.assignTag = nextTag m)
    (hvec : w.copy.vector.isSome = rules.concurrencyChecks) (hr : w.event.remote = false)
    (ht : w.event.tag = none) (hfit : ¬ w.copy.Countable) (now : Int) :
    ∃ err, w.destroy rules now {} {} = .error err := by
  obtain ⟨e, ho, hes⟩ := openExisting_present hat hs
  have htok : e.token = s.token := congrArg Slot.token hes
  have hstale : w.isStale rules e = false := by
    rw [isStale_eq, ht]
    rfl
  obtain ⟨err, herr⟩ := assignVersion_overflow ha hvec hr ht hfit now e
  refine ⟨err, ?_⟩
  simp only [destroy, hr, Bool.or_self, Bool.and_false, open_eq, Bool.false_eq_true, if_false, ho,
    htok, hlive, destroyLive, Option.isSome_none, Bool.false_and, hstale, herr, bind, Except.bind]

end Task
end DataGrid
