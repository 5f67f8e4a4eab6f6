import DataGrid.Proofs.Entry.Operations

/-
The vector of a copy has seen every version that an entry is stamped with
(`RegionCopy.Known`), and no operation ends that, whoever asks for it and with
whatever tag: an operation that stamps an entry records the same tag next. So a
clear up to the vector takes every entry that is present.

Nothing is assumed of the entries, and an operation that overflows a counter
leaves no copy to speak of.
-/

namespace DataGrid

open Rules

namespace RegionCopy

/-- The vector has seen every version that there is. -/
structure Known (c : RegionCopy) : Prop where
  sound : ∀ v, c.vector = some v → v.Sound
  stamps : ∀ k s v m, c.slot? k = some s → c.vector = some v → s.stamp.member = some m →
    v.contains m s.stamp.regionVersion = true

/-- The second vector has seen what the first has. -/
def Grows (vector vector' : Option VersionVector) : Prop :=
  ∀ v', vector' = some v' → v'.Sound ∧
    ∃ v, vector = some v ∧ ∀ m w, v.contains m w = true → v'.contains m w = true

/-- A region version that the counter can hold. -/
def Fits (tag : Option VersionTag) : Prop := ∀ t, tag = some t → t.regionVersion ≤ counterMax

theorem fits_none : Fits none := fun _ h => (nomatch h)

variable {c c' : RegionCopy} {tag : Option VersionTag}

theorem known_new (map : EntryMap) (stats : Stats) (m : Member) (versioned : Bool)
    (h : map.slots = .empty) :
    Known ⟨map, if versioned then some { owner := m } else none, stats⟩ := by
  refine ⟨fun v hv => ?_, fun k s v m' hs => ?_⟩
  · cases versioned with
    | true =>
      cases hv
      exact VersionVector.sound_new m
    | false => cases hv
  · simp [slot?, EntryMap.slot?, EntryMap.entry?, h] at hs

theorem Known.grows_self (h : c.Known) : Grows c.vector c.vector := fun v hv =>
  ⟨h.sound v hv, v, hv, fun _ _ hc => hc⟩

/-- Slots may go, or lose their stamps, while the vector grows. -/
theorem Known.grow (h : c.Known) (hv : Grows c.vector c'.vector)
    (hs : ∀ k s m, c'.slot? k = some s → s.stamp.member = some m →
      ∃ s', c.slot? k = some s' ∧ s'.stamp = s.stamp) : c'.Known := by
  refine ⟨fun v hv' => (hv v hv').1, fun k s v m hk hv' hm => ?_⟩
  obtain ⟨-, u, hu, hmono⟩ := hv v hv'
  obtain ⟨s', hs', hstamp⟩ := hs k s m hk hm
  rw [← hstamp] at hm ⊢
  exact hmono _ _ (h.stamps k s' u m hs' hu hm)

theorem Known.sameSlots (h : c.Known) (hv : Grows c.vector c'.vector)
    (hs : ∀ k, c'.slot? k = c.slot? k) : c'.Known :=
  h.grow hv fun k s _ hk _ => ⟨s, by rw [← hs, hk], rfl⟩

theorem Known.detach (h : c.Known) (k : Key) : (c.detach k).Known := by
  refine h.grow h.grows_self fun k' s _ hk _ => ?_
  rw [slot?_detach] at hk
  split at hk
  · cases hk
  · exact ⟨s, hk, rfl⟩

theorem slot?_dropDetached (c : RegionCopy) (k k' : Key) :
    (c.dropDetached k).slot? k' = c.slot? k' ∨ (c.dropDetached k).slot? k' = none := by
  unfold RegionCopy.dropDetached
  split
  · split
    · simp only [slot?, EntryMap.slot?, EntryMap.entry?]
      by_cases hk : compare k' k = .eq
      · right
        rw [OrdMap.find?_congr _ hk, OrdMap.find?_erase_self]
        rfl
      · left
        rw [OrdMap.find?_erase_other _ hk]
    · exact .inl rfl
  · exact .inl rfl

theorem Known.dropDetached (h : c.Known) (k : Key) : (c.dropDetached k).Known := by
  refine h.grow (c.vector_dropDetached k ▸ h.grows_self) fun k' s _ hk _ => ?_
  rcases slot?_dropDetached c k k' with heq | hnone
  · exact ⟨s, by rw [← heq, hk], rfl⟩
  · rw [hnone] at hk
    cases hk

/-- A token without a tag keeps the stamp that its key had. -/
theorem Known.write_untagged (h : c.Known) (k : Key) (t : Token) : (c.write k t none).Known := by
  refine h.grow h.grows_self fun k' s m hk hm => ?_
  rw [slot?_write] at hk
  split at hk
  next he =>
    subst he
    cases hk
    cases hs : c.slot? k' with
    | none =>
      rw [hs] at hm
      cases hm
    | some s' => exact ⟨s', rfl, rfl⟩
  next => exact ⟨s, hk, rfl⟩

/-- Recording a tag loses no version, and the tag is among them then. -/
theorem grows_recorded (hsound : ∀ v, c.vector = some v → v.Sound) (hfits : Fits tag)
    {vector : Option VersionVector} (h : Rules.recorded tag c.vector = .ok vector) :
    Grows c.vector vector ∧ ∀ v t, vector = some v → tag = some t →
      v.contains t.member t.regionVersion = true := by
  cases hv : c.vector with
  | none =>
    rw [hv] at h
    have hnone : vector = none := by
      cases tag <;> cases h <;> rfl
    subst hnone
    exact ⟨fun _ h => (nomatch h), fun _ _ h => (nomatch h)⟩
  | some v =>
    have hv' := hsound v hv
    cases tag with
    | none =>
      rw [hv] at h
      cases h
      exact ⟨fun u hu => by
        cases hu
        exact ⟨hv', v, rfl, fun _ _ hc => hc⟩, fun _ _ _ h => (nomatch h)⟩
    | some t =>
      have hn : t.regionVersion ≤ counterMax := hfits t rfl
      obtain ⟨u, hu, hrec⟩ := recorded_eq hv' hn
      rw [hv, hu] at h
      cases h
      refine ⟨fun u' hu' => ?_, fun u' t' hu' ht' => ?_⟩
      · cases hu'
        exact ⟨hrec.sound, v, rfl, fun _ _ hc => hrec.mono hc⟩
      · cases hu'
        cases ht'
        exact hrec.of_contains

theorem Known.recordTag (h : c.Known) (hfits : Fits tag) (hrec : c.recordTag tag = .ok c') :
    c'.Known := by
  rw [recordTag_eq] at hrec
  cases hr : Rules.recorded tag c.vector with
  | error e =>
    rw [hr] at hrec
    cases hrec
  | ok vector =>
    rw [hr] at hrec
    cases hrec
    exact h.sameSlots (grows_recorded h.sound hfits hr).1 fun _ => rfl

/-- An entry is stamped with a tag, and then the tag is recorded. -/
theorem Known.commit (h : c.Known) (hfits : Fits tag) {k : Key} {t : Token}
    (hrec : (c.write k t tag).recordTag tag = .ok c') : c'.Known := by
  rw [recordTag_eq] at hrec
  have hvec : (c.write k t tag).vector = c.vector := rfl
  cases hr : Rules.recorded tag c.vector with
  | error e =>
    rw [hvec, hr] at hrec
    cases hrec
  | ok vector =>
    rw [hvec, hr] at hrec
    cases hrec
    obtain ⟨hgrows, htag⟩ := grows_recorded h.sound hfits hr
    refine ⟨fun v hv => (hgrows v hv).1, fun k' s v m hk hv hm => ?_⟩
    obtain ⟨-, u, hu, hmono⟩ := hgrows v hv
    have hslot := slot?_write c k k' t tag
    rw [show (c.write k t tag).slot? k' = some s from hk] at hslot
    split at hslot
    next he =>
      subst he
      cases hslot
      -- the stamp is that of the tag, or what it was before
      cases tag with
      | none =>
        cases hs : c.slot? k' with
        | none =>
          rw [hs] at hm
          cases hm
        | some s' =>
          rw [hs] at hm
          exact hmono _ _ (h.stamps k' s' u m hs hu hm)
      | some tag =>
        simp only [VersionStamp.after] at hm ⊢
        split at hm
        next hvalid =>
          rw [if_pos hvalid]
          cases hm
          exact htag v tag hv rfl
        next hvalid =>
          rw [if_neg hvalid]
          cases hs : c.slot? k' with
          | none =>
            rw [hs] at hm
            cases hm
          | some s' =>
            rw [hs] at hm
            exact hmono _ _ (h.stamps k' s' u m hs hu hm)
    next => exact hmono _ _ (h.stamps k' s u m hslot.symm hu hm)

/-- Of what a clear up to the vector leaves nothing is present. -/
theorem Known.slot?_clear (h : c.Known) {k : Key} {s : Slot}
    (hk : (c.clear c.vector).2.slot? k = some s) : s.token = .detached := by
  obtain ⟨e, he, rfl, hkept⟩ := slot?_clear_eq_some hk
  cases hd : e.token.isDetached with
  | true => exact Token.isDetached_iff.1 hd
  | false =>
    have hcl : isCleared c.vector e = true := by
      simp only [isCleared, hd, Bool.not_false, Bool.true_and]
      split
      next v m hv hm => exact h.stamps k e.slot v m (slot?_eq_some_iff.2 ⟨e, he, rfl⟩) hv hm
      next => rfl
    rw [hcl] at hkept
    cases hkept

theorem Known.clear (h : c.Known) (upTo : Option VersionVector) : (c.clear upTo).2.Known :=
  h.grow (vector_clear c upTo ▸ h.grows_self) fun _ s _ hk _ => ⟨s, of_slot?_clear hk, rfl⟩

theorem Known.swept (h : c.Known) (hs : Swept c c') : c'.Known :=
  h.grow (hs.vector ▸ h.grows_self) fun _ s _ hk _ => ⟨s, hs.of_slot? hk, rfl⟩

end RegionCopy

/-! ## Operations on entries -/

/-- Operations get versions from the vector, and leave them in it. -/
def Rules.Counts (rules : Rules) : Prop :=
  ∀ vector stamp now tag vector', (∀ v, vector = some v → v.Sound) →
    rules.assignTag vector stamp now = .ok (tag, vector') →
      RegionCopy.Grows vector vector' ∧ RegionCopy.Fits tag

theorem Rules.counts_nextTag {rules : Rules} {m : Member} (h : rules.assignTag = nextTag m) :
    rules.Counts := by
  intro vector stamp now tag vector' hsound hassign
  rw [h] at hassign
  cases vector with
  | none =>
    cases hassign
    exact ⟨fun _ h => (nomatch h), RegionCopy.fits_none⟩
  | some v =>
    obtain ⟨⟨n, v'⟩, hnext, hassign⟩ := bind_ok hassign
    obtain ⟨t, htag, hassign⟩ := bind_ok hassign
    cases hassign
    obtain ⟨-, hle, hrec⟩ := VersionVector.of_next (hsound v rfl) hnext
    refine ⟨fun u hu => ?_, fun t' ht' => ?_⟩
    · cases hu
      exact ⟨hrec.sound, v, rfl, fun _ _ hc => hrec.mono hc⟩
    · cases ht'
      obtain ⟨entryVersion, -, htag⟩ := bind_ok htag
      cases htag
      exact hle

namespace Task

open RegionCopy

/-- The copy is known to its vector, and the tag of the event can be recorded. -/
structure Fine (w : Task) : Prop where
  known : w.copy.Known
  fits : Fits w.event.tag

variable {rules : Rules} {w w' : Task} {o : Opened} {r : Applied} {now : Int}

theorem Fine.mapStats (h : w.Fine) (f : Stats → Stats) : (w.mapStats f).Fine :=
  ⟨h.known.sameSlots h.known.grows_self fun _ => rfl, h.fits⟩

theorem Fine.countReplaced (h : w.Fine) (old : Token) : (w.countReplaced old).Fine := h.mapStats _

theorem Fine.detach (h : w.Fine) : (w.mapCopy (·.detach w.key)).Fine :=
  ⟨h.known.detach _, h.fits⟩

theorem Fine.refuse (h : w.Fine) (o : Opened) : (w.refuse o).2.Fine := by
  unfold Task.refuse
  split
  · exact h.detach
  · exact h

theorem Fine.refuseStale (h : w.Fine) (o : Opened) : (w.refuseStale o).2.Fine :=
  (h.mapStats _).refuse o

theorem Fine.missing (h : w.Fine) (rules : Rules) : (w.missing rules).2.Fine := by
  simp only [Task.missing]
  split
  · exact ⟨h.known, h.fits⟩
  · exact ⟨h.known, h.fits⟩

theorem Fine.openOrCreate (h : w.Fine) : w.openOrCreate.2.Fine := by
  have hdropped : (w.mapCopy (·.dropDetached w.key)).Fine := ⟨h.known.dropDetached _, h.fits⟩
  simp only [Task.openOrCreate]
  split
  · exact hdropped
  · exact ⟨hdropped.known.write_untagged _ _, h.fits⟩

theorem Fine.open_ (h : w.Fine) (create : Bool) : (w.open_ create).2.Fine := by
  unfold Task.open_
  split
  · exact h.openOrCreate
  · exact ⟨h.known.dropDetached _, h.fits⟩

theorem Fine.assignVersion (h : w.Fine) (hr : Rules.Counts rules) {e : Entry}
    (hok : w.assignVersion rules now e = .ok w') : w'.Fine := by
  unfold Task.assignVersion at hok
  split at hok
  · cases ha : rules.assignTag w.copy.vector e.stamp now with
    | error err =>
      simp only [Task.tell, ha, bind, Except.bind] at hok
      cases hok
    | ok p =>
      obtain ⟨hgrows, hfits⟩ := hr _ _ _ p.1 p.2 h.known.sound ha
      simp only [Task.tell, ha, bind, Except.bind, pure, Except.pure] at hok
      cases hok
      exact ⟨h.known.sameSlots hgrows fun _ => rfl, hfits⟩
  · cases hok
    exact h

theorem Fine.recordVersion (h : w.Fine) (hok : w.recordVersion = .ok w') : w'.Fine := by
  obtain ⟨c, hrec, hw⟩ := bind_ok hok
  cases hw
  exact ⟨h.known.recordTag h.fits hrec, h.fits⟩

theorem Fine.write_recordVersion (h : w.Fine) {t : Token}
    (hok : (w.write t).recordVersion = .ok w') : w'.Fine := by
  obtain ⟨c, hrec, hw⟩ := bind_ok hok
  cases hw
  exact ⟨h.known.commit h.fits hrec, h.fits⟩

theorem Fine.commitPut (h : w.Fine) {e : Entry} {v : Value} (hok : w.commitPut e v = .ok w') :
    w'.Fine := by
  refine write_recordVersion ?_ hok
  exact ⟨h.known, h.fits⟩

theorem Fine.commitInvalidate (h : w.Fine) {e : Entry} (hok : w.commitInvalidate e = .ok w') :
    w'.Fine := by
  refine write_recordVersion ?_ hok
  exact ⟨h.known, h.fits⟩

theorem Fine.bury (h : w.Fine) {old : Token} (hok : w.bury now old = .ok w') : w'.Fine := by
  obtain ⟨w₁, hrec, hw⟩ := bind_ok hok
  cases hw
  have hrecorded := h.write_recordVersion hrec
  exact ⟨hrecorded.known.sameSlots hrecorded.known.grows_self fun _ => rfl, hrecorded.fits⟩

/-- An answer that was there without a version. -/
theorem Fine.of_answer {p : Applied × Task} (h : p.2.Fine)
    (hok : (.ok p : Checked (Applied × Task)) = .ok (r, w')) : w'.Fine := by
  cases hok
  exact h

theorem Fine.put (h : w.Fine) (hr : rules.Counts) (options : PutOptions) (config : OperationConfig)
    (hok : w.put rules now options config = .ok (r, w')) : w'.Fine := by
  unfold Task.put at hok
  split at hok
  · exact of_answer h hok
  · have hopened := h.openOrCreate
    generalize w.openOrCreate = p at hok hopened
    obtain ⟨o, w₁⟩ := p
    simp only at hok hopened
    split at hok
    · exact of_answer (hopened.refuse o) hok
    · split at hok
      · exact of_answer (hopened.refuseStale o) hok
      · obtain ⟨w₂, hassign, hok⟩ := bind_ok hok
        obtain ⟨w₃, hcommit, hok⟩ := bind_ok hok
        have hcommitted :=
          ((hopened.assignVersion hr hassign).commitPut hcommit).countReplaced o.entry.token
        refine of_answer (Fine.mapStats ?_ _) hok
        exact ⟨hcommitted.known, hcommitted.fits⟩

theorem Fine.tellInvalidateCallbacks (h : w.Fine) (config : OperationConfig) (wanted : Bool) :
    (w.tellInvalidateCallbacks config wanted).Fine := by
  unfold Task.tellInvalidateCallbacks
  split
  · exact ⟨h.known, h.fits⟩
  · exact h

theorem Fine.invalidate (h : w.Fine) (hr : rules.Counts) (forceNewEntry forceCallbacks : Bool)
    (config : OperationConfig)
    (hok : w.invalidate rules now forceNewEntry forceCallbacks config = .ok (r, w')) :
    w'.Fine := by
  have hopened := h.open_ (forceNewEntry || !rules.initialized || config.duringInitialImage)
  unfold Task.invalidate at hok
  simp only at hok
  split at hok
  next w₁ heq =>
    rw [heq] at hopened
    exact of_answer ((hopened.tellInvalidateCallbacks config _).missing rules) hok
  next o w₁ heq =>
    rw [heq] at hopened
    split at hok
    · exact of_answer (hopened.tellInvalidateCallbacks config _) hok
    · split at hok
      · exact of_answer ((hopened.tellInvalidateCallbacks config _).missing rules) hok
      · split at hok
        · exact of_answer (hopened.refuseStale o) hok
        · obtain ⟨w₂, hassign, hok⟩ := bind_ok hok
          obtain ⟨w₃, hcommit, hok⟩ := bind_ok hok
          have hcommitted := ((hopened.assignVersion hr hassign).commitInvalidate
            hcommit).countReplaced o.entry.token
          split at hok
          · exact of_answer (hcommitted.tellInvalidateCallbacks config _) hok
          · refine of_answer (Fine.mapStats ?_ _) hok
            exact ⟨hcommitted.known, hcommitted.fits⟩

theorem Fine.finishDestroy (h : w.Fine) (config : OperationConfig) (options : DestroyOptions) :
    (w.finishDestroy config options).2.Fine :=
  ⟨h.known.sameSlots h.known.grows_self fun _ => rfl, h.fits⟩

section

variable {config : OperationConfig} (hmode : config.inTokenMode = false)

include hmode

theorem Fine.destroyRemoved (h : w.Fine) (options : DestroyOptions)
    (hok : w.destroyRemoved rules now config options o = .ok (r, w')) : w'.Fine := by
  unfold Task.destroyRemoved at hok
  rw [hmode] at hok
  split at hok
  · exact of_answer h hok
  · simp only [Bool.false_eq_true, if_false] at hok
    split at hok
    · split at hok
      · exact of_answer (h.refuseStale o) hok
      · split at hok
        · obtain ⟨w₁, hburied, hok⟩ := bind_ok hok
          exact of_answer ((h.bury hburied).finishDestroy config options) hok
        · exact of_answer (h.finishDestroy config options) hok
    · exact of_answer (h.missing rules) hok

theorem Fine.commitDestroy (h : w.Fine) {buries : Bool} {e : Entry}
    (hok : w.commitDestroy config.inTokenMode buries now e = .ok w') : w'.Fine := by
  unfold Task.commitDestroy at hok
  rw [hmode] at hok
  simp only [Bool.false_eq_true, if_false] at hok
  split at hok
  · exact h.bury hok
  · exact h.detach.recordVersion hok

theorem Fine.destroyLive (h : w.Fine) (hr : rules.Counts) (options : DestroyOptions)
    (hok : w.destroyLive rules now config options o = .ok (r, w')) : w'.Fine := by
  unfold Task.destroyLive at hok
  split at hok
  · exact of_answer h hok
  · split at hok
    · exact of_answer (h.refuseStale o) hok
    · obtain ⟨w₁, hassign, hok⟩ := bind_ok hok
      obtain ⟨w₂, hcommit, hok⟩ := bind_ok hok
      have hassigned := h.assignVersion hr hassign
      have hcommitted : w₂.Fine := by
        refine commitDestroy hmode ?_ hcommit
        exact ⟨hassigned.known, hassigned.fits⟩
      refine of_answer (Fine.finishDestroy ?_ config options) hok
      split
      · exact hcommitted.mapStats _
      · exact hcommitted

theorem Fine.destroy (h : w.Fine) (hr : rules.Counts) (options : DestroyOptions)
    (hok : w.destroy rules now config options = .ok (r, w')) : w'.Fine := by
  have hopened := h.open_ (config.inTokenMode
    || (rules.concurrencyChecks && (w.event.remote || options.evict)))
  unfold Task.destroy at hok
  simp only at hok
  split at hok
  next w₁ heq =>
    rw [heq] at hopened
    split at hok
    · exact of_answer hopened hok
    · exact of_answer (hopened.missing rules) hok
  next o w₁ heq =>
    rw [heq] at hopened
    split at hok
    · exact hopened.destroyRemoved hmode options hok
    · exact hopened.destroyLive hmode hr options hok

end

end Task
end DataGrid
