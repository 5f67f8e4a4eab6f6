import DataGrid.Proofs.Entry.Known
import DataGrid.Proofs.Entry.Tally

/-
What the vector of a copy knows of the entries, whatever mode the operations
come in. Stamping an entry and recording its tag are two steps; every operation
takes both, and so the vector contains what it stamps the entry with. A destroy
in token mode takes the first only. The version it was received with is then on
the entry and not in the vector.

A run is followed with the tags that it left in this way (`Course`). Any other
version that an entry is stamped with is in the vector, also where the operation
was in token mode and got its version here.
-/

namespace DataGrid

open DataGrid.Task RegionCopy

/-! ## Vectors that grow -/

namespace VersionVector

/-- The vector `v'` is of the same member as `v`, and contains what `v` contains. -/
structure Extends (v v' : VersionVector) : Prop where
  sound : v'.Sound
  owner : v'.owner = v.owner
  mono : ∀ m n, v.contains m n = true → v'.contains m n = true

/-- The vector contains the version of a tag. -/
def Has (v : VersionVector) (tag : Option VersionTag) : Prop :=
  ∀ t, tag = some t → v.contains t.member t.regionVersion = true

/-- The vector contains the version of a stamp, if that has one. -/
def Covers (v : VersionVector) (s : VersionStamp) : Prop :=
  s.regionVersion ≠ 0 → ∃ m, s.member = some m ∧ v.contains m s.regionVersion = true

variable {v v' v'' : VersionVector}

theorem Extends.refl (h : v.Sound) : v.Extends v := ⟨h, rfl, fun _ _ hc => hc⟩

theorem Extends.trans (h : v.Extends v') (h' : v'.Extends v'') : v.Extends v'' :=
  ⟨h'.sound, h'.owner.trans h.owner, fun m n hc => h'.mono m n (h.mono m n hc)⟩

theorem Recorded.extends {m : Member} {n : Nat} (h : v.Recorded m n v') : v.Extends v' :=
  ⟨h.sound, h.owner, fun _ _ hc => h.mono hc⟩

theorem Extends.covers {s : VersionStamp} (h : v.Extends v') (hs : v.Covers s) : v'.Covers s := by
  intro hversion
  obtain ⟨m, hm, hc⟩ := hs hversion
  exact ⟨m, hm, h.mono _ _ hc⟩

theorem Has.covers {t : VersionTag} (h : v.Has (some t)) : v.Covers (.ofTag t) :=
  fun _ => ⟨t.member, rfl, h t rfl⟩

/-- A tag that is recorded is in the vector. -/
theorem extends_recorded {tag : Option VersionTag} {vector : Option VersionVector} (hv : v.Sound)
    (hfits : Fits tag) (h : Rules.recorded tag (some v) = .ok vector) :
    ∃ v', vector = some v' ∧ v.Extends v' ∧ v'.Has tag := by
  cases tag with
  | none =>
    cases h
    exact ⟨v, rfl, .refl hv, fun _ ht => nomatch ht⟩
  | some t =>
    obtain ⟨v', hok, hrec⟩ := Rules.recorded_eq hv (hfits t rfl)
    rw [hok] at h
    cases h
    refine ⟨v', rfl, hrec.extends, fun u hu => ?_⟩
    cases hu
    exact hrec.of_contains

end VersionVector

/-! ## Tags that are given -/

/-- A local operation is given a tag that the vector, if it is the one of `m`, contains already. -/
def Rules.Announces (rules : Rules) (m : Member) : Prop :=
  ∀ v stamp now tag vector, v.Sound → v.owner = m →
    rules.assignTag (some v) stamp now = .ok (tag, vector) →
      Fits tag ∧ ∃ v', vector = some v' ∧ v.Extends v' ∧ v'.Has tag

theorem Rules.announces_nextTag {rules : Rules} {m : Member} (h : rules.assignTag = nextTag m) :
    rules.Announces m := by
  intro v stamp now tag vector hsound howner hassign
  rw [h] at hassign
  obtain ⟨⟨n, v'⟩, hnext, hassign⟩ := bind_ok hassign
  obtain ⟨t, htag, hassign⟩ := bind_ok hassign
  obtain ⟨entryVersion, -, htag⟩ := bind_ok htag
  cases hassign
  cases htag
  obtain ⟨-, hle, hrec⟩ := VersionVector.of_next hsound hnext
  refine ⟨fun u hu => ?_, v', rfl, hrec.extends, fun u hu => ?_⟩
  · cases hu
    exact hle
  · cases hu
    rw [← howner]
    exact hrec.of_contains

theorem Rules.announces_noTag {rules : Rules} (h : rules.assignTag = noTag) (m : Member) :
    rules.Announces m := by
  intro v stamp now tag vector hsound _ hassign
  rw [h] at hassign
  cases hassign
  exact ⟨fits_none, v, rfl, .refl hsound, fun _ ht => nomatch ht⟩

/-! ## One operation -/

namespace EntryCall

/-- The tag that an event comes with, if the operation puts it on the key without recording it. -/
def untold (op : EntryCall) (e : EntryEvent) : List (Key × VersionTag) :=
  if op.inTokenMode then e.tag.toList.map fun t => (e.key, t) else []

variable {op : EntryCall} {rules : Rules} {now : Int} {w w' : Task} {m : Member}
  {v : VersionVector} {tag : Option VersionTag} {vector : Option VersionVector}

/-- An operation's tag is in the vector afterwards, or left untold. -/
theorem Passed.told (h : op.Passed rules now w tag vector) (hrules : rules.Announces m)
    (hfits : Fits w.event.tag) (hv : w.copy.vector = some v) (hsound : v.Sound)
    (howner : v.owner = m) :
    ∃ v', vector = some v' ∧ v.Extends v' ∧
      ∀ t, tag = some t → v'.Has (some t) ∨ (w.key, t) ∈ op.untold w.event := by
  obtain ⟨between, htagged, hrecorded⟩ := h.recorded
  cases htagged with
  | own =>
    rcases hrecorded with hrec | ⟨hmode, rfl⟩
    · rw [hv] at hrec
      obtain ⟨v', hvector, hext, hhas⟩ := VersionVector.extends_recorded hsound hfits hrec
      exact ⟨v', hvector, hext, fun t ht => .inl (ht ▸ hhas)⟩
    · refine ⟨v, hv, .refl hsound, fun t ht => .inr ?_⟩
      rw [untold, if_pos hmode, ht]
      exact List.mem_singleton.2 rfl
  | given hnone hassign =>
    rw [hv] at hassign
    obtain ⟨hfits', v₁, rfl, hext, hhas⟩ := hrules v _ _ _ _ hsound howner hassign
    rcases hrecorded with hrec | ⟨-, rfl⟩
    · obtain ⟨v', hvector, hext', hhas'⟩ :=
        VersionVector.extends_recorded hext.sound hfits' hrec
      exact ⟨v', hvector, hext.trans hext', fun t ht => .inl (ht ▸ hhas')⟩
    · exact ⟨v₁, rfl, hext, fun t ht => .inl (ht ▸ hhas)⟩

end EntryCall

/-- The stamp of a key has its version in the vector, or was left there untold. -/
def VersionVector.Answers (v : VersionVector) (log : List (Key × VersionTag)) (k : Key)
    (s : VersionStamp) : Prop := v.Covers s ∨ ∃ t, (k, t) ∈ log ∧ s = .ofTag t

namespace RegionCopy

/-- A copy with the vector of `m`, and with tags left untold on some keys. -/
structure Answered (c : RegionCopy) (m : Member) (log : List (Key × VersionTag)) : Prop where
  attached : c.Attached
  vector : ∃ v, c.vector = some v ∧ v.Sound ∧ v.owner = m ∧
    ∀ k s, c.slot? k = some s → v.Answers log k s.stamp

end RegionCopy

namespace VersionVector

variable {v v' : VersionVector} {log log' : List (Key × VersionTag)} {k : Key} {s : VersionStamp}

theorem answers_unversioned (v : VersionVector) (log : List (Key × VersionTag)) (k : Key) :
    v.Answers log k {} := .inl fun h => absurd rfl h

theorem Answers.mono (h : v.Answers log k s) (hext : v.Extends v')
    (hlog : ∀ p ∈ log, p ∈ log') : v'.Answers log' k s := by
  rcases h with hcovers | ⟨t, ht, hs⟩
  · exact .inl (hext.covers hcovers)
  · exact .inr ⟨t, hlog _ ht, hs⟩

theorem answers_ofTag {t : VersionTag} (h : v.Has (some t) ∨ (k, t) ∈ log) :
    v.Answers log k (.ofTag t) := by
  rcases h with hhas | hlog
  · exact .inl hhas.covers
  · exact .inr ⟨t, hlog, rfl⟩

/-- A stamp stays as it was unless the tag is valid. -/
theorem Answers.after {tag : Option VersionTag} (h : v.Answers log k s)
    (htag : ∀ t, tag = some t → v.Has (some t) ∨ (k, t) ∈ log) :
    v.Answers log k (s.after tag) := by
  unfold VersionStamp.after
  split
  next t =>
    split
    · exact answers_ofTag (htag t rfl)
    · exact h
  next => exact h

end VersionVector

theorem Task.answers_met {w : Task} {v : VersionVector} {log : List (Key × VersionTag)}
    (h : ∀ k s, w.copy.slot? k = some s → v.Answers log k s.stamp) :
    v.Answers log w.key w.met.stamp := by
  cases hs : w.copy.slot? w.key with
  | none =>
    rw [met_of_none hs]
    exact v.answers_unversioned log w.key
  | some s =>
    rw [met_of_some hs]
    exact h w.key s hs

namespace EntryCall

variable {op : EntryCall} {rules : Rules} {now : Int} {w w' : Task} {m : Member}
  {log : List (Key × VersionTag)} {r : Applied}

/-- Whatever comes of an operation, what it leaves is answered for. -/
theorem Outcome.answered (h : op.Outcome rules now w r w') (hc : w.copy.Answered m log)
    (hrules : rules.Announces m) (hfits : Fits w.event.tag) :
    w'.copy.Answered m (op.untold w.event ++ log) := by
  obtain ⟨v, hv, hsound, howner, hslots⟩ := hc.vector
  have hlog : ∀ p ∈ log, p ∈ op.untold w.event ++ log := fun _ hp => List.mem_append_right _ hp
  refine ⟨h.attached hc.attached, ?_⟩
  -- a slot is left at the key, and the vector has grown
  have hleft : ∀ {s : Option Slot} {queue : List TombstoneRecord} {v' : VersionVector},
      w.Leaves w' s queue (some v') → v.Extends v' →
      (∀ x, s = some x → v'.Answers (op.untold w.event ++ log) w.key x.stamp) →
      ∃ v', w'.copy.vector = some v' ∧ v'.Sound ∧ v'.owner = m ∧
        ∀ k s, w'.copy.slot? k = some s → v'.Answers (op.untold w.event ++ log) k s.stamp := by
    intro s queue v' hl hext hs
    refine ⟨v', hl.vector, hext.sound, hext.owner.trans howner, fun k x hk => ?_⟩
    rw [hl.slot] at hk
    split at hk
    next he =>
      rw [he]
      exact hs x hk
    next => exact (hslots k x hk).mono hext hlog
  have hpassed : ∀ {tag : Option VersionTag} {vector : Option VersionVector},
      op.Passed rules now w tag vector → ∃ v', vector = some v' ∧ v.Extends v' ∧
        ∀ t, tag = some t → v'.Has (some t) ∨ (w.key, t) ∈ op.untold w.event ++ log := by
    intro tag vector hp
    obtain ⟨v', hvector, hext, htold⟩ := hp.told hrules hfits hv hsound howner
    exact ⟨v', hvector, hext, fun t ht => (htold t ht).imp_right (List.mem_append_left _)⟩
  have hmet := answers_met hslots
  cases h with
  | refused _ _ _ h =>
    refine ⟨v, h.vector.trans hv, hsound, howner, fun k s hk => ?_⟩
    rw [h.slot] at hk
    exact (hslots k s hk).mono (.refl hsound) hlog
  | marked _ _ h hp =>
    obtain ⟨v', rfl, hext, htold⟩ := hpassed hp
    refine hleft h hext fun x hx => ?_
    cases hx
    exact (hmet.mono hext hlog).after htold
  | parked _ h =>
    rw [hv] at h
    refine hleft h (.refl hsound) fun x hx => ?_
    cases hx
    exact v.answers_unversioned _ _
  | applied hturned h hp =>
    obtain ⟨v', rfl, hext, htold⟩ := hpassed hp
    refine hleft h hext fun x hx => ?_
    cases hturned with
    | written =>
      cases hx
      exact (hmet.mono hext hlog).after htold
    | buried htag =>
      cases hx
      exact VersionVector.answers_ofTag (htold _ htag)
    | removed => cases hx
    | kept =>
      cases hx
      exact hmet.mono hext hlog

end EntryCall

/-! ## A run -/

namespace RegionCopy

/-- Operations and clears on a new copy with the vector of `m`, one after the other, each with rules
of its own; and the tags that they left untold. -/
inductive Course (m : Member) : RegionCopy → List (Key × VersionTag) → Prop
  | new (config : TombstoneConfig) (stats : Stats) {v : VersionVector} (hv : v.Sound)
      (hm : v.owner = m) :
      Course m { map := { config := config }, vector := some v, stats := stats } []
  | operate {c : RegionCopy} {log : List (Key × VersionTag)} (h : Course m c log) (op : EntryCall)
      {rules : Rules} (hrules : rules.Announces m) (now : Int) (event : EntryEvent)
      (hfits : Fits event.tag) {r : Applied} {w : Task}
      (hok : op.run rules now { copy := c, event := event } = .ok (r, w)) :
      Course m w.copy (op.untold event ++ log)
  | clear {c : RegionCopy} {log : List (Key × VersionTag)} (h : Course m c log)
      (upTo : Option VersionVector) : Course m (c.clear upTo).2 log

variable {c : RegionCopy} {m : Member} {log : List (Key × VersionTag)}

theorem Answered.clear (h : c.Answered m log) (upTo : Option VersionVector) :
    (c.clear upTo).2.Answered m log := by
  obtain ⟨v, hv, hsound, howner, hslots⟩ := h.vector
  exact ⟨h.attached.clear upTo, v, (vector_clear c upTo).trans hv, hsound, howner,
    fun k s hk => hslots k s (of_slot?_clear hk)⟩

theorem Course.answered (h : Course m c log) : c.Answered m log := by
  induction h with
  | new config stats hv hm =>
    exact ⟨attached_empty fun _ => rfl, _, rfl, hv, hm, fun _ _ hk => nomatch hk⟩
  | operate _ op hrules now event hfits hok ih =>
    exact (op.outcome ih.attached hok).answered ih hrules hfits
  | clear _ upTo ih => exact ih.clear upTo

/-- After any operations and clears, in token mode or not, the vector contains the member and the
region version of every stamp that has one. Only a tag with which a key was destroyed in token mode
may be on that key without being in the vector. -/
theorem stamps_recorded (h : Course m c log) : ∃ v, c.vector = some v ∧
    ∀ k s, c.slot? k = some s → s.stamp.regionVersion ≠ 0 →
      (∃ m', s.stamp.member = some m' ∧ v.contains m' s.stamp.regionVersion = true) ∨
        ∃ t, (k, t) ∈ log ∧ s.stamp = .ofTag t := by
  obtain ⟨v, hv, -, -, hslots⟩ := h.answered.vector
  exact ⟨v, hv, fun k s hk hversion => (hslots k s hk).imp_left fun hcovers => hcovers hversion⟩

/-- A member that its region is loaded to. -/
def loader : Member := { address := .localhost, port := 2 }

/-- Two keys are destroyed in token mode, the first by the sender and the second by the member
itself, which wrote it before. -/
theorem stamps_recorded_loaded : ∃ c log v, Course loader c log ∧ log.map Prod.fst = ["a"] ∧
    c.vector = some v ∧ c.slot? "a" = some ⟨.destroyed, ⟨some sender, 1, 1, 0⟩⟩ ∧
      c.slot? "b" = some ⟨.destroyed, ⟨some loader, 2, 2, 2⟩⟩ ∧ v.contains loader 2 = true := by
  have hown : Rules.Announces { concurrencyChecks := true, assignTag := Rules.nextTag loader } loader :=
    Rules.announces_nextTag rfl
  have hnew : Course loader { vector := some { owner := loader } } [] :=
    .new {} {} (VersionVector.sound_new loader) rfl
  have hgone := hnew.operate (.destroy { inTokenMode := true } {})
    (Rules.announces_noTag (show replica.assignTag = _ from rfl) loader) 0
    (received (.ofDestroy "a") 1 1) (fun t ht => by cases ht; decide) rfl
  have hput := hgone.operate (.put {} {}) hown 1 (.ofPut "b" "v") fits_none rfl
  have hrun := hput.operate (.destroy { inTokenMode := true } {}) hown 2 (.ofDestroy "b") fits_none
    rfl
  obtain ⟨c, log, hrun, hlog, ha, hb⟩ : ∃ c log, Course loader c log ∧ log.map Prod.fst = ["a"] ∧
      c.slot? "a" = some ⟨.destroyed, ⟨some sender, 1, 1, 0⟩⟩ ∧
      c.slot? "b" = some ⟨.destroyed, ⟨some loader, 2, 2, 2⟩⟩ :=
    ⟨_, _, hrun, rfl, rfl, rfl⟩
  obtain ⟨v, hv, hall⟩ := stamps_recorded hrun
  refine ⟨c, log, v, hrun, hlog, hv, ha, hb, ?_⟩
  rcases hall "b" _ hb (by decide) with ⟨m, hm, hc⟩ | ⟨t, ht, -⟩
  · cases hm
    exact hc
  · -- the one tag that was left untold is on the other key
    have hkey : "b" ∈ log.map Prod.fst := List.mem_map_of_mem ht
    rw [hlog] at hkey
    exact absurd hkey (by decide)

/-- The version with which a key was destroyed in token mode is on the key, and not in the vector. -/
theorem stamp_unrecorded_in_token_mode : Fits (received (.ofDestroy "a") 1 1).tag ∧
    replica.Announces loader ∧
    ∃ w v, (EntryCall.destroy { inTokenMode := true } {}).run replica 0
        { copy := { vector := some { owner := loader } }, event := received (.ofDestroy "a") 1 1 } =
          .ok (.ok true, w) ∧
      w.copy.vector = some v ∧
      w.copy.slot? "a" = some ⟨.destroyed, ⟨some sender, 1, 1, 0⟩⟩ ∧
      v.contains sender 1 = false := by
  refine ⟨fun t ht => ?_, Rules.announces_noTag rfl loader, _, _, rfl, rfl, rfl, rfl⟩
  cases ht
  decide

end RegionCopy
end DataGrid
