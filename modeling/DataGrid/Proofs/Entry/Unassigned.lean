import DataGrid.Proofs.Entry.Retention

/-
Which tombstones a collection up to a vector takes, by the tags that they were
destroyed with. A tag has a version of the entry, one of the region, or both; its
region version goes into the stamp and the record of the tombstone as it is, zero
where there is none (`EntryMap.Tagged.queue`).

For a member of which it knows nothing a vector allows versions up to zero. So a
tombstone goes if the vector knows a version of its member that is not below its
own, and if its tag had no region version it goes whatever the vector knows
(`EntryMap.collected_iff_spoken_for`). Such a tag itself is in no vector.
-/

namespace DataGrid

namespace VersionVector

/-- Tombstones of the member may be collected up to some version, and this one is not above it. -/
def SpeaksFor (gc : VersionVector) (m : Member) (version : Nat) : Prop :=
  ∃ upTo, gc.gcVersions.find? m = some upTo ∧ version ≤ upTo

variable {gc : VersionVector} {m m' : Member} {version : Nat}

theorem isCollectable_iff :
    gc.isCollectable m version = true ↔ version = 0 ∨ gc.SpeaksFor m version := by
  unfold isCollectable gcVersion SpeaksFor
  rw [decide_eq_true_iff]
  cases gc.gcVersions.find? m with
  | none => simp
  | some upTo =>
    simp only [Option.getD_some, Option.some.injEq, exists_eq_left']
    omega

theorem SpeaksFor.congr (h : gc.SpeaksFor m version) (hsame : m'.same m = true) :
    gc.SpeaksFor m' version := by
  obtain ⟨upTo, hfind, hle⟩ := h
  exact ⟨upTo, (OrdMap.find?_congr _ (Member.same_iff.1 hsame)).trans hfind, hle⟩

/-- A tag that no vector contains is one without a region version. -/
theorem unassigned_iff {t : VersionTag} :
    t.regionVersion = 0 ↔ ∀ v : VersionVector, v.containsTag t = false := by
  refine ⟨fun hzero v => by simp [containsTag, hzero], fun h => ?_⟩
  have hnot := h { owner := t.member
                   holders := OrdMap.empty.insert t.member { version := t.regionVersion } }
  by_contra hne
  simp [containsTag, contains, hne, Holder.contains] at hnot

end VersionVector

namespace TombstoneRecord

/-- A record of a tag is collectable where a vector speaks for it, and always where the tag has no
region version. -/
theorem isCollectable_iff {r : TombstoneRecord} {gc : VersionVector} {t : VersionTag}
    (h : r.stamp = .ofTag t) :
    r.isCollectable gc = true ↔ t.regionVersion = 0 ∨ gc.SpeaksFor t.member t.regionVersion := by
  rw [isCollectable, h]
  exact VersionVector.isCollectable_iff

theorem token_of_isFor {r : TombstoneRecord} {k : Key} {e : Entry} (h : r.isFor k e = true) :
    e.token = .tombstone := by
  simp only [isFor, Bool.and_eq_true] at h
  exact Token.isTombstone_iff.1 h.2.1

/-- The entry that a record of a tag stands for has the region version of the tag, from the same
member. -/
theorem stamp_of_isFor {r : TombstoneRecord} {k : Key} {e : Entry} {t : VersionTag}
    (h : r.isFor k e = true) (hstamp : r.stamp = .ofTag t) :
    ∃ m, e.stamp.member = some m ∧ m.same t.member = true ∧
      e.stamp.regionVersion = t.regionVersion := by
  simp only [isFor, matchesStamp, hstamp, VersionStamp.ofTag, Bool.and_eq_true, beq_iff_eq] at h
  obtain ⟨-, -, ⟨hmember, hversion⟩, -⟩ := h
  cases hm : e.stamp.member with
  | none =>
    rw [hm] at hmember
    cases hmember
  | some m =>
    rw [hm] at hmember
    exact ⟨m, rfl, hmember, hversion⟩

end TombstoneRecord

/-! ## From tags to records -/

/-- An operation puts one record into the queue at most, and that one is of the tag by which it
went. -/
theorem EntryCall.Outcome.queue {op : EntryCall} {rules : Rules} {now : Int} {w w' : Task}
    {r : Applied} (h : op.Outcome rules now w r w') :
    w'.copy.map.queue = w.copy.map.queue ∨
      ∃ t record, w'.event.tag = some t ∧ t.isValid = true ∧ record.stamp = .ofTag t ∧
        w'.copy.map.queue = w.copy.map.queue ++ [record] := by
  cases h with
  | refused _ _ _ h => exact .inl h.queue
  | marked _ _ h => exact .inl h.queue
  | parked _ h => exact .inl h.queue
  | applied hturned h =>
    cases hturned with
    | buried htag hvalid => exact .inr ⟨_, _, htag, hvalid, rfl, h.queue⟩
    | written | removed | kept => exact .inl h.queue

namespace EntryMap

/-- Maps that calls have made of new ones, with the tags of all operations. -/
inductive Tagged : List VersionTag → EntryMap → Prop
  | new (config : TombstoneConfig) : Tagged [] { config := config }
  | operate {tags : List VersionTag} {c : RegionCopy} (hm : Tagged tags c.map) (op : EntryCall)
      (rules : Rules) (now : Int) (event : EntryEvent) {r : Applied} {w : Task}
      (hok : op.run rules now { copy := c, event := event } = .ok (r, w)) :
      Tagged (tags ++ w.event.tag.toList) w.copy.map
  | clear {tags : List VersionTag} {c : RegionCopy} (hm : Tagged tags c.map)
      (upTo : Option VersionVector) : Tagged tags (c.clear upTo).2.map
  | expireTombstones {tags : List VersionTag} {c : RegionCopy} (hm : Tagged tags c.map)
      (now : Int) : Tagged tags (c.expireTombstones now).2.map
  | gcTombstones {tags : List VersionTag} {c : RegionCopy} (hm : Tagged tags c.map)
      (gc : VersionVector) : Tagged tags (c.gcTombstones gc).2.map
  | install {tags : List VersionTag} {m : EntryMap} (hm : Tagged tags m) (k : Key) {t : Token}
      (tag : Option VersionTag) (ht : t ≠ .detached) : Tagged tags (m.install k t tag)

variable {tags : List VersionTag} {m : EntryMap}

theorem Tagged.reached (hm : m.Tagged tags) : m.Reached := by
  induction hm with
  | new config => exact .new config
  | operate _ op rules now event hok ih => exact .step ih (.operate op rules now event hok)
  | clear _ upTo ih => exact .step ih (.clear upTo)
  | expireTombstones _ now ih => exact .step ih (.expireTombstones now)
  | gcTombstones _ gc ih => exact .step ih (.gcTombstones gc)
  | install _ k tag ht ih => exact .install ih k tag ht

/-- Every record in the queue has the versions of the valid tag that it was made for. -/
theorem Tagged.queue (hm : m.Tagged tags) :
    ∀ r ∈ m.queue, ∃ t ∈ tags, t.isValid = true ∧ r.stamp = .ofTag t := by
  induction hm with
  | new => exact List.forall_mem_nil _
  | @operate tags c hm op rules now event r w hok ih =>
    have hbefore : ∀ r ∈ c.map.queue, ∃ t ∈ tags ++ w.event.tag.toList, t.isValid = true ∧
        r.stamp = .ofTag t := fun r hr =>
      let ⟨t, ht, hmade⟩ := ih r hr
      ⟨t, List.mem_append_left _ ht, hmade⟩
    rcases (op.outcome (hm.reached.attached rfl) hok).queue with
      hqueue | ⟨t, record, htag, hvalid, hstamp, hqueue⟩
    · rw [hqueue]
      exact hbefore
    · rw [hqueue, List.forall_mem_append, List.forall_mem_singleton]
      exact ⟨hbefore, t, by simp [htag], hvalid, hstamp⟩
  -- no other call puts a record into the queue
  | clear _ upTo ih => exact fun r hr => ih r ((RegionCopy.thins_clear _ upTo).queue r hr)
  | expireTombstones _ now ih =>
    exact fun r hr => ih r ((RegionCopy.thins_expireTombstones _ now).queue r hr)
  | gcTombstones _ gc ih =>
    exact fun r hr => ih r ((RegionCopy.thins_gcTombstones _ gc).queue r hr)
  | install _ _ _ _ ih => exact ih

/-! ## What goes -/

open RegionCopy

/-- A collection up to a vector removes a tombstone just if a record stands for it that was made for
a valid tag of an operation, and either the vector has a version for the member of that tag that is
not less than its region version, or the tag has none. So for a stamp with a region version the
vector must have a version of the member, but not for one without. Of the tags, those without a
region version are contained in no vector. -/
theorem collected_iff_spoken_for (hm : m.Tagged tags) (vector : Option VersionVector)
    (stats : Stats) (gc : VersionVector) {k : Key} {e : Entry} (he : m.entry? k = some e) :
    ((RegionCopy.gcTombstones gc ⟨m, vector, stats⟩).2.map.entry? k = none ↔
        e.token = .tombstone ∧ ∃ r ∈ m.queue, r.isFor k e = true ∧
          ∃ t ∈ tags, t.isValid = true ∧ r.stamp = .ofTag t ∧
            (t.regionVersion = 0 ∨ gc.SpeaksFor t.member t.regionVersion)) ∧
      (e.stamp.regionVersion ≠ 0 →
        (RegionCopy.gcTombstones gc ⟨m, vector, stats⟩).2.map.entry? k = none →
          ∃ sender, e.stamp.member = some sender ∧ gc.SpeaksFor sender e.stamp.regionVersion) ∧
      ∀ t : VersionTag, t.regionVersion = 0 ↔ ∀ v : VersionVector, v.containsTag t = false := by
  have hgone : (RegionCopy.gcTombstones gc ⟨m, vector, stats⟩).2.map.entry? k = none ↔
      e.token = .tombstone ∧ ∃ r ∈ m.queue, r.isFor k e = true ∧
        ∃ t ∈ tags, t.isValid = true ∧ r.stamp = .ofTag t ∧
          (t.regionVersion = 0 ∨ gc.SpeaksFor t.member t.regionVersion) := by
    rw [gcTombstones_eq, (removes_collectTaken _ _ _).gone_iff he, List.any_filter,
      List.any_eq_true]
    constructor
    · rintro ⟨r, hr, hboth⟩
      rw [Bool.and_eq_true] at hboth
      obtain ⟨t, ht, hvalid, hstamp⟩ := hm.queue r hr
      exact ⟨TombstoneRecord.token_of_isFor hboth.2, r, hr, hboth.2, t, ht, hvalid, hstamp,
        (TombstoneRecord.isCollectable_iff hstamp).1 hboth.1⟩
    · rintro ⟨-, r, hr, hfor, t, -, -, hstamp, hallowed⟩
      refine ⟨r, hr, Bool.and_eq_true _ _ ▸ ⟨?_, hfor⟩⟩
      exact (TombstoneRecord.isCollectable_iff hstamp).2 hallowed
  refine ⟨hgone, fun hassigned hnone => ?_, fun t => VersionVector.unassigned_iff⟩
  obtain ⟨-, r, -, hfor, t, -, -, hstamp, hallowed⟩ := hgone.1 hnone
  obtain ⟨sender, hsender, hsame, hversion⟩ := TombstoneRecord.stamp_of_isFor hfor hstamp
  refine ⟨sender, hsender, ?_⟩
  rw [hversion] at hassigned ⊢
  exact (hallowed.resolve_left hassigned).congr hsame

/-- A new vector. -/
def unspoken : VersionVector := { owner := sender }

/-- Three keys are destroyed with tags of the three kinds. A new vector collects the one that has no
region version. One for the first version of the sender collects what has that version too, and not
what has the second. -/
theorem collected_iff_spoken_for_kinds : ∃ tags m, Tagged tags m ∧
    m.isBuried "a" = true ∧ m.isBuried "b" = true ∧ m.isBuried "c" = true ∧
    (RegionCopy.gcTombstones unspoken ⟨m, none, {}⟩).2.map.entry? "a" = none ∧
    (RegionCopy.gcTombstones unspoken ⟨m, none, {}⟩).2.map.entry? "b" ≠ none ∧
    (RegionCopy.gcTombstones (collectableUpTo 1) ⟨m, none, {}⟩).2.map.entry? "b" = none ∧
    (RegionCopy.gcTombstones (collectableUpTo 1) ⟨m, none, {}⟩).2.map.entry? "c" ≠ none := by
  have hentry := (Tagged.new {}).operate (c := { map := {} }) (.destroy {} {}) replica 0
    (received (.ofDestroy "a") 1 0) rfl
  have hregion := hentry.operate (c := { map := _ }) (.destroy {} {}) replica 1
    (received (.ofDestroy "b") 0 1) rfl
  have hboth := hregion.operate (c := { map := _ }) (.destroy {} {}) replica 2
    (received (.ofDestroy "c") 1 2) rfl
  obtain ⟨tags, m, a, b, c, hm, ha, hb, hc, hburied, hfromA, hfromB, hstampB, hstampC⟩ :
      ∃ tags m a b c, Tagged tags m ∧ m.entry? "a" = some a ∧ m.entry? "b" = some b ∧
        m.entry? "c" = some c ∧
        (m.isBuried "a" = true ∧ m.isBuried "b" = true ∧ m.isBuried "c" = true) ∧
        (∃ r ∈ m.queue, r.isFor "a" a = true ∧
          ∃ t ∈ tags, t.isValid = true ∧ r.stamp = .ofTag t ∧ t.regionVersion = 0) ∧
        (∃ r ∈ m.queue, r.isFor "b" b = true ∧
          ∃ t ∈ tags, t.isValid = true ∧ r.stamp = .ofTag t ∧ t.member = sender ∧
            t.regionVersion = 1) ∧
        b.stamp.regionVersion = 1 ∧
        c.stamp.member = some sender ∧ c.stamp.regionVersion = 2 :=
    ⟨_, _, _, _, _, hboth, rfl, rfl, rfl, ⟨rfl, rfl, rfl⟩, by decide, by decide, rfl, rfl, rfl⟩
  refine ⟨tags, m, hm, hburied.1, hburied.2.1, hburied.2.2, ?_, fun hgone => ?_, ?_,
    fun hgone => ?_⟩
  · obtain ⟨r, hr, hfor, t, ht, hvalid, hstamp, hzero⟩ := hfromA
    exact (collected_iff_spoken_for hm none {} unspoken ha).1.2
      ⟨TombstoneRecord.token_of_isFor hfor, r, hr, hfor, t, ht, hvalid, hstamp, .inl hzero⟩
  · obtain ⟨_, -, upTo, hfind, -⟩ :=
      (collected_iff_spoken_for hm none {} unspoken hb).2.1 (by rw [hstampB]; decide) hgone
    cases hfind
  · obtain ⟨r, hr, hfor, t, ht, hvalid, hstamp, hmember, hversion⟩ := hfromB
    have hspoken : (collectableUpTo 1).SpeaksFor sender 1 := ⟨1, rfl, Nat.le_refl 1⟩
    exact (collected_iff_spoken_for hm none {} (collectableUpTo 1) hb).1.2
      ⟨TombstoneRecord.token_of_isFor hfor, r, hr, hfor, t, ht, hvalid, hstamp,
        .inr (by rwa [hmember, hversion])⟩
  · obtain ⟨_, hmember, upTo, hfind, hle⟩ :=
      (collected_iff_spoken_for hm none {} (collectableUpTo 1) hc).2.1
        (by rw [hstampC.2]; decide) hgone
    obtain rfl := Option.some.inj (hstampC.1.symm.trans hmember)
    have hone : 1 = upTo := Option.some.inj hfind
    omega

/-- A vector that has no version of any member collects what was destroyed without a region
version. -/
theorem collected_by_new_vector : ∃ tags m, Tagged tags m ∧ m.isBuried "k" = true ∧
    (∀ t ∈ tags, t.isValid = true) ∧
    (m.entry? "k").map (fun e => (e.stamp.member, e.stamp.regionVersion)) = some (some sender, 0) ∧
    unspoken.gcVersions.find? sender = none ∧
    (RegionCopy.gcTombstones unspoken ⟨m, none, {}⟩).1 = 1 ∧
    (RegionCopy.gcTombstones unspoken ⟨m, none, {}⟩).2.map.entry? "k" = none :=
  ⟨_, _, (Tagged.new {}).operate (c := { map := {} }) (.destroy {} {}) replica 0
    (received (.ofDestroy "k") 1 0) rfl, rfl, by decide, rfl, rfl, rfl, rfl⟩

end EntryMap
end DataGrid
