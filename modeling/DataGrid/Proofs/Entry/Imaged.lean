import DataGrid.Proofs.Entry.Collected

/-
Tombstones that came with an initial image. Other than a destroy, the install
of a token puts no record into the queue, so a tombstone may be there that no
record stands for. The only such tombstones are those whose slots are as they
were installed (`EntryMap.Imaged`), and no collection ever removes one.
-/

namespace DataGrid

namespace RegionCopy

variable {c c' : RegionCopy}

/-- A record in the queue stands for the entry. -/
def isRecorded (c : RegionCopy) (k : Key) (e : Entry) : Bool := c.map.queue.any (·.isFor k e)

theorem isRecorded_eq_false {k : Key} {e : Entry} :
    c.isRecorded k e = false ↔ ∀ r ∈ c.map.queue, r.isFor k e = false := by
  simp only [isRecorded, List.any_eq_false, Bool.not_eq_true]

/-- Whatever the queue holds, a collection up to a vector takes the covered tombstones among those
that have a record. -/
theorem gcTombstones_removes (c : RegionCopy) (gc : VersionVector) :
    c.Removes (fun k e => c.isRecorded k e && e.isCovered gc) (c.gcTombstones gc) := by
  rw [gcTombstones_eq]
  refine (removes_collectTaken c _ _).congr fun k e _ => ?_
  rw [isRecorded, List.any_filter, Bool.eq_iff_iff, Bool.and_eq_true, List.any_eq_true,
    List.any_eq_true]
  constructor
  · rintro ⟨r, hr, hboth⟩
    rw [Bool.and_eq_true] at hboth
    rw [← TombstoneRecord.isCollectable_eq hboth.2]
    exact ⟨⟨r, hr, hboth.2⟩, hboth.1⟩
  · rintro ⟨⟨r, hr, hfor⟩, hcovered⟩
    rw [← TombstoneRecord.isCollectable_eq hfor] at hcovered
    exact ⟨r, hr, Bool.and_eq_true _ _ ▸ ⟨hcovered, hfor⟩⟩

/-- A collection by age that is due for the whole queue takes all tombstones that have a record. -/
theorem expireTombstones_removes {now : Int} (hlimit : c.map.queue.length ≤ c.map.config.batchLimit)
    (hdue : ∀ r ∈ c.map.queue, r.deadline c.map.config.timeoutMs ≤ now) :
    c.Removes c.isRecorded (c.expireTombstones now) := by
  have hall : c.expired now = (c.map.queue, []) :=
    takeExpired_all hlimit fun r hr => decide_eq_true (hdue r hr)
  rw [expireTombstones_eq, hall]
  exact removes_collectTaken c _ _

/-! ## Collections one after another -/

/-- What collections make of a copy, however many there are and of either kind. -/
inductive Collects (c : RegionCopy) : RegionCopy → Prop
  | refl : Collects c c
  | expireTombstones {c' : RegionCopy} (h : Collects c c') (now : Int) :
      Collects c (c'.expireTombstones now).2
  | gcTombstones {c' : RegionCopy} (h : Collects c c') (gc : VersionVector) :
      Collects c (c'.gcTombstones gc).2

/-- The entry is there, and no record stands for it. -/
def Overlooked (c : RegionCopy) (k : Key) (e : Entry) : Prop :=
  c.map.entry? k = some e ∧ c.isRecorded k e = false

theorem Overlooked.collectTaken {k : Key} {e : Entry} (h : c.Overlooked k e)
    {taken kept : List TombstoneRecord} (htaken : ∀ r ∈ taken, r ∈ c.map.queue)
    (hkept : ∀ r ∈ kept, r ∈ c.map.queue) : (c.collectTaken taken kept).2.Overlooked k e := by
  have hnone := isRecorded_eq_false.1 h.2
  have hqueue : (c.collectTaken taken kept).2.map.queue = kept := queue_collectAll _ taken
  refine ⟨?_, isRecorded_eq_false.2 fun r hr => hnone r (hkept r (hqueue ▸ hr))⟩
  have htaken : taken.any (·.isFor k e) = false := by
    rw [List.any_eq_false]
    exact fun r hr => by rw [hnone r (htaken r hr)]; nofun
  rw [(removes_collectTaken c taken kept).entry, h.1, Option.filter_some, htaken]
  rfl

/-- No collection removes what has no record, nor do later ones. -/
theorem Overlooked.collects {k : Key} {e : Entry} (h : c.Overlooked k e) (hc : c.Collects c') :
    c'.Overlooked k e := by
  induction hc with
  | refl => exact h
  | @expireTombstones c' _ now ih =>
    have hqueue : ∀ r, r ∈ (c'.expired now).1 ∨ r ∈ (c'.expired now).2 ↔ r ∈ c'.map.queue :=
      fun r => by rw [← List.mem_append, expired, takeExpired_append]
    exact ih.collectTaken (fun r hr => (hqueue r).1 (.inl hr)) fun r hr => (hqueue r).1 (.inr hr)
  | @gcTombstones c' _ gc ih =>
    rw [gcTombstones_eq]
    exact ih.collectTaken (fun _ hr => (List.mem_filter.1 hr).1) fun _ hr =>
      (List.mem_filter.1 hr).1

end RegionCopy

/-! ## Maps that take part in an initial image -/

open RegionCopy

namespace EntryMap

/-- Maps that calls have made of new ones, and the keys whose slots are as they were installed with
an initial image. -/
inductive Imaged : (Key → Prop) → EntryMap → Prop
  | new (config : TombstoneConfig) : Imaged (fun _ => False) { config := config }
  | step {p : Key → Prop} {m : EntryMap} {vector : Option VersionVector} {stats : Stats}
      {c : RegionCopy} (hm : Imaged p m)
      (hs : RegionCopy.Step { map := m, vector := vector, stats := stats } c) :
      Imaged (fun k => p k ∧ c.map.slot? k = m.slot? k) c.map
  | install {p : Key → Prop} {m : EntryMap} (hm : Imaged p m) (k : Key) {t : Token}
      (tag : Option VersionTag) (ht : t ≠ .detached) :
      Imaged (fun k' => k' = k ∨ p k') (m.install k t tag)

variable {p : Key → Prop} {m : EntryMap}

theorem Imaged.reached (hm : m.Imaged p) : m.Reached := by
  induction hm with
  | new config => exact .new config
  | step _ hs ih => exact .step ih hs
  | install _ k tag ht ih => exact .install ih k tag ht

/-- Every tombstone has its record, but for those that were installed. -/
theorem Imaged.queuedBut (hm : m.Imaged p) : m.QueuedBut fun k _ => p k := by
  induction hm with
  | new config => exact fun _ _ hk => nomatch hk
  | @step p m vector stats c hm hs ih =>
    have hbefore : m.QueuedBut fun k s => p k ∧ m.slot? k = some s :=
      fun k s hk ht hp => ih k s hk ht fun hin => hp ⟨hin, hk⟩
    have hafter := hs.queuedBut (hm.reached.attached rfl) hbefore
    exact fun k s hk ht hp => hafter k s hk ht fun hin => hp ⟨hin.1, hk.trans hin.2.symm⟩
  | @install p m hm k t tag ht ih =>
    intro k' s hk hs hp
    rw [not_or] at hp
    rw [EntryMap.install, slot?_put, if_neg hp.1] at hk
    exact ih k' s hk hs hp.2

/-- Only a tombstone whose slot is as it was installed may be without a record. What a collection
removes are the tombstones with a record, of those up to a vector all that it covers, and by age all
of them once the whole queue is due. A tombstone without a record outlasts all collections. -/
theorem tombstones_recorded (hm : m.Imaged p) {c : RegionCopy} (hc : c.map = m) :
    (∀ k e, m.entry? k = some e → e.token = .tombstone → ¬ p k →
      e.stamp.isVersioned = true ∧ c.isRecorded k e = true) ∧
    (∀ gc, c.Removes (fun k e => c.isRecorded k e && e.isCovered gc) (c.gcTombstones gc)) ∧
    (∀ now, m.queue.length ≤ m.config.batchLimit →
      (∀ r ∈ m.queue, r.deadline m.config.timeoutMs ≤ now) →
      c.Removes c.isRecorded (c.expireTombstones now)) ∧
    ∀ k e, m.entry? k = some e → c.isRecorded k e = false →
      ∀ c', c.Collects c' → c'.map.entry? k = some e := by
  subst hc
  refine ⟨fun k e he ht hp => ?_, c.gcTombstones_removes,
    fun now hlimit hdue => expireTombstones_removes hlimit hdue,
    fun k e he hnone c' hcollects => (Overlooked.collects ⟨he, hnone⟩ hcollects).1⟩
  obtain ⟨hver, r, hr, rfl, hstamp⟩ :=
    hm.queuedBut k e.slot (slot?_eq_some_iff.2 ⟨e, he, rfl⟩) ht hp
  exact ⟨hver, List.any_eq_true.2 ⟨r, hr, r.isFor_self (Token.isTombstone_iff.2 ht) hstamp⟩⟩

/-- A version of the sender of an image. -/
def imageTag (entryVersion regionVersion : Nat) : VersionTag :=
  { member := sender, entryVersion := entryVersion, regionVersion := regionVersion, timestamp := 0 }

theorem Imaged.operate (hm : m.Imaged p) (op : EntryCall) (rules : Rules) (now : Int)
    (event : EntryEvent) {r : Applied} {w : Task}
    (hok : op.run rules now { copy := { map := m }, event := event } = .ok (r, w)) :
    w.copy.map.Imaged fun k => p k ∧ w.copy.map.slot? k = m.slot? k :=
  hm.step (.operate op rules now event hok)

/-- Two keys are destroyed, and one of the tombstones is installed again with a newer version. The
other is collected, and this one stays. -/
theorem tombstones_recorded_replaced : ∃ (p : Key → Prop) (c : RegionCopy), Imaged p c.map ∧
    (c.map.entry? "a").map (·.token) = some .tombstone ∧
    (c.map.entry? "b").map (·.token) = some .tombstone ∧
    (c.gcTombstones (collectableUpTo 9)).2.map.entry? "a" = none ∧
    (c.gcTombstones (collectableUpTo 9)).2.map.entry? "b" = c.map.entry? "b" ∧
    (c.expireTombstones 600002).2.map.entry? "a" = none ∧
    (c.expireTombstones 600002).2.map.entry? "b" = c.map.entry? "b" := by
  have hboth := ((Imaged.new {}).operate (.destroy {} {}) replica 0
    (received (.ofDestroy "a") 1 1) rfl).operate (.destroy {} {}) replica 1
    (received (.ofDestroy "b") 1 2) rfl
  have himage := hboth.install "b" (some (imageTag 2 3)) (show Token.tombstone ≠ .detached by nofun)
  obtain ⟨p, c, hm, hp, ⟨a, ha, hta, hcovered⟩, ⟨b, hb, htb, hnone⟩, hlimit, hdue⟩ :
      ∃ (p : Key → Prop) (c : RegionCopy), Imaged p c.map ∧ ¬ p "a" ∧
        (∃ e, c.map.entry? "a" = some e ∧ e.token = .tombstone ∧
          e.isCovered (collectableUpTo 9) = true) ∧
        (∃ e, c.map.entry? "b" = some e ∧ e.token = .tombstone ∧ c.isRecorded "b" e = false) ∧
        c.map.queue.length ≤ c.map.config.batchLimit ∧
        ∀ r ∈ c.map.queue, r.deadline c.map.config.timeoutMs ≤ 600002 :=
    ⟨_, { map := _ }, himage, by simp, ⟨_, rfl, rfl, rfl⟩, ⟨_, rfl, rfl, rfl⟩, by decide, by decide⟩
  obtain ⟨hrecords, hgc, hexpire, hlasts⟩ := tombstones_recorded hm (c := c) rfl
  obtain ⟨-, hrecord⟩ := hrecords "a" a ha hta hp
  refine ⟨p, c, hm, by rw [ha]; exact congrArg some hta, by rw [hb]; exact congrArg some htb,
    ?_, ?_, ?_, ?_⟩
  · rw [(hgc _).entry, ha, Option.filter_some, hrecord, hcovered]
    rfl
  · exact (hlasts "b" b hb hnone _ (.gcTombstones .refl _)).trans hb.symm
  · rw [(hexpire _ hlimit hdue).entry, ha, Option.filter_some, hrecord]
    rfl
  · exact (hlasts "b" b hb hnone _ (.expireTombstones .refl _)).trans hb.symm

/-- A new map into which a tombstone was installed. -/
def imaged : RegionCopy := { map := ({} : EntryMap).install "k" .tombstone (some (imageTag 1 1)) }

/-- The tombstone of an image has the version that it was installed with, which is a valid one, and
no record. So it is never collected, not even once it is old and covered by a vector. -/
theorem installed_never_collected :
    Imaged (fun k => k = "k" ∨ False) imaged.map ∧ (imageTag 1 1).isValid = true ∧
      imaged.map.slot? "k" = some ⟨.tombstone, .ofTag (imageTag 1 1)⟩ ∧ imaged.map.queue = [] ∧
      1 ≤ (collectableUpTo 9).gcVersion sender ∧
      ∀ c', imaged.Collects c' → c'.map.isBuried "k" = true := by
  refine ⟨(Imaged.new {}).install "k" _ nofun, rfl, rfl, rfl, by decide, fun c' hc => ?_⟩
  have hthere : imaged.Overlooked "k" _ := ⟨rfl, rfl⟩
  rw [isBuried, (hthere.collects hc).1]
  rfl

end EntryMap
end DataGrid
