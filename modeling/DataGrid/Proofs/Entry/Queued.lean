import DataGrid.Proofs.Entry.Tally
import Mathlib.Data.List.TakeWhile

/-
Tombstones and the records that stand for them. The queue may hold records of
tombstones that are gone, and of several tombstones that one key had in turn;
but each tombstone that is there has a record with its key and its very stamp
(`EntryMap.Queued`). A record leaves the queue only when it is collected, and
takes the tombstone it stands for with it, or when a clear takes all entries.

So a collection does to the entries what a filter by its records does, and
where the whole queue is collected no tombstone is left.
-/

namespace DataGrid

open DataGrid.Task

namespace TombstoneRecord

/-- The entry of the key is a tombstone that the record stands for. -/
def isFor (r : TombstoneRecord) (k : Key) (e : Entry) : Bool :=
  r.key == k && (e.token.isTombstone && r.matchesStamp e.stamp)

theorem matchesStamp_self (r : TombstoneRecord) : r.matchesStamp r.stamp = true := by
  unfold matchesStamp
  cases hm : r.stamp.member with
  | none => simp [Member.sameOption]
  | some m => simp [Member.sameOption, m.same_refl]

theorem isFor_self (r : TombstoneRecord) {e : Entry} (ht : e.token.isTombstone = true)
    (hs : r.stamp = e.stamp) : r.isFor r.key e = true := by
  have hmatches := r.matchesStamp_self
  rw [hs] at hmatches
  simp [isFor, ht, hmatches]

end TombstoneRecord

namespace RegionCopy

/-! ## What records collect -/

/-- What one more record collects. -/
def collectNext (p : Nat × RegionCopy) (r : TombstoneRecord) : Nat × RegionCopy :=
  (p.1 + (p.2.collect r).toList.length, (p.2.collect r).getD p.2)

theorem collectAll_eq (c : RegionCopy) (records : List TombstoneRecord) :
    c.collectAll records = records.foldl collectNext (0, c) := by
  unfold collectAll
  congr 1
  funext ⟨n, c⟩ r
  unfold collectNext
  dsimp only
  cases c.collect r <;> rfl

theorem entry?_collect (c : RegionCopy) (r : TombstoneRecord) (k : Key) :
    ((c.collect r).getD c).map.entry? k =
      (c.map.entry? k).filter fun e => !r.isFor k e := by
  by_cases hk : k = r.key
  · subst hk
    unfold collect TombstoneRecord.isFor
    cases he : c.map.entry? r.key with
    | none => exact he
    | some e =>
      have hgone : (c.detach r.key).map.entry? r.key = none :=
        (c.map.entry?_detach r.key r.key).trans (if_pos rfl)
      rw [Option.filter_some]
      cases hc : e.token.isTombstone && r.matchesStamp e.stamp with
      | false => simpa [hc] using he
      | true => simpa [hc] using hgone
  · -- the entry of another key stays, and the record does not stand for it
    have hother : ((c.collect r).getD c).map.entry? k = c.map.entry? k := by
      unfold collect
      split
      · split
        · exact (c.map.entry?_detach r.key k).trans (if_neg hk)
        · rfl
      · rfl
    have hfor : ∀ e, r.isFor k e = false := fun e => by
      simp [TombstoneRecord.isFor, Ne.symm hk]
    rw [hother]
    cases c.map.entry? k with
    | none => rfl
    | some e => rw [Option.filter_some, hfor, Bool.not_false, if_pos rfl]

theorem queue_collect (c : RegionCopy) (r : TombstoneRecord) :
    ((c.collect r).getD c).map.queue = c.map.queue := by
  unfold collect
  split
  · split <;> rfl
  · rfl

/-- An entry stays if it is not a tombstone that one of the records stands for. -/
theorem entry?_collectAll (c : RegionCopy) (records : List TombstoneRecord) (k : Key) :
    (c.collectAll records).2.map.entry? k =
      (c.map.entry? k).filter fun e => !records.any (·.isFor k e) := by
  have hfold : ∀ (records : List TombstoneRecord) (p : Nat × RegionCopy),
      (records.foldl collectNext p).2.map.entry? k =
        (p.2.map.entry? k).filter fun e => !records.any (·.isFor k e) := by
    intro records
    induction records with
    | nil => intro p; cases h : p.2.map.entry? k <;> exact h
    | cons r records ih =>
      intro p
      rw [List.foldl_cons, ih, collectNext, entry?_collect, Option.filter_filter]
      congr 1
      funext e
      rw [List.any_cons, Bool.not_or]
  rw [collectAll_eq, hfold]

theorem queue_collectAll (c : RegionCopy) (records : List TombstoneRecord) :
    (c.collectAll records).2.map.queue = c.map.queue := by
  rw [collectAll_eq]
  refine List.foldlRecOn records collectNext (b := (0, c))
    (motive := fun p => p.2.map.queue = c.map.queue) rfl fun p hp r _ => ?_
  exact (queue_collect p.2 r).trans hp

/-! ## Collections -/

/-- Take some records out of the queue and collect what they stand for. -/
def collectTaken (c : RegionCopy) (taken kept : List TombstoneRecord) : Nat × RegionCopy :=
  { c with map := { c.map with queue := kept } }.collectAll taken

/-- The records that a collection by age takes, and those that it leaves. -/
def expired (c : RegionCopy) (now : Int) : List TombstoneRecord × List TombstoneRecord :=
  takeExpired now c.map.config.timeoutMs c.map.config.batchLimit c.map.queue

theorem expireTombstones_eq (c : RegionCopy) (now : Int) :
    c.expireTombstones now = c.collectTaken (c.expired now).1 (c.expired now).2 := rfl

theorem gcTombstones_eq (c : RegionCopy) (gc : VersionVector) :
    c.gcTombstones gc = c.collectTaken (c.map.queue.filter (·.isCollectable gc))
      (c.map.queue.filter fun r => !r.isCollectable gc) := by
  unfold gcTombstones
  rw [List.partition_eq_filter_filter]
  rfl

theorem takeExpired_append (now : Int) (timeoutMs limit : Nat) (queue : List TombstoneRecord) :
    (takeExpired now timeoutMs limit queue).1 ++ (takeExpired now timeoutMs limit queue).2 =
      queue := by
  have htaken : (takeExpired now timeoutMs limit queue).1 =
      queue.take (takeExpired now timeoutMs limit queue).1.length := by
    have hprefix : (takeExpired now timeoutMs limit queue).1 <+: queue :=
      (List.takeWhile_prefix _).trans (List.take_prefix _ _)
    exact List.prefix_iff_eq_take.1 hprefix
  rw [htaken]
  exact List.take_append_drop _ _

theorem takeExpired_all {now : Int} {timeoutMs limit : Nat} {queue : List TombstoneRecord}
    (hlimit : queue.length ≤ limit) (hdue : ∀ r ∈ queue, r.isExpired now timeoutMs = true) :
    takeExpired now timeoutMs limit queue = (queue, []) := by
  have hexpired : (queue.take limit).takeWhile (·.isExpired now timeoutMs) = queue := by
    rw [List.take_of_length_le hlimit, List.takeWhile_eq_self_iff]
    exact hdue
  simp only [takeExpired, hexpired, List.drop_length]

end RegionCopy

/-! ## Every tombstone has its record -/

namespace EntryMap

/-- Every tombstone has a version, and a record in the queue that was made for it. -/
def Queued (m : EntryMap) : Prop :=
  ∀ k s, m.slot? k = some s → s.token = .tombstone →
    s.stamp.isVersioned = true ∧ ∃ r ∈ m.queue, r.key = k ∧ r.stamp = s.stamp

/-- So it is with every tombstone but some. -/
def QueuedBut (p : Key → Slot → Prop) (m : EntryMap) : Prop :=
  ∀ k s, m.slot? k = some s → s.token = .tombstone → ¬ p k s →
    s.stamp.isVersioned = true ∧ ∃ r ∈ m.queue, r.key = k ∧ r.stamp = s.stamp

variable {m m' : EntryMap} {p : Key → Slot → Prop}

theorem Queued.but (h : m.Queued) : m.QueuedBut p := fun k s hk ht _ => h k s hk ht

theorem QueuedBut.none (h : m.QueuedBut fun _ _ => False) : m.Queued := fun k s hk ht =>
  h k s hk ht id

/-- Tombstones may go, and records come. -/
theorem QueuedBut.frame (h : m.QueuedBut p)
    (hs : ∀ k s, m'.slot? k = some s → s.token = .tombstone → m.slot? k = some s)
    (hq : ∀ r ∈ m.queue, r ∈ m'.queue) : m'.QueuedBut p := by
  intro k s hk ht hp
  obtain ⟨hver, r, hr, hkey, hstamp⟩ := h k s (hs k s hk ht) ht hp
  exact ⟨hver, r, hq r hr, hkey, hstamp⟩

end EntryMap

open RegionCopy

variable {p : Key → Slot → Prop}

namespace RegionCopy

variable {c c' : RegionCopy}

/-- A call makes a tombstone, with a record at the end of the queue. -/
structure Buries (c : RegionCopy) (r : TombstoneRecord) (c' : RegionCopy) : Prop where
  queue : c'.map.queue = c.map.queue ++ [r]
  versioned : r.stamp.isVersioned = true
  made : c'.slot? r.key = some ⟨.tombstone, r.stamp⟩
  other : ∀ k s, k ≠ r.key → c'.slot? k = some s → s.token = .tombstone → c.slot? k = some s

/-- A call makes no tombstone, and leaves the queue. -/
structure Spares (c c' : RegionCopy) : Prop where
  queue : c'.map.queue = c.map.queue
  tombstones : ∀ k s, c'.slot? k = some s → s.token = .tombstone → c.slot? k = some s

theorem Buries.queuedBut {r : TombstoneRecord} (h : c.Buries r c') (hq : c.map.QueuedBut p) :
    c'.map.QueuedBut p := by
  intro k s hk ht hp
  by_cases hkey : k = r.key
  · subst hkey
    obtain rfl : s = ⟨.tombstone, r.stamp⟩ := Option.some.inj (hk.symm.trans h.made)
    exact ⟨h.versioned, r, by rw [h.queue]; exact List.mem_append_right _ List.mem_cons_self, rfl,
      rfl⟩
  · obtain ⟨hver, r', hr', hrest⟩ := hq k s (h.other k s hkey hk ht) ht hp
    exact ⟨hver, r', by rw [h.queue]; exact List.mem_append_left _ hr', hrest⟩

theorem Spares.queuedBut (h : c.Spares c') (hq : c.map.QueuedBut p) : c'.map.QueuedBut p :=
  hq.frame h.tombstones fun _ hr => by rwa [h.queue]

end RegionCopy

theorem Task.Leaves.spares {w w' : Task} {s : Option Slot} {vector : Option VersionVector}
    (h : w.Leaves w' s w.copy.map.queue vector)
    (hs : ∀ x, s = some x → x.token = .tombstone → w.copy.slot? w.key = some x) :
    w.copy.Spares w'.copy := by
  refine ⟨h.queue, fun k x hk ht => ?_⟩
  rw [h.slot] at hk
  split at hk
  next heq => exact heq ▸ hs x hk ht
  next => exact hk

/-- An operation makes one tombstone at most, and with it a record. -/
theorem EntryCall.Outcome.buries_or_spares {op : EntryCall} {rules : Rules} {now : Int}
    {w w' : Task} {r : Applied} (h : op.Outcome rules now w r w') :
    (∃ record, w.copy.Buries record w'.copy) ∨ w.copy.Spares w'.copy := by
  cases h with
  | refused _ _ _ h => exact .inr ⟨h.queue, fun k s hk _ => (h.slot k).symm.trans hk⟩
  | marked _ _ h =>
    refine .inr (h.spares fun x hx ht => ?_)
    cases hx
    have hmark := isTombstone_invalidMark w.event
    rw [Token.isTombstone_iff.2 ht] at hmark
    cases hmark
  | parked _ h => exact .inr (h.spares fun x hx ht => by cases hx; cases ht)
  | applied hturned h =>
    cases hturned with
    | @written t hwritten =>
      refine .inr (h.spares fun x hx ht => ?_)
      cases hx
      rcases hwritten with hlive | rfl
      · cases ht
        cases hlive
      · cases ht
    | @buried t htag hvalid =>
      refine .inl ⟨_, h.queue, rfl, (h.slot w.key).trans (if_pos rfl), fun k s hk hs _ => ?_⟩
      rwa [h.slot, if_neg hk] at hs
    | removed => exact .inr (h.spares fun _ hx => nomatch hx)
    | kept =>
      -- what was met is a tombstone only if it was there
      refine .inr (h.spares fun x hx ht => ?_)
      cases hx
      cases hs : w.copy.slot? w.key with
      | none =>
        rw [met_of_none hs] at ht
        cases ht
      | some s => rw [met_of_some hs]

theorem EntryCall.Outcome.queuedBut {op : EntryCall} {rules : Rules} {now : Int} {w w' : Task}
    {r : Applied} (h : op.Outcome rules now w r w') (hq : w.copy.map.QueuedBut p) :
    w'.copy.map.QueuedBut p := by
  rcases h.buries_or_spares with ⟨record, hburies⟩ | hspares
  · exact hburies.queuedBut hq
  · exact hspares.queuedBut hq

namespace RegionCopy

variable {c c' : RegionCopy}

/-- A clear of everything leaves no tombstone, and any other leaves the queue. -/
theorem queuedBut_clear (h : c.map.QueuedBut p) (upTo : Option VersionVector) :
    (c.clear upTo).2.map.QueuedBut p := by
  cases upTo with
  | none =>
    intro k s hk ht _
    obtain ⟨e, -, rfl, hkept⟩ := slot?_clear_eq_some hk
    have ht : e.token = .tombstone := ht
    simp [isCleared, ht, Token.isDetached, Token.kind] at hkept
  | some v =>
    have hqueue : (c.clear (some v)).2.map.queue = c.map.queue := queue_foldl_clearEntry _ c
    refine h.frame (fun k s hk _ => of_slot?_clear hk) fun r hr => ?_
    rwa [hqueue]

/-- A record that goes takes its tombstone with it. -/
theorem queuedBut_collectTaken (h : c.map.QueuedBut p) {taken kept : List TombstoneRecord}
    (hqueue : ∀ r ∈ c.map.queue, r ∈ taken ∨ r ∈ kept) :
    (c.collectTaken taken kept).2.map.QueuedBut p := by
  intro k s hk ht hp
  obtain ⟨e, he, rfl⟩ := slot?_eq_some_iff.1 hk
  rw [collectTaken, entry?_collectAll, Option.filter_eq_some_iff, Bool.not_eq_true'] at he
  obtain ⟨he, hleft⟩ := he
  obtain ⟨hver, r, hr, hkey, hstamp⟩ := h k e.slot (slot?_eq_some_iff.2 ⟨e, he, rfl⟩) ht hp
  refine ⟨hver, r, ?_, hkey, hstamp⟩
  rw [collectTaken, queue_collectAll]
  rcases hqueue r hr with htaken | hkept
  · have hfor := r.isFor_self (Token.isTombstone_iff.2 ht) hstamp
    rw [hkey] at hfor
    exact absurd hfor (List.any_eq_false.1 hleft r htaken)
  · exact hkept

theorem queuedBut_expireTombstones (h : c.map.QueuedBut p) (now : Int) :
    (c.expireTombstones now).2.map.QueuedBut p := by
  rw [expireTombstones_eq]
  refine queuedBut_collectTaken h fun r hr => ?_
  rw [← List.mem_append, expired, takeExpired_append]
  exact hr

theorem queuedBut_gcTombstones (h : c.map.QueuedBut p) (gc : VersionVector) :
    (c.gcTombstones gc).2.map.QueuedBut p := by
  rw [gcTombstones_eq]
  refine queuedBut_collectTaken h fun r hr => ?_
  cases hc : r.isCollectable gc with
  | true => exact .inl (List.mem_filter.2 ⟨hr, hc⟩)
  | false => exact .inr (List.mem_filter.2 ⟨hr, by rw [hc]; rfl⟩)

/-- A call leaves no tombstone without a record, but one that it met like that. -/
theorem Step.queuedBut (h : c.Step c') (ha : c.Attached) (hq : c.map.QueuedBut p) :
    c'.map.QueuedBut p := by
  cases h with
  | operate op rules now event hok => exact (op.outcome ha hok).queuedBut hq
  | clear upTo => exact queuedBut_clear hq upTo
  | expireTombstones now => exact queuedBut_expireTombstones hq now
  | gcTombstones gc => exact queuedBut_gcTombstones hq gc

end RegionCopy

namespace EntryMap

/-- Maps that operations, clears and collections have made of new ones. -/
inductive Operated : EntryMap → Prop
  | new (config : TombstoneConfig) : Operated { config := config }
  | step {m : EntryMap} {vector : Option VersionVector} {stats : Stats} {c : RegionCopy}
      (hm : Operated m) (hs : RegionCopy.Step { map := m, vector := vector, stats := stats } c) :
      Operated c.map

variable {m : EntryMap}

theorem Operated.reached (hm : m.Operated) : m.Reached := by
  induction hm with
  | new config => exact .new config
  | step _ hs ih => exact .step ih hs

theorem Operated.operate (hm : m.Operated) (op : EntryCall) (rules : Rules)
    (vector : Option VersionVector) (stats : Stats) (now : Int) (event : EntryEvent) {r : Applied}
    {w : Task} (hok : op.run rules now { copy := ⟨m, vector, stats⟩, event := event } = .ok (r, w)) :
    w.copy.map.Operated := hm.step (.operate op rules now event hok)

theorem Operated.of_run {n : Nat} {c : RegionCopy} (h : Run n c) : c.map.Operated := by
  induction h with
  | new config => exact .new config
  | operate _ op rules vector now event hok _ ih => exact ih.operate op rules vector _ now event hok
  | clear _ upTo ih => exact ih.step (.clear upTo)
  | expireTombstones _ now ih => exact ih.step (.expireTombstones now)
  | gcTombstones _ gc ih => exact ih.step (.gcTombstones gc)

theorem Operated.queued (hm : m.Operated) : m.Queued := by
  induction hm with
  | new config => exact fun _ _ hk => nomatch hk
  | step hm hs ih => exact (hs.queuedBut (hm.reached.attached rfl) ih.but).none

/-- No entry of a map is detached, and every tombstone has a version and a record in the queue with
its key and its stamp. So a collection that takes the whole queue leaves no tombstone. -/
theorem tombstones_collectable (hm : m.Operated) :
    (∀ k s, m.slot? k = some s → s.token ≠ .detached ∧
      (s.token = .tombstone →
        s.stamp.isVersioned = true ∧ ∃ r ∈ m.queue, r.key = k ∧ r.stamp = s.stamp)) ∧
    ∀ (c : RegionCopy) (now : Int), c.map = m → m.queue.length ≤ m.config.batchLimit →
      (∀ r ∈ m.queue, r.deadline m.config.timeoutMs ≤ now) →
      (c.expireTombstones now).2.map.tombstoneCount = 0 := by
  refine ⟨fun k s hk => ⟨hm.reached.attached (c := { map := m }) rfl k s hk, hm.queued k s hk⟩,
    fun c now hc hlimit hdue => ?_⟩
  have hqueued : (c.expireTombstones now).2.map.Queued := by
    refine (queuedBut_expireTombstones (Queued.but ?_) now).none
    rw [hc]
    exact hm.queued
  have hempty : (c.expireTombstones now).2.map.queue = [] := by
    rw [expireTombstones_eq, collectTaken, queue_collectAll, expired, hc,
      takeExpired_all hlimit fun r hr => decide_eq_true (hdue r hr)]
  refine tombstoneCount_eq_zero fun k => ?_
  rw [Bool.eq_false_iff]
  intro hburied
  obtain ⟨e, he, ht⟩ := (Option.any_eq_true _ _).1 hburied
  obtain ⟨-, r, hr, -⟩ := hqueued k e.slot (slot?_eq_some_iff.2 ⟨e, he, rfl⟩)
    (Token.isTombstone_iff.1 ht)
  rw [hempty] at hr
  cases hr

/-- A key is destroyed, written and destroyed again, which leaves two records for one tombstone. -/
theorem tombstones_collectable_reburied : ∃ c : RegionCopy, c.map.Operated ∧
    c.map.queue.length = 2 ∧ c.map.tombstoneCount = 1 ∧
      (c.expireTombstones 600002).2.map.tombstoneCount = 0 := by
  have hburied := (Operated.new {}).operate (.destroy {} {}) replica none {} 0
    (received (.ofDestroy "k") 1 1) rfl
  have hput := hburied.operate (.put {} {}) replica none {} 1 (received (.ofPut "k" "v") 2 2) rfl
  have hagain := hput.operate (.destroy {} {}) replica none {} 2
    (received (.ofDestroy "k") 3 3) rfl
  obtain ⟨c, hm, hlength, hcount, hlimit, hdue⟩ : ∃ c : RegionCopy, c.map.Operated ∧
      c.map.queue.length = 2 ∧ c.map.tombstoneCount = 1 ∧ 2 ≤ c.map.config.batchLimit ∧
      ∀ r ∈ c.map.queue, r.deadline c.map.config.timeoutMs ≤ 600002 :=
    ⟨{ map := _ }, hagain, rfl, rfl, by decide, by decide⟩
  obtain ⟨-, hexpire⟩ := tombstones_collectable hm
  exact ⟨c, hm, hlength, hcount, hexpire c 600002 rfl (hlength.trans_le hlimit) hdue⟩

end EntryMap
end DataGrid
