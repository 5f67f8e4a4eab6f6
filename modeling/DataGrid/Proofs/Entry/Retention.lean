import DataGrid.Proofs.Entry.Collected

/-
For how long a tombstone is kept. A collection by age goes by the records in the
queue, so it is followed where every record came from, and which of them was
made with the tombstone that a key holds (`EntryMap.Dated`). A tombstone goes
only if a record of its key and version is due (`EntryMap.kept_until_due`).

That is not always when it has been kept for the timeout. The timeout is added
as a signed number, so one that is too large for that ends in the past. The sum
stops at the last time there is, so at that time everything is due. And if the
same version destroys a key a second time, after a clear that left the queue,
the record of the first time is due for both (`expired_by_older_record`).
-/

namespace DataGrid

/-! ## Deadlines -/

theorem signed64_of_le {n : Nat} (h : n ≤ timeMax) : signed64 n = n := by
  have hmax : timeMax = 9223372036854775807 := rfl
  exact Int.bmod_eq_of_le_mul_two (by simp only [UInt64.size]; omega)
    (by simp only [UInt64.size]; omega)

/-- With a timeout that a signed number can hold, a deadline that has passed is one before which the
whole timeout has, but for what stops at the last time. -/
theorem TombstoneRecord.due_of_deadline {r : TombstoneRecord} {timeoutMs : Nat} {now : Int}
    (h : r.deadline timeoutMs ≤ now) (hfits : timeoutMs ≤ timeMax) :
    r.createdAt + timeoutMs ≤ now ∨ timeMax ≤ now := by
  unfold deadline saturatingAdd at h
  rw [signed64_of_le hfits] at h
  omega

namespace RegionCopy

theorem mem_takeExpired {now : Int} {timeoutMs limit : Nat} {queue : List TombstoneRecord}
    {r : TombstoneRecord} (h : r ∈ (takeExpired now timeoutMs limit queue).1) :
    r ∈ queue ∧ r.deadline timeoutMs ≤ now := by
  have hdue : r.isExpired now timeoutMs = true :=
    List.mem_takeWhile_imp (p := fun x : TombstoneRecord => x.isExpired now timeoutMs) h
  exact ⟨List.mem_of_mem_take ((List.takeWhile_prefix _).subset h), of_decide_eq_true hdue⟩

/-! ## Records that come to the queue -/

variable {c c' : RegionCopy}

/-- A call makes no tombstone, and puts no record into the queue. -/
structure Thins (c c' : RegionCopy) : Prop where
  length : c'.map.queue.length ≤ c.map.queue.length
  queue : ∀ r ∈ c'.map.queue, r ∈ c.map.queue
  tombstones : ∀ k s, c'.slot? k = some s → s.token = .tombstone → c.slot? k = some s

theorem Spares.thins (h : c.Spares c') : c.Thins c' :=
  ⟨by rw [h.queue], fun r hr => by rwa [h.queue] at hr, h.tombstones⟩

theorem Swept.thins (h : c.Swept c') (hlength : c'.map.queue.length ≤ c.map.queue.length)
    (hqueue : ∀ r ∈ c'.map.queue, r ∈ c.map.queue) : c.Thins c' :=
  ⟨hlength, hqueue, fun _ _ hk _ => h.of_slot? hk⟩

theorem thins_clear (c : RegionCopy) (upTo : Option VersionVector) :
    c.Thins (c.clear upTo).2 := by
  have hqueue : (c.clear upTo).2.map.queue = if upTo.isNone then [] else c.map.queue := by
    simp only [clear, queue_foldl_clearEntry]
  refine ⟨?_, fun r hr => ?_, fun k s hk _ => of_slot?_clear hk⟩
  · rw [hqueue]
    split
    · exact Nat.zero_le _
    · exact Nat.le_refl _
  · rw [hqueue] at hr
    split at hr
    · cases hr
    · exact hr

theorem thins_expireTombstones (c : RegionCopy) (now : Int) :
    c.Thins (c.expireTombstones now).2 := by
  have hqueue : (c.expireTombstones now).2.map.queue = (c.expired now).2 := by
    rw [expireTombstones_eq, collectTaken, queue_collectAll]
  have htaken : (c.expired now).1 ++ (c.expired now).2 = c.map.queue := by
    rw [expired, takeExpired_append]
  refine (swept_expireTombstones now c).thins ?_ fun r hr => ?_
  · rw [hqueue, ← htaken, List.length_append]
    exact Nat.le_add_left _ _
  · rw [← htaken]
    exact List.mem_append_right _ (hqueue ▸ hr)

theorem thins_gcTombstones (c : RegionCopy) (gc : VersionVector) :
    c.Thins (c.gcTombstones gc).2 := by
  have hqueue : (c.gcTombstones gc).2.map.queue =
      c.map.queue.filter fun r => !r.isCollectable gc := by
    rw [gcTombstones_eq, collectTaken, queue_collectAll]
  refine (swept_gcTombstones gc c).thins ?_ fun r hr => ?_
  · rw [hqueue]
    exact List.length_filter_le _ _
  · exact (List.mem_filter.1 (hqueue ▸ hr)).1

theorem Step.buries_or_thins (h : c.Step c') (ha : c.Attached) :
    (∃ r, c.Buries r c') ∨ c.Thins c' := by
  cases h with
  | operate op rules now event hok =>
    exact (op.outcome ha hok).buries_or_spares.imp_right Spares.thins
  | clear upTo => exact .inr (thins_clear c upTo)
  | expireTombstones now => exact .inr (thins_expireTombstones c now)
  | gcTombstones gc => exact .inr (thins_gcTombstones c gc)

end RegionCopy

open RegionCopy

namespace EntryMap

/-! ## Where tombstones come from -/

/-- How the key came by its last tombstone. -/
inductive Origin
  | none
  /-- it was installed with an initial image, without a record -/
  | image
  /-- this record was made with it -/
  | burial (r : TombstoneRecord)

/-- What a call has put into the queue. -/
def queued (m m' : EntryMap) : List TombstoneRecord := m'.queue.drop m.queue.length

/-- Origins after a call that has put these records into the queue. -/
def originsAfter (records : List TombstoneRecord) (origin : Key → Origin) (k : Key) : Origin :=
  match records.find? (·.key == k) with
  | some r => .burial r
  | none => origin k

/-- Maps that calls have made of new ones, with all records that were ever made, and the origins of
the tombstones. -/
inductive Dated : List TombstoneRecord → (Key → Origin) → EntryMap → Prop
  | new (config : TombstoneConfig) : Dated [] (fun _ => .none) { config := config }
  | step {log : List TombstoneRecord} {origin : Key → Origin} {m : EntryMap}
      {vector : Option VersionVector} {stats : Stats} {c : RegionCopy} (hm : Dated log origin m)
      (hs : RegionCopy.Step { map := m, vector := vector, stats := stats } c) :
      Dated (log ++ m.queued c.map) (originsAfter (m.queued c.map) origin) c.map
  | install {log : List TombstoneRecord} {origin : Key → Origin} {m : EntryMap}
      (hm : Dated log origin m) (k : Key) {t : Token} (tag : Option VersionTag)
      (ht : t ≠ .detached) :
      Dated log (fun k' => if k' = k then .image else origin k') (m.install k t tag)

variable {log : List TombstoneRecord} {origin : Key → Origin} {m : EntryMap}

theorem Dated.reached (hm : m.Dated log origin) : m.Reached := by
  induction hm with
  | new config => exact .new config
  | step _ hs ih => exact .step ih hs
  | install _ k tag ht ih => exact .install ih k tag ht

theorem queued_of_buries {c c' : RegionCopy} {r : TombstoneRecord} (h : c.Buries r c') :
    c.map.queued c'.map = [r] := by
  rw [queued, h.queue, List.drop_left]

theorem queued_of_thins {c c' : RegionCopy} (h : c.Thins c') : c.map.queued c'.map = [] :=
  List.drop_of_length_le h.length

/-- The log has all records of the queue, and the one that was made with each tombstone. -/
structure Accounts (log : List TombstoneRecord) (origin : Key → Origin) (m : EntryMap) : Prop where
  queue : ∀ r ∈ m.queue, r ∈ log
  origin : ∀ k s, m.slot? k = some s → s.token = .tombstone → origin k = .image ∨
    ∃ r ∈ log, origin k = .burial r ∧ r.key = k ∧ r.stamp = s.stamp

theorem Accounts.buries {c c' : RegionCopy} {r : TombstoneRecord} (h : c.Buries r c')
    (hc : Accounts log origin c.map) :
    Accounts (log ++ [r]) (originsAfter [r] origin) c'.map := by
  refine ⟨fun r' hr' => ?_, fun k s hk ht => ?_⟩
  · rw [h.queue] at hr'
    exact (List.mem_append.1 hr').elim (fun hold => List.mem_append_left _ (hc.queue r' hold))
      fun hnew => List.mem_append_right _ hnew
  · by_cases hkey : k = r.key
    · subst hkey
      obtain rfl : s = ⟨.tombstone, r.stamp⟩ := Option.some.inj (hk.symm.trans h.made)
      exact .inr ⟨r, by simp, by simp [originsAfter], rfl, rfl⟩
    · have horigin : originsAfter [r] origin k = origin k := by
        simp [originsAfter, Ne.symm hkey]
      rw [horigin]
      refine (hc.origin k s (h.other k s hkey hk ht) ht).imp_right ?_
      rintro ⟨r', hr', hrest⟩
      exact ⟨r', List.mem_append_left _ hr', hrest⟩

theorem Accounts.thins {c c' : RegionCopy} (h : c.Thins c') (hc : Accounts log origin c.map) :
    Accounts log origin c'.map where
  queue r hr := hc.queue r (h.queue r hr)
  origin k s hk ht := hc.origin k s (h.tombstones k s hk ht) ht

theorem Accounts.install (h : Accounts log origin m) (k : Key) (t : Token)
    (tag : Option VersionTag) :
    Accounts log (fun k' => if k' = k then .image else origin k') (m.install k t tag) := by
  refine ⟨h.queue, fun k' s hk ht => ?_⟩
  rw [EntryMap.install, slot?_put] at hk
  split at hk
  next heq => exact .inl (if_pos heq)
  next hne =>
    rw [if_neg hne]
    exact h.origin k' s hk ht

theorem Dated.accounts (hm : m.Dated log origin) : Accounts log origin m := by
  induction hm with
  | new config => exact ⟨List.forall_mem_nil _, fun _ _ hk => nomatch hk⟩
  | @step log origin m vector stats c hm hs ih =>
    rcases hs.buries_or_thins (hm.reached.attached rfl) with ⟨r, hburies⟩ | hthins
    · have hqueued : m.queued c.map = [r] := queued_of_buries hburies
      rw [hqueued]
      exact Accounts.buries hburies ih
    · have hqueued : m.queued c.map = [] := queued_of_thins hthins
      rw [hqueued, List.append_nil]
      exact Accounts.thins hthins ih
  | install _ k tag _ ih => exact ih.install k _ tag

/-! ## What goes by age -/

/-- A collection by age at some time removes only tombstones, and each only if a record was made for
its key and its version that is due. The tombstone was installed, or else a record was made with it
that has its key and its stamp. If no earlier record has its key and version, the timeout is one that
a signed number can hold, and the collection is before the last time or the end of the timeout is not
after it, then the tombstone has been kept for the whole timeout since its own record was made. -/
theorem kept_until_due (hm : m.Dated log origin) (vector : Option VersionVector) (stats : Stats)
    (now : Int) {k : Key} {e : Entry} (he : m.entry? k = some e)
    (hgone : (RegionCopy.expireTombstones now ⟨m, vector, stats⟩).2.map.entry? k = none) :
    e.token = .tombstone ∧
      (∃ r ∈ log, r.key = k ∧ r.matchesStamp e.stamp = true ∧
        r.deadline m.config.timeoutMs ≤ now) ∧
      (origin k = .image ∨ ∃ r ∈ log, origin k = .burial r ∧ r.key = k ∧ r.stamp = e.stamp ∧
        ((∀ r' ∈ log, r'.key = k → r'.matchesStamp e.stamp = true →
            r.createdAt ≤ r'.createdAt) → m.config.timeoutMs ≤ timeMax →
          now < timeMax ∨ r.createdAt + m.config.timeoutMs ≤ timeMax →
            r.createdAt + m.config.timeoutMs ≤ now)) := by
  have haccounts := hm.accounts
  obtain ⟨r, hr, hdue, hfor⟩ : ∃ r ∈ m.queue, r.deadline m.config.timeoutMs ≤ now ∧
      r.isFor k e = true := by
    rw [expireTombstones_eq, (removes_collectTaken _ _ _).entry, he, Option.filter_eq_none_iff]
      at hgone
    have hany := hgone e rfl
    rw [Bool.not_eq_true, Bool.not_eq_false', List.any_eq_true] at hany
    obtain ⟨r, hr, hfor⟩ := hany
    obtain ⟨hqueue, hdue⟩ := mem_takeExpired hr
    exact ⟨r, hqueue, hdue, hfor⟩
  simp only [TombstoneRecord.isFor, Bool.and_eq_true, beq_iff_eq] at hfor
  obtain ⟨hkey, htoken, hmatches⟩ := hfor
  have hbefore := haccounts.queue r hr
  have ht : e.token = .tombstone := Token.isTombstone_iff.1 htoken
  refine ⟨ht, ⟨r, hbefore, hkey, hmatches, hdue⟩, ?_⟩
  have hslot : m.slot? k = some e.slot := congrArg (Option.map Entry.slot) he
  refine (haccounts.origin k e.slot hslot ht).imp_right ?_
  rintro ⟨made, hmade, horigin, hmadeKey, hstamp⟩
  refine ⟨made, hmade, horigin, hmadeKey, hstamp, fun hfirst hfits hend => ?_⟩
  have hsince : made.createdAt ≤ r.createdAt := hfirst r hbefore hkey hmatches
  rcases TombstoneRecord.due_of_deadline hdue hfits with hkept | hlast <;> omega

theorem Dated.operate (hm : m.Dated log origin) (op : EntryCall) (rules : Rules) (now : Int)
    (event : EntryEvent) {r : Applied} {w : Task}
    (hok : op.run rules now { copy := { map := m }, event := event } = .ok (r, w)) :
    w.copy.map.Dated (log ++ m.queued w.copy.map) (originsAfter (m.queued w.copy.map) origin) :=
  hm.step (.operate op rules now event hok)

/-- A key is destroyed, written and destroyed again. The second tombstone is kept for the timeout,
though the record of the first is due when its half is over. -/
theorem kept_until_due_reburied : ∃ log origin m e, Dated log origin m ∧
    m.queue.length = 2 ∧ m.entry? "k" = some e ∧
    ((⟨m, none, {}⟩ : RegionCopy).expireTombstones 600002).2.map.entry? "k" = some e ∧
    ((⟨m, none, {}⟩ : RegionCopy).expireTombstones 900002).2.map.entry? "k" = none ∧
    ∃ r, origin "k" = .burial r ∧ r.createdAt + 600000 ≤ 900002 := by
  have hburied := (Dated.new {}).operate (.destroy {} {}) replica 0
    (received (.ofDestroy "k") 1 1) rfl
  have hput := hburied.operate (.put {} {}) replica 1 (received (.ofPut "k" "v") 2 2) rfl
  have hagain := hput.operate (.destroy {} {}) replica 300002 (received (.ofDestroy "k") 3 3) rfl
  obtain ⟨log, origin, m, e, hm, hlength, he, hkept, hgone, htimeout, r, hr, hfirst⟩ :
      ∃ log origin m e, Dated log origin m ∧ m.queue.length = 2 ∧ m.entry? "k" = some e ∧
        ((⟨m, none, {}⟩ : RegionCopy).expireTombstones 600002).2.map.entry? "k" = some e ∧
        ((⟨m, none, {}⟩ : RegionCopy).expireTombstones 900002).2.map.entry? "k" = none ∧
        m.config.timeoutMs = 600000 ∧ ∃ r, origin "k" = .burial r ∧
        ∀ r' ∈ log, r'.key = "k" → r'.matchesStamp e.stamp = true → r.createdAt ≤ r'.createdAt :=
    ⟨_, _, _, _, hagain, rfl, rfl, rfl, rfl, rfl, _, rfl, by decide⟩
  obtain ⟨-, -, himage | ⟨made, -, hmade, -, -, hdue⟩⟩ := kept_until_due hm none {} 900002 he hgone
  · exact nomatch himage.symm.trans hr
  · obtain rfl : made = r := Origin.burial.inj (hmade.symm.trans hr)
    rw [htimeout] at hdue
    exact ⟨log, origin, m, e, hm, hlength, he, hkept, hgone, made, hr,
      hdue hfirst (by decide) (.inl (by decide))⟩

/-- With the largest timeout a tombstone can be collected as soon as it was made. -/
theorem expired_at_once : ∃ log origin m r, Dated log origin m ∧
    m.config.timeoutMs = counterMax ∧ origin "k" = .burial r ∧ r.createdAt = 1000 ∧
    m.isBuried "k" = true ∧
    ((⟨m, none, {}⟩ : RegionCopy).expireTombstones 1000).1 = 1 ∧
    ((⟨m, none, {}⟩ : RegionCopy).expireTombstones 1000).2.map.entry? "k" = none ∧
    ¬ r.createdAt + m.config.timeoutMs ≤ 1000 := by
  have hburied := (Dated.new { timeoutMs := counterMax }).operate (.destroy {} {}) replica 1000
    (received (.ofDestroy "k") 1 1) rfl
  exact ⟨_, _, _, _, hburied, rfl, rfl, rfl, rfl, rfl, rfl, by decide⟩

/-- A clear that leaves the queue, and the same destroy again: the second tombstone goes with the
record of the first. -/
theorem expired_by_older_record : ∃ log origin m r, Dated log origin m ∧
    m.config.timeoutMs = 600000 ∧ origin "k" = .burial r ∧ r.createdAt = 500000 ∧
    m.isBuried "k" = true ∧
    ((⟨m, none, {}⟩ : RegionCopy).expireTombstones 600000).2.map.entry? "k" = none := by
  have hburied := (Dated.new {}).operate (.destroy {} {}) replica 0
    (received (.ofDestroy "k") 1 1) rfl
  have hcleared := @Dated.step _ _ _ none {} _ hburied
    (.clear (some { owner := sender, holders := OrdMap.empty.insert sender { version := 1 } }))
  have hagain := hcleared.operate (.destroy {} {}) replica 500000
    (received (.ofDestroy "k") 1 1) rfl
  exact ⟨_, _, _, _, hagain, rfl, rfl, rfl, rfl, rfl⟩

end EntryMap
end DataGrid
