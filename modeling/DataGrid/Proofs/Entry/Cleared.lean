import DataGrid.Proofs.Entry.Imaged

/-
What a clear takes and what it leaves. Up to a vector it takes the entries that
have no version and those whose version the vector has seen, live or not, and
leaves the others and the whole queue of records as they were; so a tombstone
that is left has its record still, and can be collected. Without a vector it
takes all entries and all records.

Of what it took it answers the number of live entries, and takes the number of
tombstones off their count.
-/

namespace DataGrid

namespace RegionCopy

variable {n : Nat} {c : RegionCopy}

/-! ## What goes -/

/-- The entries of some kind are gone and no others, and the queue is what is left of it. The number
of live ones is answered, and the count of tombstones falls by that of the tombstones. -/
structure Clears (c : RegionCopy) (gone : Entry → Bool) (queue : List TombstoneRecord)
    (answer : Nat × RegionCopy) : Prop where
  entry : ∀ k, answer.2.map.entry? k = (c.map.entry? k).filter fun e => !gone e
  queue : answer.2.map.queue = queue
  live : answer.1 = (c.map.slots.filter fun _ e => gone e && e.token.isLive).size
  tombstones : answer.2.stats.tombstones +
    (c.map.slots.filter fun _ e => gone e && e.token.isTombstone).size = c.stats.tombstones

theorem clears_of_isCleared {gone : Entry → Bool} {queue : List TombstoneRecord}
    {upTo : Option VersionVector} (h : Run n c)
    (hgone : ∀ k e, c.map.entry? k = some e → isCleared upTo e = gone e)
    (hqueue : (c.clear upTo).2.map.queue = queue) : c.Clears gone queue (c.clear upTo) := by
  have hentry : ∀ k, (c.clear upTo).2.map.entry? k = (c.map.entry? k).filter fun e => !gone e := by
    intro k
    rw [entry?_clear]
    cases he : c.map.entry? k with
    | none => rfl
    | some e => rw [Option.filter_some, Option.filter_some, hgone k e he]
  refine ⟨hentry, hqueue, ?_, ?_⟩
  · have htaken : ((c.map.slots.filter fun _ e => isCleared upTo e).filter fun _ e =>
        e.token.isLive).toList = (c.map.slots.filter fun _ e => gone e && e.token.isLive).toList := by
      simp only [OrdMap.filter, List.filter_filter]
      refine List.filter_congr fun p hp => ?_
      rw [hgone p.1 p.2 (OrdMap.mem_toList_iff.1 hp), Bool.and_comm]
    exact congrArg List.length htaken
  · have hslots : (c.clear upTo).2.map.slots = c.map.slots.filter fun _ e => !gone e :=
      OrdMap.eq_of_find? fun k => by
        rw [OrdMap.find?_filter]
        exact hentry k
    rw [h.accounted.tombstones, (h.clear upTo).accounted.tombstones, EntryMap.tombstoneCount, hslots]
    exact c.map.slots.size_filter_add gone fun e => e.token.isTombstone

/-! ## What is left -/

/-- The entry goes with a collection up to any vector that has reached its version, and with one by
age that comes to its record and finds it, and all records before it, due. -/
structure Collectable (c : RegionCopy) (k : Key) (e : Entry) : Prop where
  byVersion : ∃ m, e.stamp.member = some m ∧ ∀ gc, e.stamp.regionVersion ≤ gc.gcVersion m →
    (c.gcTombstones gc).2.map.entry? k = none
  byAge : ∃ before r after, c.map.queue = before ++ r :: after ∧ r.key = k ∧ r.stamp = e.stamp ∧
    ∀ now, before.length < c.map.config.batchLimit →
      (∀ r' ∈ before ++ [r], r'.deadline c.map.config.timeoutMs ≤ now) →
        (c.expireTombstones now).2.map.entry? k = none

theorem mem_expired {now : Int} {before after : List TombstoneRecord} {r : TombstoneRecord}
    (hqueue : c.map.queue = before ++ r :: after)
    (hlimit : before.length < c.map.config.batchLimit)
    (hdue : ∀ r' ∈ before ++ [r], r'.deadline c.map.config.timeoutMs ≤ now) :
    r ∈ (c.expired now).1 := by
  have hfront : c.map.queue.take c.map.config.batchLimit = (before ++ [r]) ++
      after.take (c.map.config.batchLimit - (before ++ [r]).length) := by
    rw [hqueue, ← List.singleton_append, ← List.append_assoc, List.take_append,
      List.take_of_length_le]
    rw [List.length_append]
    exact hlimit
  have hexpired : (c.expired now).1 = (c.map.queue.take c.map.config.batchLimit).takeWhile
    (·.isExpired now c.map.config.timeoutMs) := rfl
  have hall : ∀ r' ∈ before ++ [r], r'.isExpired now c.map.config.timeoutMs = true :=
    fun r' hr' => decide_eq_true (hdue r' hr')
  rw [hexpired, hfront, List.takeWhile_append_of_pos hall]
  exact List.mem_append_left _ (List.mem_append_right _ List.mem_cons_self)

theorem collectable (h : Run n c) {k : Key} {e : Entry} (he : c.map.entry? k = some e)
    (ht : e.token = .tombstone) : c.Collectable k e := by
  obtain ⟨hversioned, r, hr, rfl, hstamp⟩ :=
    (EntryMap.Operated.of_run h).queued k e.slot (slot?_eq_some_iff.2 ⟨e, he, rfl⟩) ht
  have hfor : r.isFor r.key e = true := r.isFor_self (Token.isTombstone_iff.2 ht) hstamp
  refine ⟨?_, ?_⟩
  · obtain ⟨m, hm⟩ := Option.isSome_iff_exists.1 hversioned
    refine ⟨m, hm, fun gc hle => ?_⟩
    have hm : e.stamp.member = some m := hm
    have hcovered : e.isCovered gc = true := by
      rw [Entry.isCovered, Token.isTombstone_iff.2 ht, hm]
      exact decide_eq_true hle
    have hrecorded : c.isRecorded r.key e = true := List.any_eq_true.2 ⟨r, hr, hfor⟩
    rw [(c.gcTombstones_removes gc).entry, he, Option.filter_some, hrecorded, hcovered]
    rfl
  · obtain ⟨before, after, hqueue⟩ := List.append_of_mem hr
    refine ⟨before, r, after, hqueue, rfl, hstamp, fun now hlimit hdue => ?_⟩
    have hany : (c.expired now).1.any (·.isFor r.key e) = true :=
      List.any_eq_true.2 ⟨r, mem_expired hqueue hlimit hdue, hfor⟩
    rw [expireTombstones_eq, (removes_collectTaken c _ _).entry, he, Option.filter_some, hany]
    rfl

/-- A clear up to a vector removes exactly the entries without a version and those whose version the
vector contains, and no record; a clear of everything removes all entries and all records. They
answer the number of live entries that went, and the count of tombstones falls by that of the
tombstones that went. Every tombstone that is left can still be collected. -/
theorem clear_exact (h : Run n c) :
    (∀ v : VersionVector, c.Clears
      (fun e => e.stamp.member.all fun m => v.contains m e.stamp.regionVersion) c.map.queue
      (c.clear (some v))) ∧
    c.Clears (fun _ => true) [] (c.clear none) ∧
    ∀ upTo k e, (c.clear upTo).2.map.entry? k = some e → e.token = .tombstone →
      (c.clear upTo).2.Collectable k e := by
  have hattached : ∀ k e, c.map.entry? k = some e → e.token.isDetached = false := by
    intro k e he
    rw [Bool.eq_false_iff]
    intro hdetached
    exact (EntryMap.Operated.of_run h).reached.attached rfl k e.slot (slot?_eq_some_iff.2 ⟨e, he, rfl⟩)
      (Token.isDetached_iff.1 hdetached)
  refine ⟨fun v => ?_, ?_, fun upTo k e he ht => collectable (h.clear upTo) he ht⟩
  · refine clears_of_isCleared h (fun k e he => ?_) (queue_foldl_clearEntry _ c)
    unfold isCleared
    rw [hattached k e he]
    cases e.stamp.member <;> rfl
  · refine clears_of_isCleared h (fun k e he => ?_) rfl
    unfold isCleared
    rw [hattached k e he]
    rfl

/-- The versions of the sender up to a number were seen. -/
def seenUpTo (version : Nat) : VersionVector :=
  { owner := sender, holders := OrdMap.empty.insert sender (.upTo version) }

/-- Of a put and two destroys, and a put without a version, a clear up to the second version leaves
the last tombstone, which goes with the next collection up to its version. -/
theorem clear_exact_partial : ∃ n c, Run n c ∧ c.map.tombstoneCount = 2 ∧
    (c.clear (some (seenUpTo 2))).1 = 2 ∧ (c.clear (some (seenUpTo 2))).2.stats.tombstones = 1 ∧
    (c.clear (some (seenUpTo 2))).2.map.queue.length = 2 ∧
    ((c.clear (some (seenUpTo 2))).2.gcTombstones (collectableUpTo 3)).2.map.entry? "d" = none ∧
    ∀ k, (c.clear none).2.map.entry? k = none := by
  have ha := (Run.new {}).operate (.put {} {}) replica none 0 (received (.ofPut "a" "v") 1 1) rfl
    (by decide)
  have hb := ha.operate (.destroy {} {}) replica none 1 (received (.ofDestroy "b") 1 2) rfl
    (by decide)
  have hc := hb.operate (.put {} {}) replica none 2 (.ofPut "c" "v") rfl (by decide)
  have hd := hc.operate (.destroy {} {}) replica none 3 (received (.ofDestroy "d") 1 3) rfl
    (by decide)
  have hseen : ∃ n c, Run n c ∧ c.map.tombstoneCount = 2 ∧ c.map.queue.length = 2 ∧
      (c.map.slots.filter fun _ e => (e.stamp.member.all fun m =>
        (seenUpTo 2).contains m e.stamp.regionVersion) && e.token.isLive).size = 2 ∧
      (c.map.slots.filter fun _ e => (e.stamp.member.all fun m =>
        (seenUpTo 2).contains m e.stamp.regionVersion) && e.token.isTombstone).size = 1 ∧
      ∃ e, (c.clear (some (seenUpTo 2))).2.map.entry? "d" = some e ∧ e.token = .tombstone ∧
        e.stamp.member = some sender ∧ e.stamp.regionVersion = 3 :=
    ⟨_, _, hd, rfl, rfl, rfl, rfl, _, rfl, rfl, rfl, rfl⟩
  obtain ⟨n, c, h, hcount, hqueue, hlive, hburied, e, he, ht, hmember, hversion⟩ := hseen
  obtain ⟨hupTo, hall, hleft⟩ := clear_exact h
  have hsome := hupTo (seenUpTo 2)
  have htombstones := hsome.tombstones
  rw [hburied, h.accounted.tombstones, hcount] at htombstones
  obtain ⟨m, hm, hgc⟩ := (hleft _ _ e he ht).byVersion
  rw [hmember] at hm
  cases hm
  refine ⟨n, c, h, hcount, hsome.live.trans hlive, Nat.succ.inj htombstones,
    (congrArg _ hsome.queue).trans hqueue, hgc _ (hversion.trans_le (by decide)), fun k => ?_⟩
  rw [hall.entry]
  cases c.map.entry? k <;> rfl

end RegionCopy
end DataGrid
