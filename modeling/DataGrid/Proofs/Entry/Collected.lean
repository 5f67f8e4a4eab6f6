import DataGrid.Proofs.Entry.Queued

/-
What a collection removes, and what it answers. It works from records, which
may speak of tombstones that are long gone; but as every tombstone has a record
with its very stamp, a collection up to a vector comes to a filter of the
entries by their own stamps, in which no record appears. The number it answers
is by how much the map got smaller.
-/

namespace DataGrid

theorem VersionVector.gcVersion_congr (gc : VersionVector) {m m' : Member}
    (hs : m.same m' = true) : gc.gcVersion m = gc.gcVersion m' := by
  rw [gcVersion, gcVersion, OrdMap.find?_congr _ (Member.same_iff.1 hs)]

/-- The entry is a tombstone, of a version that the vector allows to be collected. -/
def Entry.isCovered (gc : VersionVector) (e : Entry) : Bool :=
  e.token.isTombstone && e.stamp.member.any fun m => e.stamp.regionVersion ≤ gc.gcVersion m

/-- A record is collectable just when the tombstone it stands for is covered. -/
theorem TombstoneRecord.isCollectable_eq {r : TombstoneRecord} {k : Key} {e : Entry}
    (h : r.isFor k e = true) (gc : VersionVector) : r.isCollectable gc = e.isCovered gc := by
  simp only [isFor, matchesStamp, Bool.and_eq_true, beq_iff_eq] at h
  obtain ⟨-, htoken, ⟨hmember, hversion⟩, -⟩ := h
  unfold isCollectable Entry.isCovered
  rw [htoken, Bool.true_and, hversion]
  cases he : e.stamp.member <;> cases hr : r.stamp.member <;>
    simp only [he, hr, Member.sameOption, Bool.false_eq_true] at hmember
  · rfl
  · exact congrArg (fun n => decide (r.stamp.regionVersion ≤ n)) (gc.gcVersion_congr hmember).symm

namespace RegionCopy

variable {c c' : RegionCopy}

/-! ## Counting what goes -/

/-- The map got smaller by `n` entries, which were tombstones. -/
structure Shrinks (c : RegionCopy) (n : Nat) (c' : RegionCopy) : Prop where
  slots : c'.map.slots.size + n = c.map.slots.size
  tombstones : c'.map.tombstoneCount + n = c.map.tombstoneCount

theorem Shrinks.trans {u : RegionCopy} {i n : Nat} (h : c.Shrinks i u) (h' : u.Shrinks n c') :
    c.Shrinks (i + n) c' where
  slots := by rw [← h.slots, ← h'.slots, Nat.add_comm i, Nat.add_assoc]
  tombstones := by rw [← h.tombstones, ← h'.tombstones, Nat.add_comm i, Nat.add_assoc]

theorem shrinks_collect (c : RegionCopy) (r : TombstoneRecord) :
    c.Shrinks (c.collect r).toList.length ((c.collect r).getD c) := by
  unfold collect
  split
  next e he =>
    split
    next hc =>
      rw [Bool.and_eq_true] at hc
      have hburied : c.map.isBuried r.key = true := by
        rw [EntryMap.isBuried, he]
        exact hc.1
      have hthere : c.map.slots.contains r.key = true := by
        have hfind : c.map.slots.find? r.key = some e := he
        rw [OrdMap.contains, hfind]
        rfl
      have hcount := c.map.tombstoneCount_detach r.key
      rw [hburied, if_pos rfl] at hcount
      exact ⟨c.map.slots.size_erase hthere, hcount⟩
    next => exact ⟨rfl, rfl⟩
  next => exact ⟨rfl, rfl⟩

theorem shrinks_collectAll (c : RegionCopy) (records : List TombstoneRecord) :
    c.Shrinks (c.collectAll records).1 (c.collectAll records).2 := by
  rw [collectAll_eq]
  refine List.foldlRecOn records collectNext (b := (0, c)) (motive := fun p => c.Shrinks p.1 p.2)
    ⟨rfl, rfl⟩ fun p hp r _ => ?_
  exact hp.trans (shrinks_collect p.2 r)

/-! ## What goes -/

/-- The entries that a collection removes and no others are gone, and their number is answered and
added to the counter of collections. -/
structure Removes (c : RegionCopy) (gone : Key → Entry → Bool) (answer : Nat × RegionCopy) :
    Prop extends c.Shrinks answer.1 answer.2 where
  entry : ∀ k, answer.2.map.entry? k = (c.map.entry? k).filter fun e => !gone k e
  tombstoneGcs : c.stats.tombstoneGcs ≤ counterMax →
    answer.2.stats.tombstoneGcs = Counter.wrappingAdd c.stats.tombstoneGcs answer.1

theorem removes_collectTaken (c : RegionCopy) (taken kept : List TombstoneRecord) :
    c.Removes (fun k e => taken.any (·.isFor k e)) (c.collectTaken taken kept) where
  toShrinks := by
    obtain ⟨hslots, htombstones⟩ := shrinks_collectAll
      { c with map := { c.map with queue := kept } } taken
    exact ⟨hslots, htombstones⟩
  entry := entry?_collectAll _ taken
  tombstoneGcs hfits := by
    have hqueued : c.Edits anyVector 0 false { c with map := { c.map with queue := kept } } :=
      Edits.refl.beside rfl rfl rfl rfl
    have hgcs := (hqueued.collectAll taken).tombstoneGcs hfits
    rwa [Nat.zero_add] at hgcs

theorem Removes.congr {gone gone' : Key → Entry → Bool} {answer : Nat × RegionCopy}
    (h : c.Removes gone answer)
    (hsame : ∀ k e, c.map.entry? k = some e → gone k e = gone' k e) : c.Removes gone' answer := by
  refine ⟨h.toShrinks, fun k => ?_, h.tombstoneGcs⟩
  rw [h.entry]
  cases he : c.map.entry? k with
  | none => rfl
  | some e => rw [Option.filter_some, Option.filter_some, hsame k e he]

/-- An entry that was there is gone just if the collection removes it. -/
theorem Removes.gone_iff {gone : Key → Entry → Bool} {answer : Nat × RegionCopy}
    (h : c.Removes gone answer) {k : Key} {e : Entry} (he : c.map.entry? k = some e) :
    answer.2.map.entry? k = none ↔ gone k e = true := by
  rw [h.entry, he, Option.filter_some]
  cases gone k e <;> simp

/-- Of the tombstones that are there, those with a collectable record are the covered ones. -/
theorem any_isFor_collectable (h : c.map.Queued) (gc : VersionVector) {k : Key} {e : Entry}
    (he : c.map.entry? k = some e) :
    (c.map.queue.filter (·.isCollectable gc)).any (·.isFor k e) = e.isCovered gc := by
  rw [Bool.eq_iff_iff, List.any_eq_true]
  constructor
  · rintro ⟨r, hr, hfor⟩
    rw [← TombstoneRecord.isCollectable_eq hfor]
    exact (List.mem_filter.1 hr).2
  · intro hcovered
    have htoken : e.token.isTombstone = true := (Bool.and_eq_true _ _ ▸ hcovered).1
    obtain ⟨-, r, hr, rfl, hstamp⟩ := h k e.slot (slot?_eq_some_iff.2 ⟨e, he, rfl⟩)
      (Token.isTombstone_iff.1 htoken)
    have hfor := r.isFor_self htoken hstamp
    refine ⟨r, List.mem_filter.2 ⟨hr, ?_⟩, hfor⟩
    rw [TombstoneRecord.isCollectable_eq hfor, hcovered]

/-- A collection up to a vector removes exactly the tombstones that the vector covers, and a
collection by age nothing but tombstones. Every other entry stays as it is. -/
theorem collections_exact (hm : c.map.Operated) :
    (∀ gc, c.Removes (fun _ e => e.isCovered gc) (c.gcTombstones gc)) ∧
      ∀ now, c.Removes (fun k e => (c.expired now).1.any (·.isFor k e)) (c.expireTombstones now) ∧
        ∀ k e, (c.expired now).1.any (·.isFor k e) = true → e.token = .tombstone := by
  refine ⟨fun gc => ?_, fun now => ⟨?_, fun k e hgone => ?_⟩⟩
  · rw [gcTombstones_eq]
    exact (removes_collectTaken c _ _).congr fun k e he => any_isFor_collectable hm.queued gc he
  · exact removes_collectTaken c _ _
  · obtain ⟨r, -, hfor⟩ := List.any_eq_true.1 hgone
    simp only [TombstoneRecord.isFor, Bool.and_eq_true] at hfor
    exact Token.isTombstone_iff.1 hfor.2.1

/-- Three keys are destroyed and the first is written again. Of the two records of versions that may
be collected, one stands for nothing any more. -/
theorem collections_exact_revived : ∃ c : RegionCopy, c.map.Operated ∧
    c.map.tombstoneCount = 2 ∧ (c.gcTombstones (collectableUpTo 2)).1 = 1 ∧
      (c.gcTombstones (collectableUpTo 2)).2.map.tombstoneCount = 1 ∧
      (c.gcTombstones (collectableUpTo 2)).2.map.get? "a" = some "v" ∧
      (c.gcTombstones (collectableUpTo 2)).2.map.entry? "b" = none := by
  have ha := (EntryMap.Operated.new {}).operate (.destroy {} {}) replica none {} 0
    (received (.ofDestroy "a") 1 1) rfl
  have hb := ha.operate (.destroy {} {}) replica none {} 1 (received (.ofDestroy "b") 1 2) rfl
  have hput := hb.operate (.put {} {}) replica none {} 2 (received (.ofPut "a" "v") 2 3) rfl
  have hdone := hput.operate (.destroy {} {}) replica none {} 3 (received (.ofDestroy "c") 1 4) rfl
  obtain ⟨c, hm, hcount, hn, hkept, hgone⟩ : ∃ c : RegionCopy, c.map.Operated ∧
      c.map.tombstoneCount = 2 ∧ (c.gcTombstones (collectableUpTo 2)).1 = 1 ∧
      (c.map.entry? "a").map (fun e => (e.value?, e.isCovered (collectableUpTo 2))) =
        some (some "v", false) ∧
      (c.map.entry? "b").map (Entry.isCovered (collectableUpTo 2)) = some true :=
    ⟨{ map := _ }, hdone, rfl, rfl, rfl, rfl⟩
  obtain ⟨hgc, -⟩ := collections_exact hm
  have hremoves := hgc (collectableUpTo 2)
  have hfewer := hremoves.tombstones
  obtain ⟨a, ha, hlive⟩ := Option.map_eq_some_iff.1 hkept
  obtain ⟨b, hb, hcovered⟩ := Option.map_eq_some_iff.1 hgone
  rw [Prod.mk.injEq] at hlive
  refine ⟨c, hm, hcount, hn, by omega, ?_, ?_⟩
  · rw [EntryMap.get?, hremoves.entry, ha, Option.filter_some, hlive.2]
    exact hlive.1
  · rw [hremoves.entry, hb, Option.filter_some, hcovered]
    rfl

end RegionCopy
end DataGrid
