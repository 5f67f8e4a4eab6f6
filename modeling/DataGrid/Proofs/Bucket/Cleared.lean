import DataGrid.Proofs.Bucket.Aware
import DataGrid.Proofs.Bucket.Redelivery
import DataGrid.Proofs.Entry.Tally

/-
A clear of a bucket leaves nothing in it, not even a mark or a placeholder,
though it only takes what the vector has seen. For whatever was done to the
bucket before, by its own member or by others and with whatever tags, the
vector has seen every region version that an entry is stamped with, and no
entry was left behind detached (`Bucket.Kept`).
-/

namespace DataGrid

namespace RegionCopy

variable {c c' : RegionCopy}

/-- Only a stamp that names its member has a region version. -/
def Attributed (c : RegionCopy) : Prop :=
  ∀ k s, c.slot? k = some s → s.stamp.regionVersion ≠ 0 → s.stamp.isVersioned = true

theorem Attributed.frame (h : c.Attributed) (hs : ∀ k s, c'.slot? k = some s → c.slot? k = some s) :
    c'.Attributed := fun k s hk => h k s (hs k s hk)

theorem Attributed.write (h : c.Attributed) (k : Key) (t : Token) (tag : Option VersionTag) :
    (c.write k t tag).Attributed := by
  have hbefore : (((c.slot? k).map Slot.stamp).getD {}).regionVersion ≠ 0 →
      (((c.slot? k).map Slot.stamp).getD {}).isVersioned = true := by
    cases hs : c.slot? k with
    | none => exact fun hne => absurd rfl hne
    | some s => exact h k s hs
  intro k' s hk
  rw [slot?_write] at hk
  split at hk
  · cases hk
    unfold VersionStamp.after
    split
    · split
      · exact fun _ => rfl
      · exact hbefore
    · exact hbefore
  · exact h k' s hk

/-- Whatever is done stamps entries with whole tags only. -/
theorem Edits.attributed {V : Option VersionVector → Option VersionVector → Prop} {n : Nat}
    {buried : Bool} {u : RegionCopy} (h : c.Edits V n buried u) (hc : c.Attributed) : u.Attributed := by
  induction h with
  | refl => exact hc
  | write _ k _ tag ih => exact ih.write k _ tag
  | bury _ k tag ih => exact ih.write k .tombstone tag
  | @detach n u _ k ih =>
    refine ih.frame fun k' s hk => ?_
    have hk : (u.detach k).slot? k' = some s := hk
    rw [slot?_detach] at hk
    split at hk
    · cases hk
    · exact hk
  | @dropDetached n u _ k ih =>
    refine ih.frame fun k' s hk => ?_
    rcases slot?_dropDetached u k k' with heq | hnone
    · rw [← heq, hk]
    · rw [hnone] at hk
      cases hk
  | countGc _ ih => exact ih
  | vector _ _ ih => exact ih
  | beside _ hslots _ _ _ ih =>
    refine ih.frame fun k s hk => ?_
    rw [← hk]
    simp only [slot?, EntryMap.slot?, EntryMap.entry?, hslots]

/-- A clear up to a vector that has seen all stamps takes all that is present, and counts it. -/
theorem Known.count_clear (h : c.Known) (ha : c.Attached) :
    (c.clear c.vector).1 = c.map.size := by
  have hall : ∀ p ∈ c.map.slots.toList, isCleared c.vector p.2 = true := fun p hp =>
    isCleared_seen ha h.stamps (OrdMap.mem_toList_iff.1 hp)
  simp only [RegionCopy.clear, EntryMap.size, EntryMap.keys, OrdMap.size, OrdMap.keys,
    OrdMap.filter, List.length_map, List.filter_eq_self.2 hall]

/-- The vector is there as it was before. -/
def SamePresence (vector vector' : Option VersionVector) : Prop := vector'.isSome = vector.isSome

theorem moves_nextTag (rules : Rules) {m : Member} (h : rules.assignTag = Rules.nextTag m) :
    rules.Moves SamePresence where
  assigned vector stamp now tag vector' hassign := by
    rw [h] at hassign
    cases vector with
    | none =>
      cases hassign
      rfl
    | some v =>
      obtain ⟨_, -, hassign⟩ := bind_ok hassign
      obtain ⟨_, -, hassign⟩ := bind_ok hassign
      cases hassign
      rfl
  recorded tag vector vector' hrec := by
    unfold Rules.recorded at hrec
    split at hrec
    · split at hrec
      · cases hrec
        rfl
      · obtain ⟨_, -, hrec⟩ := bind_ok hrec
        cases hrec
        rfl
    · cases hrec
      rfl

end RegionCopy

open RegionCopy

namespace Bucket

variable {b b' : Bucket} {now : Int} {e e' : EntryEvent} {r : Except BucketError Bool}

theorem applyToEntry_run {done : Checked (Applied × Task)}
    (happ : b.applyToEntry now e = some done) :
    ∃ op : EntryCall, done = op.run b.rules now { copy := b.copy, event := e } := by
  unfold Bucket.applyToEntry at happ
  split at happ <;> cases happ
  · exact ⟨.put {} {}, rfl⟩
  · exact ⟨.put {} {}, rfl⟩
  · exact ⟨.invalidate false false {}, rfl⟩
  · exact ⟨.invalidate false false {}, rfl⟩
  · exact ⟨.destroy {} {}, rfl⟩
  · exact ⟨.destroy {} .eviction, rfl⟩

/-- An event is held back, clears the bucket, or comes to one operation on an entry. -/
theorem apply_cases (happ : b.apply now e = .ok (r, e', b')) :
    b' = b ∨ b' = b.clear.2 ∨ ∃ (op : EntryCall) (applied : Applied) (w : Task),
      op.run b.rules now { copy := b.copy, event := e } = .ok (applied, w) ∧
        b' = { b with copy := w.copy } := by
  unfold Bucket.apply at happ
  split at happ
  · cases happ
    exact .inl rfl
  · split at happ
    next done hdone =>
      obtain ⟨op, rfl⟩ := applyToEntry_run hdone
      obtain ⟨⟨applied, w⟩, hok, happ⟩ := bind_ok happ
      cases happ
      exact .inr (.inr ⟨op, applied, w, hok, rfl⟩)
    next =>
      cases happ
      exact .inr (.inl rfl)

/-- What every bucket keeps, whatever is done to it. -/
structure Kept (b : Bucket) : Prop where
  known : b.copy.Known
  attached : b.copy.Attached
  attributed : b.copy.Attributed
  vector : b.copy.vector.isSome = b.attributes.concurrencyChecks

theorem kept_new (path : String) (a : Advisor) (attributes : RegionAttributes) :
    Kept (.new path a attributes) where
  known := known_new _ {} a.member attributes.concurrencyChecks rfl
  attached := attached_empty fun _ => rfl
  attributed _ _ hk := by cases hk
  vector := by cases h : attributes.concurrencyChecks <;> simp [new, h]

namespace Kept

theorem clear (h : b.Kept) : b.clear.2.Kept where
  known := h.known.clear _
  attached := h.attached.clear _
  attributed := (edits_clear (V := SamePresence) b.copy b.copy.vector).attributed h.attributed
  vector := by
    show (b.copy.clear b.copy.vector).2.vector.isSome = b.attributes.concurrencyChecks
    rw [vector_clear]
    exact h.vector

theorem swept (h : b.Kept) {c : RegionCopy} (hs : Swept b.copy c) : Kept { b with copy := c } where
  known := h.known.swept hs
  attached := h.attached.swept hs
  attributed := h.attributed.frame fun _ _ hk => hs.of_slot? hk
  vector := by
    show c.vector.isSome = b.attributes.concurrencyChecks
    rw [hs.vector]
    exact h.vector

theorem apply (h : b.Kept) (hfits : Fits e.tag) (happ : b.apply now e = .ok (r, e', b')) :
    b'.Kept := by
  have hknown : b'.copy.Known := (Aware.apply ⟨rfl, h.known⟩ hfits happ).known
  rcases apply_cases happ with rfl | rfl | ⟨op, applied, w, hok, rfl⟩
  · exact h
  · exact h.clear
  · obtain ⟨buried, hedits⟩ := op.edits (moves_nextTag b.rules rfl) hok
    have hpresence : SamePresence b.copy.vector w.copy.vector :=
      hedits.related (fun _ => rfl) fun _ _ _ h₁ h₂ => h₂.trans h₁
    exact ⟨hknown, (op.outcome h.attached hok).attached h.attached, hedits.attributed h.attributed,
      hpresence.trans h.vector⟩

end Kept

/-- The region version of an event is one that the counter can hold. -/
def Arrival.Fits : Arrival → Prop
  | .event _ e => RegionCopy.Fits e.tag
  | _ => True

theorem Kept.arrive (h : b.Kept) {arrival : Arrival} (hfits : arrival.Fits)
    (hok : b.arrive arrival = .ok b') : b'.Kept := by
  cases arrival with
  | event now e =>
    obtain ⟨⟨r, e', b''⟩, happ, hok⟩ := bind_ok hok
    cases hok
    exact h.apply hfits happ
  | clear =>
    cases hok
    exact h.clear
  | expireTombstones now =>
    cases hok
    exact h.swept (swept_expireTombstones now b.copy)
  | gcTombstones gc =>
    cases hok
    exact h.swept (swept_gcTombstones gc b.copy)

/-- A bucket after any local and remote events, clears and collections. Meanwhile its member may win
or lose the bucket, and the gate may close and open. -/
inductive Used : Bucket → Prop
  | new (path : String) (a : Advisor) (attributes : RegionAttributes) : Used (.new path a attributes)
  | arrive {b b' : Bucket} (h : Used b) (arrival : Arrival) (hfits : arrival.Fits)
      (hok : b.arrive arrival = .ok b') : Used b'
  | meanwhile {b : Bucket} (h : Used b) (a : Advisor) (g : ClearGate) :
      Used { b with advisor := a, gate := g }

theorem Used.kept (h : b.Used) : b.Kept := by
  induction h with
  | new path a attributes => exact kept_new path a attributes
  | arrive _ _ hfits hok ih => exact ih.arrive hfits hok
  | meanwhile _ _ _ ih => exact ⟨ih.known, ih.attached, ih.attributed, ih.vector⟩

theorem Used.arriveAll {arrivals : List Arrival} (h : b.Used) (hfits : ∀ x ∈ arrivals, x.Fits)
    (hok : b.arriveAll arrivals = .ok b') : b'.Used := by
  induction arrivals generalizing b with
  | nil =>
    cases hok
    exact h
  | cons x rest ih =>
    rw [Bucket.arriveAll, List.foldlM_cons] at hok
    obtain ⟨b₁, hx, hok⟩ := bind_ok hok
    exact ih (h.arrive x (hfits x List.mem_cons_self) hx)
      (fun y hy => hfits y (List.mem_cons_of_mem x hy)) hok

/-- A bucket has a vector just if it checks for conflicts, and the vector contains the member and the
region version of every stamp that has one. So a clear counts every key that is present, and leaves
no key with an entry of any kind. -/
theorem clear_complete (h : b.Used) :
    b.copy.vector.isSome = b.attributes.concurrencyChecks ∧
      (∀ v k s, b.copy.vector = some v → b.copy.slot? k = some s → s.stamp.regionVersion ≠ 0 →
        ∃ m, s.stamp.member = some m ∧ v.contains m s.stamp.regionVersion = true) ∧
      b.clear.1 = b.size ∧ (∀ k, b.clear.2.copy.slot? k = none) ∧ b.clear.2.size = 0 ∧
        b.clear.2.copy.map.tombstoneCount = 0 := by
  have hkept := h.kept
  have hnone : ∀ k, b.clear.2.copy.slot? k = none :=
    slot?_clear_seen hkept.attached hkept.known.stamps
  have hvacant : b.clear.2.copy.Vacant := fun k s hk => nomatch (hnone k).symm.trans hk
  refine ⟨hkept.vector, fun v k s hv hk hversion => ?_, hkept.known.count_clear hkept.attached,
    hnone, (empty_of_vacant hvacant).1, EntryMap.tombstoneCount_eq_zero fun k => ?_⟩
  · obtain ⟨m, hm⟩ := Option.isSome_iff_exists.1 (hkept.attributed k s hk hversion)
    exact ⟨m, hm, hkept.known.stamps k s v m hk hv hm⟩
  · rw [EntryMap.isBuried, slot?_eq_none_iff.1 (hnone k)]
    rfl

/-- A bucket at its primary: a key with a value, one that another member destroyed, and one of which
another member evicted nothing. -/
def crowded : List Arrival :=
  [.event 0 (.ofPut "k" "v"),
    .event 1 { EntryEvent.ofDestroy "l" with remote := true, tag := some (tagFrom 2 1 1) },
    .event 2 { EntryEvent.ofEviction "m" with remote := true }]

theorem clear_complete_crowded : ∃ b, Used b ∧ b.size = 1 ∧ b.copy.map.tombstoneCount = 1 ∧
    b.copy.slot? "m" = some ⟨.placeholder, {}⟩ ∧ b.clear.1 = 1 ∧ b.clear.2.size = 0 ∧
      ∀ k, b.clear.2.copy.slot? k = none := by
  have hfits : ∀ x ∈ crowded, x.Fits := by
    simp only [crowded, List.forall_mem_cons]
    refine ⟨fits_none, fun t ht => ?_, fits_none, fun _ hx => nomatch hx⟩
    cases ht
    decide
  have hend : ((new "/orders" (hostAt 1) {}).arriveAll crowded).map (fun b =>
      (b.size, b.copy.map.tombstoneCount, b.copy.slot? "m")) =
        .ok (1, 1, some ⟨.placeholder, {}⟩) := rfl
  obtain ⟨b, hb⟩ : ∃ b, (new "/orders" (hostAt 1) {}).arriveAll crowded = .ok b := ⟨_, rfl⟩
  simp only [hb, Except.map, Except.ok.injEq, Prod.mk.injEq] at hend
  obtain ⟨hsize, hcount, hplace⟩ := hend
  have hused : b.Used := (Used.new _ _ _).arriveAll hfits hb
  obtain ⟨-, -, hcleared, hnone, hempty, -⟩ := clear_complete hused
  exact ⟨b, hused, hsize, hcount, hplace, hcleared.trans hsize, hempty, hnone⟩

end Bucket
end DataGrid
