import DataGrid.Proofs.Entry.Queued

/-
The stamp of a key only rises while the key keeps its slot. An operation that
stamps the slot has either compared its tag with the stamp and found it newer,
or been given a tag above the stamp.

A destroy in token mode that meets the key absent does neither. It stamps the
mark or the tombstone that it meets with its tag, whatever that is; so it may
put an old version over a newer one, and what the newer one kept out is let in.
-/

namespace DataGrid

open DataGrid.Task RegionCopy

/-! ## The order of stamps -/

namespace VersionStamp

/-- The order in which operations win, as their stamps show it. -/
def order : VersionStamp → VersionStamp → Ordering :=
  compareLex (compareOn entryVersion) (compareOn member)

instance : Std.TransCmp order :=
  inferInstanceAs (Std.TransCmp (compareLex (compareOn entryVersion) (compareOn member)))

/-- A stamp with a version has not fallen: it is versioned still, and not below what it was. -/
structure Ascends (s s' : VersionStamp) : Prop where
  versioned : s'.isVersioned = true
  order : (s.order s').isLE = true

variable {s s' s'' : VersionStamp}

theorem Ascends.refl (h : s.isVersioned = true) : s.Ascends s :=
  ⟨h, Std.ReflCmp.isLE_rfl⟩

theorem Ascends.trans (h : s.Ascends s') (h' : s'.Ascends s'') : s.Ascends s'' :=
  ⟨h'.versioned, Std.TransCmp.isLE_trans h.order h'.order⟩

theorem ascends_of_lt {t : VersionTag} (h : s.entryVersion < t.entryVersion) :
    s.Ascends (.ofTag t) := by
  refine ⟨rfl, ?_⟩
  have hlt : compare s.entryVersion (ofTag t).entryVersion = .lt := Nat.compare_eq_lt.2 h
  simp [order, compareLex, compareOn, hlt]

/-- What the comparison of a valid tag with a stamp lets pass is above the stamp. -/
theorem ascends_of_judge {t : VersionTag} (hs : s.isVersioned = true) (ht : t.isValid = true)
    (hj : s.judge t = .apply) : s.Ascends (.ofTag t) := by
  obtain ⟨m, hm⟩ := Option.isSome_iff_exists.1 hs
  refine ⟨rfl, ?_⟩
  simp only [judge, hm, ht, if_true] at hj
  split at hj
  next hgt =>
    have hflip : s.order (ofTag t) = .lt := by
      apply Std.OrientedCmp.lt_of_gt
      simp only [order, compareLex, compareOn, hm]
      exact hgt
    rw [hflip]
    rfl
  next => cases hj
  next => cases hj

end VersionStamp

/-! ## One operation -/

/-- An operation that is given a tag gets one above the stamp of its entry. -/
def Rules.Advances (rules : Rules) : Prop :=
  ∀ vector stamp now t vector', rules.assignTag vector stamp now = .ok (some t, vector') →
    stamp.entryVersion < t.entryVersion

theorem Rules.advances_nextTag {rules : Rules} {m : Member} (h : rules.assignTag = nextTag m) :
    rules.Advances := by
  intro vector stamp now t vector' hassign
  rw [h] at hassign
  cases vector with
  | none => cases hassign
  | some v =>
    obtain ⟨⟨n, v'⟩, -, hassign⟩ := bind_ok hassign
    obtain ⟨tag, htag, hassign⟩ := bind_ok hassign
    obtain ⟨entryVersion, hadd, htag⟩ := bind_ok htag
    cases hassign
    cases htag
    obtain ⟨rfl, -⟩ := Counter.of_add hadd
    exact Nat.lt_succ_self _

theorem Rules.advances_noTag {rules : Rules} (h : rules.assignTag = noTag) : rules.Advances := by
  intro vector stamp now t vector' hassign
  rw [h] at hassign
  cases hassign

/-- Of a stamped slot, what is not stale is newer. -/
theorem Rules.ascends_of_fresh {rules : Rules} {s : Slot} {t : VersionTag}
    {vector : Option VersionVector} (hcc : rules.concurrencyChecks = true)
    (hs : s.stamp.isVersioned = true) (ht : t.isValid = true)
    (hfresh : rules.stale (some t) vector s = false) : s.stamp.Ascends (.ofTag t) := by
  simp only [stale, hcc, hs, if_true, Bool.true_and, bne_eq_false_iff_eq] at hfresh
  exact VersionStamp.ascends_of_judge hs ht hfresh

namespace EntryCall

variable {op : EntryCall} {rules : Rules} {now : Int} {w w' : Task} {r : Applied}
  {tag : Option VersionTag} {vector : Option VersionVector}

/-- A tag that was checked takes the stamp it met up, or leaves it. -/
theorem Passed.ascends (h : op.Passed rules now w tag vector) (hcc : rules.concurrencyChecks = true)
    (hrules : rules.Advances) (hchecked : ¬ op.Unchecked w)
    (hs : w.met.stamp.isVersioned = true) : w.met.stamp.Ascends (w.met.stamp.after tag) := by
  have hfresh := h.fresh.resolve_left hchecked
  obtain ⟨between, htagged, -⟩ := h.recorded
  have hnewer : ∀ t, tag = some t → t.isValid = true → w.met.stamp.Ascends (.ofTag t) := by
    intro t ht hvalid
    cases htagged with
    | own =>
      rw [ht] at hfresh
      exact Rules.ascends_of_fresh hcc hs hvalid hfresh
    | given _ hassign =>
      subst ht
      exact VersionStamp.ascends_of_lt (hrules _ _ _ _ _ hassign)
  unfold VersionStamp.after
  split
  next t =>
    split
    next hvalid => exact hnewer t rfl hvalid
    next => exact .refl hs
  next => exact .refl hs

/-- A key that keeps its slot through an operation keeps its version too, or gets a newer one. -/
theorem Outcome.ascends (h : op.Outcome rules now w r w') (hcc : rules.concurrencyChecks = true)
    (hrules : rules.Advances) {k : Key} (hchecked : w.key = k → ¬ op.Unchecked w) {s s' : Slot}
    (hk : w.copy.slot? k = some s) (hk' : w'.copy.slot? k = some s')
    (hs : s.stamp.isVersioned = true) : s.stamp.Ascends s'.stamp := by
  -- what an operation leaves decides for its own key only
  have hleft : ∀ {x : Option Slot} {queue : List TombstoneRecord} {vector : Option VersionVector},
      w.Leaves w' x queue vector →
      (w.key = k → ∀ y, x = some y → w.met.stamp.isVersioned = true → w.met.stamp.Ascends y.stamp) →
      s.stamp.Ascends s'.stamp := by
    intro x queue vector hl hx
    rw [hl.slot] at hk'
    split at hk'
    next he =>
      subst he
      have hmet := met_of_some hk
      rw [← hmet] at hs ⊢
      exact hx rfl s' hk' hs
    next =>
      rw [hk] at hk'
      cases hk'
      exact .refl hs
  cases h with
  | refused _ _ _ h =>
    rw [h.slot, hk] at hk'
    cases hk'
    exact .refl hs
  | marked _ _ h hp =>
    refine hleft h fun he y hy hmet => ?_
    cases hy
    exact hp.ascends hcc hrules (hchecked he) hmet
  | parked hparks h =>
    refine hleft h fun he y _ hmet => ?_
    have hnone : w.met = ⟨.placeholder, {}⟩ := met_of_none hparks.slot?_eq_none
    rw [hnone] at hmet
    cases hmet
  | applied hturned h hp =>
    refine hleft h fun he y hy hmet => ?_
    have hafter := hp.ascends hcc hrules (hchecked he) hmet
    cases hturned with
    | written =>
      cases hy
      exact hafter
    | buried htag hvalid =>
      cases hy
      rw [htag, VersionStamp.after_some hvalid] at hafter
      exact hafter
    | removed => cases hy
    | kept =>
      cases hy
      exact .refl hmet

end EntryCall

/-- A destroy in token mode of an absent key takes effect with whatever tag it comes. -/
theorem Task.destroy_unchecked {w : Task} (rules : Rules) (now : Int) {config : OperationConfig}
    {options : DestroyOptions} (ha : w.copy.Attached)
    (h : (EntryCall.destroy config options).Unchecked w) :
    ∃ w', w.destroy rules now config options = .ok (.ok true, w') ∧
      w.Left w' (some ⟨.destroyed, w.met.stamp.after w.event.tag⟩) w.copy.vector := by
  obtain ⟨hmode, hevict, hrem⟩ := h
  obtain ⟨o, u, ho, hopens⟩ := opens_openOrCreate ha
  obtain ⟨w', hfinish, hmap, hvector, -⟩ := finishDestroy_eq config options
    ((u.write .destroyed).countReplaced w.met.token)
  refine ⟨w', ?_, ?_⟩
  · simp only [destroy, hmode, Bool.true_or, open_eq, if_true, ho, hopens.token, hrem,
      destroyRemoved, hevict, Bool.false_eq_true, if_false, hfinish]
  · have hl := (hopens.hand.write .destroyed).toLeft
    rw [hopens.event, hopens.vector] at hl
    exact hl.finishDestroy hmap hvector

/-! ## A run -/

namespace EntryMap

/-- Operations through which a key that had the slot `s` keeps a slot. Each comes from a region that
checks versions, with a vector and counters of its own. A destroy in token mode that meets the key
absent is not among them. -/
inductive Holds (k : Key) (s : Slot) (m : EntryMap) : EntryMap → Slot → Prop
  | here (h : m.slot? k = some s) : Holds k s m m s
  | operate {m' : EntryMap} {s' s'' : Slot} (h : Holds k s m m' s') (op : EntryCall)
      {rules : Rules} (hcc : rules.concurrencyChecks = true) (hrules : rules.Advances)
      (vector : Option VersionVector) (stats : Stats) (now : Int) (event : EntryEvent)
      {r : Applied} {w : Task}
      (hok : op.run rules now { copy := ⟨m', vector, stats⟩, event := event } = .ok (r, w))
      (hchecked : event.key = k → ¬ op.Unchecked { copy := ⟨m', vector, stats⟩, event := event })
      (hs : w.copy.map.slot? k = some s'') : Holds k s m w.copy.map s''

variable {k : Key} {s s' : Slot} {m m' : EntryMap}

theorem Holds.slot? (h : Holds k s m m' s') : m'.slot? k = some s' := by
  cases h with
  | here h => exact h
  | operate _ _ _ _ _ _ _ _ _ _ hs => exact hs

theorem Holds.reached (h : Holds k s m m' s') (hm : m.Reached) : m'.Reached := by
  induction h with
  | here => exact hm
  | operate _ op _ _ vector stats now event hok _ _ ih => exact .step ih (.operate op _ now event hok)

theorem Holds.ascends (h : Holds k s m m' s') (hm : m.Reached) (hs : s.stamp.isVersioned = true) :
    s.stamp.Ascends s'.stamp := by
  induction h with
  | here => exact .refl hs
  | @operate m' s' s'' h op rules hcc hrules vector stats now event r w hok hchecked hs' ih =>
    have ha : RegionCopy.Attached ⟨m', vector, stats⟩ := (h.reached hm).attached rfl
    exact ih.trans ((op.outcome ha hok).ascends hcc hrules hchecked h.slot? hs' ih.versioned)

/-- While a key keeps its slot its version never falls, on whatever map calls have made. The
exception is a destroy in token mode that meets the key absent: this stamps the slot with whatever
tag it comes, and leaves the other keys. -/
theorem versions_ascend (hm : m.Reached) :
    (∀ {k s m' s'}, Holds k s m m' s' → s.stamp.isVersioned = true →
      s'.stamp.isVersioned = true ∧ (s.stamp.order s'.stamp).isLE = true) ∧
    ∀ (config : OperationConfig) (options : DestroyOptions) (rules : Rules)
      (vector : Option VersionVector) (stats : Stats) (now : Int) (event : EntryEvent) (s : Slot),
      m.slot? event.key = some s → s.token.isRemoved = true → config.inTokenMode = true →
        options.evict = false →
        ∃ w, (EntryCall.destroy config options).run rules now
            { copy := ⟨m, vector, stats⟩, event := event } = .ok (.ok true, w) ∧
          ∀ k, w.copy.slot? k =
            if k = event.key then some ⟨.destroyed, s.stamp.after event.tag⟩ else m.slot? k := by
  refine ⟨fun h hs => ⟨(h.ascends hm hs).versioned, (h.ascends hm hs).order⟩, ?_⟩
  intro config options rules vector stats now event s hs hrem hmode hevict
  have hmet : Task.met { copy := ⟨m, vector, stats⟩, event := event } = s := met_of_some hs
  have hunchecked : EntryCall.Unchecked { copy := ⟨m, vector, stats⟩, event := event }
      (.destroy config options) := ⟨hmode, hevict, by rw [hmet, hrem]⟩
  obtain ⟨w, hw, hleft⟩ := destroy_unchecked rules now (hm.attached rfl) hunchecked
  refine ⟨w, hw, fun k => ?_⟩
  rw [hleft.slot, hmet]
  rfl

/-- A member that keeps versions of its own beside those of the sender. -/
def writer : Rules where
  concurrencyChecks := true
  assignTag := Rules.nextTag { address := .localhost, port := 2 }

/-- Over the third version of a key, which is a tombstone, an older one is refused and the next one
is written. -/
theorem versions_ascend_rewritten : ∃ m m' s s', m.Reached ∧ Holds "a" s m m' s' ∧
    s = ⟨.tombstone, ⟨some sender, 3, 3, 0⟩⟩ ∧ s'.token = .valid "w" ∧
      (s.stamp.order s'.stamp).isLE = true ∧ s'.stamp.isVersioned = true := by
  have hreplica : replica.Advances := Rules.advances_noTag rfl
  have hwriter : writer.Advances := Rules.advances_nextTag rfl
  have hm := (Operated.new {}).operate (.destroy {} {}) replica none {} 0
    (received (.ofDestroy "a") 3 3) rfl
  obtain ⟨m, m', s, s', hm, hrun, hs, hs'⟩ : ∃ m m' s s', m.Reached ∧ Holds "a" s m m' s' ∧
      s = ⟨.tombstone, ⟨some sender, 3, 3, 0⟩⟩ ∧ s'.token = .valid "w" :=
    ⟨_, _, _, _, hm.reached, .operate (.operate (.here rfl) (.put {} {}) rfl hreplica none {} 1
      (received (.ofPut "a" "v") 2 2) rfl (fun _ => id) rfl) (.put {} {}) rfl hwriter
      (some { owner := { address := .localhost, port := 2 } }) {} 2 (.ofPut "a" "w") rfl
      (fun _ => id) rfl, rfl, rfl⟩
  obtain ⟨hascend, -⟩ := versions_ascend hm
  obtain ⟨hversioned, horder⟩ := hascend hrun (by rw [hs]; rfl)
  exact ⟨m, m', s, s', hm, hrun, hs, hs', horder, hversioned⟩

/-- Over the third version of a key a destroy in token mode puts the second, though the region
checks versions. -/
theorem version_falls_in_token_mode : ∃ m w s s', EntryMap.Reached m ∧
    (EntryCall.destroy { inTokenMode := true } {}).run replica 1
        { copy := { map := m }, event := received (.ofDestroy "a") 2 2 } = .ok (.ok true, w) ∧
      m.slot? "a" = some s ∧ w.copy.map.slot? "a" = some s' ∧ replica.concurrencyChecks = true ∧
      s.stamp.isVersioned = true ∧ s'.stamp.isVersioned = true ∧
      s.stamp.order s'.stamp = .gt := by
  have hm := (Operated.new {}).operate (.destroy {} {}) replica none {} 0
    (received (.ofDestroy "a") 3 3) rfl
  exact ⟨_, _, _, _, hm.reached, rfl, rfl, rfl, rfl, rfl, rfl, by decide⟩

end EntryMap
end DataGrid
