import DataGrid.Proofs.Entry.Hooks
import Mathlib.Data.List.MinMax

/-
When entries were last changed. Every change takes a tick of the clock of its
map, so no two entries were last changed at the same tick, and none at a tick
that is still to come (`EntryMap.Ticked`). Single changes keep it so, and
therefore all calls; nothing is assumed of their order, their regions, or the
tokens that are installed among them (`EntryMap.Handled`).

So the ticks order the keys that hold a value (`EntryMap.Before`), and the first
of them is the one that `EntryMap.oldestKey?` finds.
-/

namespace DataGrid

namespace EntryMap

variable {m m' : EntryMap}

/-- Each entry was last changed at a tick of its own, which is past. -/
structure Ticked (m : EntryMap) : Prop where
  past : ∀ {k e}, m.entry? k = some e → e.lastModified ≤ m.clock
  distinct : ∀ {k k' e e'}, m.entry? k = some e → m.entry? k' = some e' →
    e.lastModified = e'.lastModified → k = k'

theorem lastModified_stampedWith (e : Entry) (tag : Option VersionTag) :
    (e.stampedWith tag).lastModified = e.lastModified := by
  unfold Entry.stampedWith
  split
  · split <;> rfl
  · rfl

theorem entry?_put (m : EntryMap) (k k' : Key) (t : Token) (s : VersionStamp)
    (tag : Option VersionTag) :
    entry? (m.put k t s tag) k' =
      if k' = k then
        some (Entry.stampedWith { token := t, stamp := s, lastModified := m.clock + 1 } tag)
      else m.entry? k' := by
  simp only [put, entry?, OrdMap.find?_insert, Std.compare_eq_iff_eq]

/-! ## Single changes -/

/-- Entries may go, and time pass. -/
theorem Ticked.fewer (h : m.Ticked) (hclock : m.clock ≤ m'.clock)
    (hs : ∀ k e, m'.entry? k = some e → m.entry? k = some e) : m'.Ticked where
  past he := (h.past (hs _ _ he)).trans hclock
  distinct he he' := h.distinct (hs _ _ he) (hs _ _ he')

theorem Ticked.put (h : m.Ticked) (k : Key) (t : Token) (s : VersionStamp)
    (tag : Option VersionTag) : (m.put k t s tag).Ticked := by
  have hcases : ∀ {k' e}, entry? (m.put k t s tag) k' = some e →
      (k' = k ∧ e.lastModified = m.clock + 1) ∨ m.entry? k' = some e := by
    intro k' e he
    rw [entry?_put] at he
    split at he
    next hk =>
      cases he
      exact .inl ⟨hk, lastModified_stampedWith _ tag⟩
    next => exact .inr he
  -- the new tick is past every other
  refine ⟨fun he => ?_, fun he he' htick => ?_⟩
  · rcases hcases he with ⟨-, hnew⟩ | hold
    · exact hnew.le
    · exact Nat.le_succ_of_le (h.past hold)
  · rcases hcases he with ⟨rfl, hnew⟩ | hold <;> rcases hcases he' with ⟨rfl, hnew'⟩ | hold'
    · rfl
    · have hpast := h.past hold'
      omega
    · have hpast := h.past hold
      omega
    · exact h.distinct hold hold' htick

theorem entry?_of_detach {k k' : Key} {e : Entry} (he : entry? (m.detach k) k' = some e) :
    m.entry? k' = some e := by
  rw [entry?_detach] at he
  split at he
  · cases he
  · exact he

theorem Ticked.detach (h : m.Ticked) (k : Key) : (m.detach k).Ticked :=
  h.fewer (Nat.le_succ _) fun _ _ => entry?_of_detach

theorem Ticked.dropDetached {c : RegionCopy} (h : c.map.Ticked) (k : Key) :
    (c.dropDetached k).map.Ticked := by
  unfold RegionCopy.dropDetached
  split
  · split
    · exact h.fewer le_rfl fun _ _ he => entry?_of_detach (k := k) he
    · exact h
  · exact h

end EntryMap

/-! ## Calls -/

theorem Task.Quiet.ticked {w u : Task} (h : w.Quiet u) (hw : w.copy.map.Ticked) :
    u.copy.map.Ticked := by
  induction h with
  | refl => exact hw
  | write _ k t tag ih => exact ih.put k t _ tag
  | detach _ k ih => exact ih.detach k
  | dropDetached _ k ih => exact ih.dropDetached k
  | enqueue _ r ih => exact ih.fewer le_rfl fun _ _ he => he
  | vector _ v ih => exact ih
  | count _ hf ih => exact ih
  | event _ e ih => exact ih
  | tell _ hn ih => exact ih

theorem EntryCall.ticked {op : EntryCall} {rules : Rules} {now : Int} {w w' : Task} {r : Applied}
    (hok : op.run rules now w = .ok (r, w')) (hw : w.copy.map.Ticked) : w'.copy.map.Ticked := by
  obtain ⟨u, hquiet, hmap, -⟩ := op.proceeds hok
  rw [hmap]
  exact hquiet.ticked hw

namespace RegionCopy

variable {c c' : RegionCopy}

theorem ticked_collectAll (h : c.map.Ticked) (records : List TombstoneRecord) :
    (c.collectAll records).2.map.Ticked := by
  rw [collectAll_eq]
  refine List.foldlRecOn records collectNext (b := (0, c)) (motive := fun p => p.2.map.Ticked) h
    fun p hp r _ => ?_
  unfold collectNext collect
  split
  · split
    · exact hp.detach r.key
    · exact hp
  · exact hp

theorem Tidied.ticked (h : c.Tidied c') (hc : c.map.Ticked) : c'.map.Ticked := by
  cases h with
  | clear upTo =>
    have hgone := List.foldlRecOn (c.map.slots.filter fun _ e => isCleared upTo e).toList clearEntry
      (b := c) (motive := fun u => u.map.Ticked) hc fun _ hu p _ => hu.detach p.1
    exact hgone.fewer le_rfl fun _ _ he => he
  | expireTombstones now =>
    refine ticked_collectAll ?_ _
    exact hc.fewer le_rfl fun _ _ he => he
  | gcTombstones gc =>
    refine ticked_collectAll ?_ _
    exact hc.fewer le_rfl fun _ _ he => he

end RegionCopy

namespace EntryMap

/-- Maps that calls have made of new ones, for whatever region and of whatever was told to it
before. Any token may be installed, also one that is detached. -/
inductive Handled : EntryMap → Prop
  | new (config : TombstoneConfig) : Handled { config := config }
  | operate {w w' : Task} (h : Handled w.copy.map) (op : EntryCall) (rules : Rules) (now : Int)
      {r : Applied} (hok : op.run rules now w = .ok (r, w')) : Handled w'.copy.map
  | tidy {c c' : RegionCopy} (h : Handled c.map) (hc : c.Tidied c') : Handled c'.map
  | install {m : EntryMap} (h : Handled m) (k : Key) (t : Token) (tag : Option VersionTag) :
      Handled (m.install k t tag)

theorem Handled.ticked {m : EntryMap} (h : m.Handled) : m.Ticked := by
  induction h with
  | new config => exact ⟨(nomatch ·), fun he => nomatch he⟩
  | operate _ op rules now hok ih => exact EntryCall.ticked hok ih
  | tidy _ hc ih => exact hc.ticked ih
  | install _ k t tag ih => exact ih.put k t {} tag

/-! ## Keys by their last change -/

/-- The keys that hold a value. -/
def valued (m : EntryMap) : OrdMap Key Entry := m.slots.filter fun _ e => e.value?.isSome

/-- Of two keys the one was last changed before the other. -/
def Before (m : EntryMap) (k k' : Key) : Prop :=
  ∃ e e', m.entry? k = some e ∧ m.entry? k' = some e' ∧ e.lastModified < e'.lastModified

variable {m : EntryMap} {k k' : Key}

theorem mem_valued_iff {e : Entry} :
    (k, e) ∈ m.valued.toList ↔ m.entry? k = some e ∧ e.value?.isSome = true := by
  rw [valued, OrdMap.filter, List.mem_filter, OrdMap.mem_toList_iff]
  rfl

theorem isSome_get?_iff :
    (m.get? k).isSome = true ↔ ∃ e, m.entry? k = some e ∧ e.value?.isSome = true := by
  unfold get?
  cases m.entry? k <;> simp

theorem oldestKey?_eq (m : EntryMap) :
    m.oldestKey? = (m.valued.toList.argmin fun p => p.2.lastModified).map (·.1) := by
  unfold oldestKey? List.argmin
  dsimp only
  -- the two ways to keep the older of a pair agree
  refine congrArg (Option.map Prod.fst) ?_
  refine congrArg (fun older => m.valued.toList.foldl older none) ?_
  funext best p
  cases best <;> rfl

/-- There is an oldest key just if some key holds a value. -/
theorem oldestKey?_eq_none_iff : m.oldestKey? = none ↔ m.valued.size = 0 := by
  rw [oldestKey?_eq, Option.map_eq_none_iff, List.argmin_eq_none]
  exact List.length_eq_zero_iff.symm

theorem get?_eq_none_of_valued (h : m.valued.size = 0) (k : Key) : m.get? k = none := by
  rw [← Option.not_isSome_iff_eq_none, isSome_get?_iff]
  rintro ⟨e, he⟩
  have hmem := mem_valued_iff.2 he
  rw [List.length_eq_zero_iff.1 h] at hmem
  cases hmem

/-- The oldest key holds a value, and was changed before any other that does. -/
theorem oldestKey?_before (h : m.Ticked) (hk : m.oldestKey? = some k) :
    (∃ e, m.entry? k = some e ∧ e.value?.isSome = true) ∧
      ∀ k' ≠ k, (m.get? k').isSome = true → m.Before k k' := by
  rw [oldestKey?_eq] at hk
  obtain ⟨⟨k, e⟩, hmin, rfl⟩ := Option.map_eq_some_iff.1 hk
  obtain ⟨he, hvalue⟩ := mem_valued_iff.1 (List.argmin_mem hmin)
  refine ⟨⟨e, he, hvalue⟩, fun k' hne hk' => ?_⟩
  obtain ⟨e', he', hvalue'⟩ := isSome_get?_iff.1 hk'
  have hle := List.le_of_mem_argmin (mem_valued_iff.2 ⟨he', hvalue'⟩) hmin
  exact ⟨e, e', he, he', hle.lt_of_ne fun htick => hne (h.distinct he he' htick).symm⟩

end EntryMap
end DataGrid
