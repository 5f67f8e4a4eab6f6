import DataGrid.Entry.Collection
import DataGrid.Proofs.Version.Vector

/-
What can be seen of a region copy: the token and the stamp that it holds for
each key (`slot?`), and its vector. This module says what each step of an
operation does to the two, so that the operations themselves need not be
opened further than to their steps.
-/

namespace DataGrid

/-- Counting tombstones changes no other counter. -/
theorem Stats.addTombstones_eq (s : Stats) (d : Int) :
    s.addTombstones d = { s with tombstones := (s.addTombstones d).tombstones } := by
  cases d <;> rfl

/-- What a copy holds for a key. -/
structure Slot where
  token : Token
  stamp : VersionStamp := {}
deriving DecidableEq

namespace VersionStamp

/-- The stamp once an operation with this tag has taken effect. -/
def after (s : VersionStamp) (tag : Option VersionTag) : VersionStamp :=
  match tag with
  | some t => if t.isValid then .ofTag t else s
  | none => s

theorem after_some {s : VersionStamp} {t : VersionTag} (h : t.isValid = true) :
    s.after (some t) = .ofTag t := by simp [after, h]

@[simp] theorem isVersioned_ofTag (t : VersionTag) : (VersionStamp.ofTag t).isVersioned = true := rfl

end VersionStamp

def Entry.slot (e : Entry) : Slot := ⟨e.token, e.stamp⟩

theorem Entry.slot_stampedWith (e : Entry) (tag : Option VersionTag) :
    (e.stampedWith tag).slot = ⟨e.token, e.stamp.after tag⟩ := by
  simp only [Entry.stampedWith, VersionStamp.after, Entry.slot]
  cases tag with
  | none => rfl
  | some t => by_cases hv : t.isValid = true <;> simp [hv]

namespace EntryMap

/-- Tokens and stamps by key. -/
def slot? (m : EntryMap) (k : Key) : Option Slot := (m.entry? k).map Entry.slot

theorem slot?_put (m : EntryMap) (k k' : Key) (t : Token) (s : VersionStamp)
    (tag : Option VersionTag) :
    (m.put k t s tag).slot? k' = if k' = k then some ⟨t, s.after tag⟩ else m.slot? k' := by
  simp only [slot?, entry?, put, OrdMap.find?_insert, Std.compare_eq_iff_eq]
  split
  · rw [Option.map_some, Entry.slot_stampedWith]
  · rfl

theorem slot?_write (m : EntryMap) (k k' : Key) (t : Token) (tag : Option VersionTag) :
    (m.write k t tag).slot? k' =
      if k' = k then some ⟨t, (((m.slot? k).map Slot.stamp).getD {}).after tag⟩ else m.slot? k' := by
  rw [write, slot?_put]
  simp only [slot?, Option.map_map]
  rfl

theorem entry?_detach (m : EntryMap) (k k' : Key) :
    entry? (m.detach k) k' = if k' = k then none else m.entry? k' := by
  simp only [EntryMap.entry?, EntryMap.detach]
  split
  next he => rw [he, OrdMap.find?_erase_self]
  next hne => rw [OrdMap.find?_erase_other]; simpa using hne

theorem slot?_detach (m : EntryMap) (k k' : Key) :
    (m.detach k).slot? k' = if k' = k then none else m.slot? k' := by
  rw [slot?, entry?_detach]
  split <;> rfl

end EntryMap

namespace RegionCopy

def slot? (c : RegionCopy) (k : Key) : Option Slot := c.map.slot? k

@[simp] theorem slot?_write (c : RegionCopy) (k k' : Key) (t : Token) (tag : Option VersionTag) :
    (c.write k t tag).slot? k' =
      if k' = k then some ⟨t, (((c.slot? k).map Slot.stamp).getD {}).after tag⟩ else c.slot? k' :=
  c.map.slot?_write k k' t tag

@[simp] theorem slot?_detach (c : RegionCopy) (k k' : Key) :
    (c.detach k).slot? k' = if k' = k then none else c.slot? k' := c.map.slot?_detach k k'

theorem slot?_eq_none_iff {c : RegionCopy} {k : Key} :
    c.slot? k = none ↔ c.map.entry? k = none := by
  simp [slot?, EntryMap.slot?]

theorem slot?_eq_some_iff {c : RegionCopy} {k : Key} {s : Slot} :
    c.slot? k = some s ↔ ∃ e, c.map.entry? k = some e ∧ e.slot = s := by
  simp [slot?, EntryMap.slot?]

/-- No entry was left behind detached. None ever is, unless it was received so. -/
def Attached (c : RegionCopy) : Prop := ∀ k s, c.slot? k = some s → s.token ≠ .detached

theorem dropDetached_eq {c : RegionCopy} (h : c.Attached) (k : Key) : c.dropDetached k = c := by
  unfold dropDetached
  split
  next e he =>
    have hne := h k e.slot (slot?_eq_some_iff.2 ⟨e, he, rfl⟩)
    have hd : e.token.isDetached = false :=
      Bool.eq_false_iff.2 fun hd => hne (Token.isDetached_iff.1 hd)
    simp [hd]
  next => rfl

theorem vector_dropDetached (c : RegionCopy) (k : Key) : (c.dropDetached k).vector = c.vector := by
  unfold dropDetached
  split
  · split <;> rfl
  · rfl

theorem Attached.of_slot? {c c' : RegionCopy} (h : c.Attached)
    (hs : ∀ k s, c'.slot? k = some s → s.token ≠ .detached ∨ c.slot? k = some s) : c'.Attached := by
  intro k s hk
  rcases hs k s hk with hne | hk
  · exact hne
  · exact h k s hk

theorem attached_empty {c : RegionCopy} (h : ∀ k, c.slot? k = none) : c.Attached := by
  intro k s hs
  rw [h k] at hs
  cases hs

/-! ## Clearing and collecting -/

theorem entry?_foldl_clearEntry (gone : List (Key × Entry)) (c : RegionCopy) (k : Key) :
    (gone.foldl clearEntry c).map.entry? k =
      if k ∈ gone.map (·.1) then none else c.map.entry? k := by
  induction gone generalizing c with
  | nil => simp
  | cons p gone ih =>
    have hone : (c.clearEntry p).map.entry? k = if k = p.1 then none else c.map.entry? k :=
      c.map.entry?_detach p.1 k
    rw [List.foldl_cons, ih, hone]
    by_cases hk : k = p.1 <;> by_cases hks : k ∈ gone.map (·.1) <;>
      simp only [List.map_cons, List.mem_cons, hk, hks, true_or, or_self, or_true, if_true, if_false,
        ite_self]

theorem vector_foldl_clearEntry (gone : List (Key × Entry)) (c : RegionCopy) :
    (gone.foldl clearEntry c).vector = c.vector := by
  induction gone generalizing c with
  | nil => rfl
  | cons p gone ih => exact ih (c.clearEntry p)

theorem queue_foldl_clearEntry (gone : List (Key × Entry)) (c : RegionCopy) :
    (gone.foldl clearEntry c).map.queue = c.map.queue := by
  induction gone generalizing c with
  | nil => rfl
  | cons p gone ih => exact ih (c.clearEntry p)

/-- A clear takes exactly the entries it is to take. -/
theorem entry?_clear (c : RegionCopy) (upTo : Option VersionVector) (k : Key) :
    (c.clear upTo).2.map.entry? k = (c.map.entry? k).filter fun e => !isCleared upTo e := by
  have hmem : k ∈ (c.map.slots.filter fun _ e => isCleared upTo e).keys ↔
      ∃ e, c.map.entry? k = some e ∧ isCleared upTo e = true := by
    simp only [OrdMap.keys, List.mem_map, OrdMap.filter, List.mem_filter, EntryMap.entry?]
    constructor
    · rintro ⟨⟨k', e⟩, ⟨hm, hc⟩, rfl⟩
      exact ⟨e, (OrdMap.find?_eq_some_iff _).2 ⟨k', Std.ReflCmp.compare_self, hm⟩, hc⟩
    · rintro ⟨e, hf, hc⟩
      obtain ⟨k', he, hm⟩ := (OrdMap.find?_eq_some_iff _).1 hf
      exact ⟨(k', e), ⟨hm, hc⟩, (Std.compare_eq_iff_eq.1 he).symm⟩
  have hclear : (c.clear upTo).2.map.entry? k =
      if k ∈ (c.map.slots.filter fun _ e => isCleared upTo e).keys then none
      else c.map.entry? k := entry?_foldl_clearEntry _ c k
  rw [hclear]
  cases hk : c.map.entry? k with
  | none => simp
  | some e =>
    simp only [hk, Option.some.injEq, exists_eq_left'] at hmem
    simp only [hmem, Option.filter]
    by_cases hc : isCleared upTo e = true <;> simp [hc]

/-- A clear brings nothing, and leaves what it is not to take. -/
theorem slot?_clear_eq_some {c : RegionCopy} {upTo : Option VersionVector} {k : Key} {s : Slot}
    (hk : (c.clear upTo).2.slot? k = some s) :
    ∃ e, c.map.entry? k = some e ∧ e.slot = s ∧ isCleared upTo e = false := by
  obtain ⟨e, he, rfl⟩ := slot?_eq_some_iff.1 hk
  rw [entry?_clear, Option.filter_eq_some_iff, Bool.not_eq_true'] at he
  exact ⟨e, he.1, rfl, he.2⟩

theorem of_slot?_clear {c : RegionCopy} {upTo : Option VersionVector} {k : Key} {s : Slot}
    (hk : (c.clear upTo).2.slot? k = some s) : c.slot? k = some s := by
  obtain ⟨e, he, hes, -⟩ := slot?_clear_eq_some hk
  exact slot?_eq_some_iff.2 ⟨e, he, hes⟩

@[simp] theorem vector_clear (c : RegionCopy) (upTo : Option VersionVector) :
    (c.clear upTo).2.vector = c.vector := vector_foldl_clearEntry _ c

/-- Collecting takes nothing but tombstones. -/
theorem slot?_collect {c c' : RegionCopy} {r : TombstoneRecord} (h : c.collect r = some c') (k : Key) :
    c'.slot? k = c.slot? k ∨ (c'.slot? k = none ∧ ∃ s, c.slot? k = some s ∧ s.token = .tombstone) := by
  unfold collect at h
  split at h
  next e he =>
    split at h
    next hc =>
      simp only [Option.some.injEq] at h
      subst h
      have hslot : ∀ k', (RegionCopy.slot? { c.detach r.key with
          stats := ((c.detach r.key).stats.addTombstones (-1)).countTombstoneGc } k') = (c.detach r.key).slot? k' :=
        fun _ => rfl
      rw [hslot, slot?_detach]
      split
      next heq =>
        subst heq
        refine .inr ⟨rfl, e.slot, slot?_eq_some_iff.2 ⟨e, he, rfl⟩, ?_⟩
        simp only [Bool.and_eq_true] at hc
        exact Token.isTombstone_iff.1 hc.1
      next => exact .inl rfl
    next => cases h
  next => cases h

theorem vector_collect {c c' : RegionCopy} {r : TombstoneRecord} (h : c.collect r = some c') :
    c'.vector = c.vector := by
  unfold collect at h
  split at h
  · split at h
    · simp only [Option.some.injEq] at h
      subst h
      rfl
    · cases h
  · cases h

/-- `c'` is `c` less some tombstones. -/
structure Swept (c c' : RegionCopy) : Prop where
  vector : c'.vector = c.vector
  slot : ∀ k, c'.slot? k = c.slot? k ∨
    (c'.slot? k = none ∧ ∃ s, c.slot? k = some s ∧ s.token = .tombstone)

theorem Swept.refl (c : RegionCopy) : Swept c c := ⟨rfl, fun _ => .inl rfl⟩

theorem Swept.of_slot? {c c' : RegionCopy} (h : Swept c c') {k : Key} {s : Slot}
    (hk : c'.slot? k = some s) : c.slot? k = some s := by
  rcases h.slot k with heq | ⟨hn, -⟩
  · exact heq ▸ hk
  · rw [hn] at hk
    cases hk

theorem Swept.trans {a b c : RegionCopy} (h : Swept a b) (h' : Swept b c) : Swept a c := by
  refine ⟨h'.vector.trans h.vector, fun k => ?_⟩
  rcases h'.slot k with hk | ⟨hk, s, hs, ht⟩
  · rw [hk]
    exact h.slot k
  · rcases h.slot k with hb | ⟨hb, -⟩
    · exact .inr ⟨hk, s, by rw [← hb]; exact hs, ht⟩
    · rw [hb] at hs
      cases hs

theorem swept_collectAll (records : List TombstoneRecord) (c : RegionCopy) :
    Swept c (c.collectAll records).2 := by
  refine List.foldlRecOn records _ (motive := fun p : Nat × RegionCopy => Swept c p.2) (.refl c)
    fun p hp r _ => ?_
  obtain ⟨n, c₁⟩ := p
  dsimp only
  split
  next c' hr => exact hp.trans ⟨vector_collect hr, slot?_collect hr⟩
  next => exact hp

theorem swept_expireTombstones (now : Int) (c : RegionCopy) :
    Swept c (c.expireTombstones now).2 := by
  obtain ⟨hv, hs⟩ := swept_collectAll
    (takeExpired now c.map.config.timeoutMs c.map.config.batchLimit c.map.queue).1
    { c with map := { c.map with
      queue := (takeExpired now c.map.config.timeoutMs c.map.config.batchLimit c.map.queue).2 } }
  exact ⟨hv, hs⟩

theorem swept_gcTombstones (gc : VersionVector) (c : RegionCopy) :
    Swept c (c.gcTombstones gc).2 := by
  obtain ⟨hv, hs⟩ := swept_collectAll (c.map.queue.partition (·.isCollectable gc)).1
    { c with map := { c.map with queue := (c.map.queue.partition (·.isCollectable gc)).2 } }
  exact ⟨hv, hs⟩

end RegionCopy
end DataGrid
