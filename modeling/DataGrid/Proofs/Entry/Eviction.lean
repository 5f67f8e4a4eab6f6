import DataGrid.Entry.Eviction
import DataGrid.Proofs.Entry.Ticks

/-
Eviction until a limit is met. One round destroys the oldest key that holds a
value, which leaves a tombstone or nothing, and every other entry as it was
(`Task.destroy_eviction`). As the ticks tell the keys apart, the rounds together
take the keys with a value in the order of their last change, and as many of
them as are too many or as there are.

Only the region can keep an eviction from ending so: it gives each of them a
version, and a counter of versions may be at its end (`Rules.versionEach`).
-/

namespace DataGrid

open Counter (wrappingAdd wrappingAdd_zero wrappingAdd_le wrappingAdd_wrappingAdd)

namespace EntryMap

variable {m m' : EntryMap} {k : Key} {ks : List Key}

/-- These keys hold values, and were last changed one after the other and before any other key that
holds one. -/
structure Oldest (m : EntryMap) (ks : List Key) : Prop where
  valued : ∀ k ∈ ks, (m.get? k).isSome = true
  ordered : ks.Pairwise m.Before
  others : ∀ k ∈ ks, ∀ k' ∉ ks, (m.get? k').isSome = true → m.Before k k'

/-- The entry of a key was taken away, or is a tombstone now. -/
def Takes (m : EntryMap) (k : Key) (m' : EntryMap) : Prop :=
  m'.slots = m.slots.erase k ∨ ∃ e, e.token = .tombstone ∧ m'.slots = m.slots.insert k e

theorem Takes.entry?_self (h : m.Takes k m') {e : Entry} (he : m'.entry? k = some e) :
    e.token = .tombstone := by
  unfold EntryMap.entry? at he
  rcases h with hslots | ⟨e', ht, hslots⟩
  · rw [hslots, OrdMap.find?_erase_self] at he
    cases he
  · rw [hslots, OrdMap.find?_insert_self] at he
    cases he
    exact ht

theorem Takes.entry?_other (h : m.Takes k m') {k' : Key} (hne : k' ≠ k) :
    m'.entry? k' = m.entry? k' := by
  have hcompare : compare k' k ≠ .eq := fun heq => hne (Std.compare_eq_iff_eq.1 heq)
  unfold EntryMap.entry?
  rcases h with hslots | ⟨e, -, hslots⟩
  · rw [hslots, OrdMap.find?_erase_other _ hcompare]
  · rw [hslots, OrdMap.find?_insert_other _ _ hcompare]

theorem Takes.get?_self (h : m.Takes k m') : m'.get? k = none := by
  unfold get?
  cases he : m'.entry? k with
  | none => rfl
  | some e =>
    rw [Option.bind_some, Entry.value?, h.entry?_self he]
    rfl

/-- One entry fewer is counted by what counts the entry and no tombstone. -/
theorem Takes.size_filter (h : m.Takes k m') {p : Entry → Bool} {e : Entry}
    (he : m.entry? k = some e) (hp : p e = true)
    (htombstone : ∀ e, e.token = .tombstone → p e = false) :
    (m'.slots.filter fun _ e => p e).size + 1 = (m.slots.filter fun _ e => p e).size := by
  have hthere : (m.slots.find? k).any p = true := by
    rw [show m.slots.find? k = some e from he, Option.any_some, hp]
  rcases h with hslots | ⟨e', ht, hslots⟩
  · have hcount := m.slots.size_filter_erase p k
    rwa [hthere, if_pos rfl, ← hslots] at hcount
  · have hcount := m.slots.size_filter_insert p k e'
    rw [hthere, if_pos rfl, htombstone e' ht, if_neg Bool.false_ne_true, ← hslots] at hcount
    exact hcount

/-- A key that was there and holds a value is one of those present, and of those with a value. -/
theorem Takes.counts (h : m.Takes k m') {e : Entry} (he : m.entry? k = some e)
    (hvalue : e.value?.isSome = true) :
    m'.size + 1 = m.size ∧ m'.valued.size + 1 = m.valued.size := by
  have hsize : ∀ m : EntryMap, m.size = (m.slots.filter fun _ e => e.token.isLive).size := fun m =>
    List.length_map _
  have hlive : e.token.isLive = true := by
    unfold Entry.value? at hvalue
    cases ht : e.token <;> rw [ht] at hvalue <;> first | rfl | cases hvalue
  constructor
  · rw [hsize, hsize]
    exact h.size_filter he hlive fun e ht => by rw [ht]; rfl
  · exact h.size_filter he hvalue fun e ht => by rw [Entry.value?, ht]; rfl

theorem Oldest.cons (h : m'.Oldest ks) (htakes : m.Takes k m')
    (hk : (m.get? k).isSome = true)
    (hbefore : ∀ k' ≠ k, (m.get? k').isSome = true → m.Before k k') :
    k ∉ ks ∧ m.Oldest (k :: ks) := by
  have hnot : k ∉ ks := by
    intro hmem
    have hvalue := h.valued k hmem
    rw [htakes.get?_self] at hvalue
    cases hvalue
  have hother : ∀ {k'}, k' ≠ k → m'.get? k' = m.get? k' := fun hne => by
    rw [get?, get?, htakes.entry?_other hne]
  have hsame : ∀ {k₁ k₂}, k₁ ≠ k → k₂ ≠ k → m'.Before k₁ k₂ → m.Before k₁ k₂ := by
    intro k₁ k₂ h₁ h₂ hlt
    unfold Before at hlt
    rwa [htakes.entry?_other h₁, htakes.entry?_other h₂] at hlt
  have hne : ∀ {k'}, k' ∈ ks → k' ≠ k := fun hmem heq => hnot (heq ▸ hmem)
  have hvalued : ∀ k' ∈ ks, (m.get? k').isSome = true := fun k' hmem => by
    rw [← hother (hne hmem)]
    exact h.valued k' hmem
  refine ⟨hnot, ⟨?_, ?_, ?_⟩⟩
  · exact List.forall_mem_cons.2 ⟨hk, hvalued⟩
  · refine List.pairwise_cons.2 ⟨fun k' hmem => hbefore k' (hne hmem) (hvalued k' hmem), ?_⟩
    exact h.ordered.imp_of_mem fun hmem hmem' => hsame (hne hmem) (hne hmem')
  · refine List.forall_mem_cons.2 ⟨fun k' hk' => ?_, fun k₁ hmem k' hk' hvalue => ?_⟩
    · exact hbefore k' (List.ne_of_not_mem_cons hk')
    · have hne' := List.ne_of_not_mem_cons hk'
      refine hsame (hne hmem) hne' (h.others k₁ hmem k' (List.not_mem_of_not_mem_cons hk') ?_)
      rwa [hother hne']

theorem exists_oldest (h : m.Ticked) {n : Nat} (hn : n ≤ m.valued.size) :
    ∃ ks, ks.length = n ∧ m.Oldest ks := by
  induction n generalizing m with
  | zero => exact ⟨[], rfl, nofun, .nil, nofun⟩
  | succ n ih =>
    obtain ⟨k, hk⟩ : ∃ k, m.oldestKey? = some k := by
      rw [← Option.ne_none_iff_exists', ne_eq, oldestKey?_eq_none_iff]
      omega
    obtain ⟨⟨e, he, hvalue⟩, hbefore⟩ := oldestKey?_before h hk
    have htakes : m.Takes k (m.detach k) := .inl rfl
    obtain ⟨-, hvalued⟩ := htakes.counts he hvalue
    obtain ⟨ks, hlength, hks⟩ := ih (h.detach k) (by omega)
    obtain ⟨-, holdest⟩ := hks.cons htakes (isSome_get?_iff.2 ⟨e, he, hvalue⟩) hbefore
    exact ⟨k :: ks, by rw [List.length_cons, hlength], holdest⟩

end EntryMap

/-! ## Versions for what is evicted -/

namespace Rules

/-- The vector once the region has given the evictions of these keys their versions, in turn. -/
def versionEach (rules : Rules) (now : Int) (m : EntryMap) :
    List Key → Option VersionVector → Checked (Option VersionVector)
  | [], vector => .ok vector
  | k :: ks, vector => do
    let (_, vector) ←
      rules.version (.ofEviction k) vector (((m.entry? k).map Entry.stamp).getD {}) now
    versionEach rules now m ks vector

theorem versionEach_cons {rules : Rules} {m : EntryMap} {k : Key} {e : Entry}
    (he : m.entry? k = some e) (now : Int) (ks : List Key) (vector : Option VersionVector) :
    rules.versionEach now m (k :: ks) vector =
      rules.version (.ofEviction k) vector e.stamp now >>= fun p =>
        rules.versionEach now m ks p.2 := by
  rw [versionEach, he]
  rfl

theorem versionEach_congr {rules : Rules} {now : Int} {m m' : EntryMap} {ks : List Key}
    (h : ∀ k ∈ ks, m'.entry? k = m.entry? k) (vector : Option VersionVector) :
    rules.versionEach now m' ks vector = rules.versionEach now m ks vector := by
  induction ks generalizing vector with
  | nil => rfl
  | cons k ks ih =>
    obtain ⟨hk, hks⟩ := List.forall_mem_cons.1 h
    simp only [versionEach, hk, ih hks]

/-- The region keeps no versions, gives none to its own operations, or gives them the next ones and
has `n` of them left. -/
def Ample (rules : Rules) (m : EntryMap) (vector : Option VersionVector) (n : Nat) : Prop :=
  rules.concurrencyChecks = false ∨ rules.assignTag = noTag ∨
    ∃ self, rules.assignTag = nextTag self ∧
      (∀ k e, m.entry? k = some e → e.stamp.entryVersion < counterMax) ∧
      ∀ v, vector = some v →
        v.Sound ∧ self.same v.owner = true ∧ v.localVersion + n ≤ counterMax

variable {rules : Rules} {now : Int} {m : EntryMap} {n : Nat}

/-- An eviction that is given no tag leaves the vector. -/
theorem version_untagged {vector : Option VersionVector} {stamp : VersionStamp} {k : Key}
    (hassign : rules.concurrencyChecks = true →
      rules.assignTag vector stamp now = .ok (none, vector)) :
    rules.version (.ofEviction k) vector stamp now = .ok (none, vector) := by
  cases hc : rules.concurrencyChecks with
  | false => exact version_unversioned hc rfl
  | true =>
    have hnone := hassign hc
    cases vector <;> simp [version, hc, hnone, EntryEvent.ofEviction, recorded, bind, Except.bind,
      pure, Except.pure]

theorem Ample.next {vector : Option VersionVector} (h : rules.Ample m vector (n + 1)) (now : Int)
    {k : Key} {e : Entry} (he : m.entry? k = some e) :
    ∃ tag vector', rules.version (.ofEviction k) vector e.stamp now = .ok (tag, vector') ∧
      rules.Ample m vector' n := by
  rcases h with hc | hassign | ⟨self, hassign, hstamps, hroom⟩
  · exact ⟨none, vector, version_unversioned hc rfl, .inl hc⟩
  · exact ⟨none, vector, version_untagged fun _ => by rw [hassign]; rfl, .inr (.inl hassign)⟩
  · cases vector with
    | none =>
      exact ⟨none, none, version_untagged fun _ => by rw [hassign]; rfl,
        .inr (.inr ⟨self, hassign, hstamps, nofun⟩)⟩
    | some v =>
      obtain ⟨hsound, hself, hle⟩ := hroom v rfl
      cases hc : rules.concurrencyChecks with
      | false => exact ⟨none, some v, version_unversioned hc rfl, .inl hc⟩
      | true =>
        obtain ⟨v', hversion, hrecorded, hlocal⟩ :
            ∃ v', rules.version (.ofEviction k) (some v) e.stamp now =
              .ok (some (localTag self v e.stamp now), some v') ∧
              v.Recorded self (v.localVersion + 1) v' ∧ v'.localVersion = v.localVersion + 1 :=
          version_local hc hassign rfl rfl hsound hself (by omega) (hstamps k e he)
        refine ⟨_, some v', hversion, .inr (.inr ⟨self, hassign, hstamps, fun v₁ hv₁ => ?_⟩)⟩
        cases hv₁
        exact ⟨hrecorded.sound, by rw [hrecorded.owner]; exact hself, by omega⟩

theorem Ample.versionEach {vector : Option VersionVector} {ks : List Key}
    (h : rules.Ample m vector ks.length) (now : Int)
    (hks : ∀ k ∈ ks, (m.entry? k).isSome = true) :
    ∃ vector', rules.versionEach now m ks vector = .ok vector' := by
  induction ks generalizing vector with
  | nil => exact ⟨vector, rfl⟩
  | cons k ks ih =>
    obtain ⟨hk, hks⟩ := List.forall_mem_cons.1 hks
    obtain ⟨e, he⟩ := Option.isSome_iff_exists.1 hk
    obtain ⟨tag, vector₁, hversion, htail⟩ := h.next now he
    obtain ⟨vector', heach⟩ := ih htail hks
    refine ⟨vector', ?_⟩
    rw [versionEach_cons he, hversion]
    exact heach

end Rules

/-! ## One round -/

namespace Task

variable {rules : Rules} {now : Int} {w u : Task} {e : Entry} {buries : Bool}

/-- A version is recorded in a vector, whatever else becomes of the copy. -/
theorem recordVersion_map (w : Task) :
    w.recordVersion = (Rules.recorded w.event.tag w.copy.vector).map fun vector =>
      { w with copy := { w.copy with vector := vector } } := by
  rw [recordVersion, RegionCopy.recordTag_eq]
  cases Rules.recorded w.event.tag w.copy.vector <;> rfl

/-- The version of an operation is assigned first and recorded later. -/
theorem version_eq (w : Task) (rules : Rules) (now : Int) (e : Entry) :
    rules.version w.event w.copy.vector e.stamp now =
      w.assignVersion rules now e >>= fun u =>
        (Rules.recorded u.event.tag u.copy.vector).map fun vector => (u.event.tag, vector) := by
  have hbind : ∀ p : Option VersionTag × Option VersionVector,
      (do return (p.1, ← Rules.recorded p.1 p.2) : Checked _) =
        (Rules.recorded p.1 p.2).map fun vector => (p.1, vector) := fun p => by
    cases Rules.recorded p.1 p.2 <;> rfl
  unfold Rules.version assignVersion
  split
  · simp only [tell]
    cases rules.assignTag w.copy.vector e.stamp now with
    | error err => rfl
    | ok p => exact hbind p
  · exact hbind (w.event.tag, w.copy.vector)

/-- A key that is present is taken out of the map with the record of its version. -/
theorem commitDestroy_takes (u : Task) (buries : Bool) (now : Int) (e : Entry) :
    ∃ f : Option VersionVector → Task,
      u.commitDestroy false buries now e = (Rules.recorded u.event.tag u.copy.vector).map f ∧
      ∀ vector, (f vector).copy.vector = vector ∧ u.copy.map.Takes u.key (f vector).copy.map ∧
        (f vector).copy.stats.evictions = u.copy.stats.evictions := by
  have hqueued : ∀ (x : Checked (Option VersionVector)) (g : Option VersionVector → Task)
      (h : Task → Task), (x.map g >>= fun u => .ok (h u)) = x.map fun vector => h (g vector) :=
    fun x _ _ => by cases x <;> rfl
  unfold commitDestroy
  rw [if_neg Bool.false_ne_true]
  split
  · refine ⟨_, (congrArg (· >>= _) (recordVersion_map (u.write .tombstone))).trans (hqueued _ _ _),
      fun vector => ⟨rfl, .inr ⟨_, ?_, rfl⟩, ?_⟩⟩
    · exact EntryMap.token_stampedWith _ _
    · show (if e.token.isTombstone then u.copy.stats else u.copy.stats.addTombstones 1).evictions =
        u.copy.stats.evictions
      rw [Stats.addTombstones_eq]
      split <;> rfl
  · exact ⟨_, recordVersion_map _, fun vector => ⟨rfl, .inl rfl, rfl⟩⟩

/-- What an eviction of a key with a value comes to: it is applied, unless the region could not give
it a version. -/
theorem destroy_eviction (rules : Rules) (now : Int) (he : w.entry? = some e) (hvalue : e.value?.isSome = true)
    (htag : w.event.tag = none) :
    (∃ overflow, rules.version w.event w.copy.vector e.stamp now = .error overflow ∧
      w.destroy rules now {} .eviction = .error overflow) ∨
    ∃ tag w', rules.version w.event w.copy.vector e.stamp now = .ok (tag, w'.copy.vector) ∧
      w.destroy rules now {} .eviction = .ok (.ok true, w') ∧
      w.copy.map.Takes w.key w'.copy.map ∧
      w'.copy.stats.evictions = wrappingAdd w.copy.stats.evictions 1 := by
  have hlive : e.token.isDetached = false ∧ e.token.isRemoved = false := by
    unfold Entry.value? at hvalue
    cases ht : e.token <;> rw [ht] at hvalue <;> first | exact ⟨rfl, rfl⟩ | cases hvalue
  have hfresh : w.isStale rules e = false := by rw [isStale, htag]
  rw [version_eq]
  simp only [destroy, open_entry he hlive.1, hlive.2, destroyLive, DestroyOptions.eviction,
    Option.isSome_none, Bool.false_and, hfresh, Bool.false_eq_true, if_false, if_true]
  cases hassign : w.assignVersion rules now e with
  | error overflow => exact .inl ⟨overflow, rfl, rfl⟩
  | ok u =>
    obtain ⟨hkey, hmap, hstats⟩ := assignVersion_keeps hassign
    obtain ⟨f, hcommit, hf⟩ := commitDestroy_takes
      { u with event := { u.event with oldValue := e.value? } }
      (rules.concurrencyChecks && !false) now e
    simp only [bind, Except.bind, hcommit]
    cases hrec : Rules.recorded u.event.tag u.copy.vector with
    | error overflow => exact .inl ⟨overflow, rfl, rfl⟩
    | ok vector =>
      obtain ⟨hvector, htakes, hevictions⟩ := hf vector
      refine .inr ⟨u.event.tag, _, ?_, rfl, ?_, ?_⟩
      · exact congrArg (fun v => Except.ok (u.event.tag, v)) hvector.symm
      · rw [← hmap, ← hkey]
        exact htakes
      · rw [← hstats]
        exact congrArg (wrappingAdd · 1) hevictions

end Task

/-! ## All rounds -/

namespace Evictor

open RegionCopy (replica sender)

/-- As many evictions as there are keys too many, or keys with a value. -/
def Evicting.due (s : Evicting) : Nat :=
  min (s.copy.map.size - s.evictor.limit) s.copy.map.valued.size

/-- These keys were evicted and counted, and nothing else was changed in the map. -/
structure Evicted (s : Evicting) (ks : List Key) (s' : Evicting) : Prop where
  gone : ∀ k ∈ ks, ∀ e, s'.copy.map.entry? k = some e → e.token = .tombstone
  kept : ∀ k ∉ ks, s'.copy.map.entry? k = s.copy.map.entry? k
  limit : s'.evictor.limit = s.evictor.limit
  evictor : s.evictor.evictions ≤ counterMax →
    s'.evictor.evictions = wrappingAdd s.evictor.evictions ks.length
  region : s.copy.stats.evictions ≤ counterMax →
    s'.copy.stats.evictions = wrappingAdd s.copy.stats.evictions ks.length
  size : s'.copy.map.size + ks.length = s.copy.map.size
  valued : s'.copy.map.valued.size + ks.length = s.copy.map.valued.size
  handled : s'.copy.map.Handled

/-- The rounds from `s` evict the oldest keys `ks`, if each of them is given its version, and then
go on no longer. -/
structure Ends (rules : Rules) (now : Int) (s : Evicting) (ks : List Key)
    (out : Checked Evicting) : Prop where
  oldest : s.copy.map.Oldest ks
  versions : rules.versionEach now s.copy.map ks s.copy.vector = out.map (·.copy.vector)
  rounds : ∀ rounds ≥ ks.length, ∀ evicted,
    evictRounds rules now rounds evicted s = out.map fun s' => (.ok (evicted + ks.length), s')
  evicted : ∀ s', out = .ok s' → Evicted s ks s'

variable {rules : Rules} {now : Int} {s s₁ s' : Evicting} {k : Key} {ks : List Key}

theorem Evicted.refl (h : s.copy.map.Handled) : Evicted s [] s :=
  ⟨nofun, fun _ _ => rfl, rfl, fun h => (wrappingAdd_zero h).symm,
    fun h => (wrappingAdd_zero h).symm, rfl, rfl, h⟩

theorem Evicted.cons (h : Evicted s₁ ks s') (hk : k ∉ ks)
    (htakes : s.copy.map.Takes k s₁.copy.map) {e : Entry} (he : s.copy.map.entry? k = some e)
    (hvalue : e.value?.isSome = true)
    (hevictor : s₁.evictor =
      { s.evictor with evictions := wrappingAdd s.evictor.evictions 1 })
    (hregion : s₁.copy.stats.evictions = wrappingAdd s.copy.stats.evictions 1) :
    Evicted s (k :: ks) s' := by
  have hlength : (k :: ks).length = 1 + ks.length := by rw [List.length_cons, Nat.add_comm]
  obtain ⟨hsize, hvalued⟩ := htakes.counts he hvalue
  refine ⟨?_, fun k' hk' => ?_, ?_, fun _ => ?_, fun _ => ?_, ?_, ?_, h.handled⟩
  · refine List.forall_mem_cons.2 ⟨fun e' he' => ?_, h.gone⟩
    rw [h.kept k hk] at he'
    exact htakes.entry?_self he'
  · rw [h.kept k' (List.not_mem_of_not_mem_cons hk'),
      htakes.entry?_other (List.ne_of_not_mem_cons hk')]
  · rw [h.limit, hevictor]
  · have hcount := h.evictor (by rw [hevictor]; exact wrappingAdd_le _ _)
    rw [hcount, hevictor, wrappingAdd_wrappingAdd, hlength]
  · rw [h.region (by rw [hregion]; exact wrappingAdd_le _ _), hregion, wrappingAdd_wrappingAdd,
      hlength]
  · rw [hlength, ← hsize, ← h.size]
    omega
  · rw [hlength, ← hvalued, ← h.valued]
    omega

/-- With nothing due no round does anything. -/
theorem ends_nil (h : s.copy.map.Handled) (hdue : s.due = 0) : Ends rules now s [] (.ok s) where
  oldest := ⟨nofun, .nil, nofun⟩
  versions := rfl
  rounds := by
    intro rounds _ evicted
    cases rounds with
    | zero => rfl
    | succ rounds =>
      unfold evictRounds
      split
      next hmust =>
        have hover : s.evictor.limit < s.copy.map.size := of_decide_eq_true hmust
        have hnone : s.copy.map.oldestKey? = none := by
          rw [EntryMap.oldestKey?_eq_none_iff]
          unfold Evicting.due at hdue
          omega
        rw [hnone]
        rfl
      next => rfl
  evicted := by
    intro s' hs'
    cases hs'
    exact .refl h

section

variable {rounds evicted : Nat} {w : Task} (hmust : s.evictor.mustEvict s.copy.map.size = true)
  (hk : s.copy.map.oldestKey? = some k)

include hmust hk

theorem evictRounds_overflow {overflow : Overflow}
    (hdestroy : Task.destroy rules now {} .eviction ⟨s.copy, .ofEviction k, s.notices⟩ =
      .error overflow) :
    evictRounds rules now (rounds + 1) evicted s = .error overflow := by
  simp only [evictRounds, hmust, if_true, hk, hdestroy]
  rfl

theorem evictRounds_next
    (hdestroy : Task.destroy rules now {} .eviction ⟨s.copy, .ofEviction k, s.notices⟩ =
      .ok (.ok true, w)) :
    evictRounds rules now (rounds + 1) evicted s =
      evictRounds rules now rounds (evicted + 1)
        ⟨{ s.evictor with evictions := wrappingAdd s.evictor.evictions 1 }, w.copy, w.notices⟩ := by
  simp only [evictRounds, hmust, if_true, hk, hdestroy]
  rfl

end

/-- While something is due a round evicts the oldest key, and there is one less to evict. -/
theorem ends_rounds (rules : Rules) (now : Int) (n : Nat) (h : s.copy.map.Handled)
    (hdue : s.due = n) : ∃ ks out, ks.length = n ∧ Ends rules now s ks out := by
  induction n generalizing s with
  | zero => exact ⟨[], .ok s, rfl, ends_nil h hdue⟩
  | succ n ih =>
    have hmust : s.evictor.mustEvict s.copy.map.size = true := by
      unfold Evicting.due at hdue
      exact decide_eq_true (by omega)
    obtain ⟨k, hk⟩ : ∃ k, s.copy.map.oldestKey? = some k := by
      rw [← Option.ne_none_iff_exists', ne_eq, EntryMap.oldestKey?_eq_none_iff]
      unfold Evicting.due at hdue
      omega
    obtain ⟨⟨e, he, hvalue⟩, hbefore⟩ := EntryMap.oldestKey?_before h.ticked hk
    have hget : (s.copy.map.get? k).isSome = true := EntryMap.isSome_get?_iff.2 ⟨e, he, hvalue⟩
    have hround := Task.destroy_eviction rules now (w := ⟨s.copy, .ofEviction k, s.notices⟩) he
      hvalue rfl
    rcases hround with ⟨overflow, hversion, hdestroy⟩ | ⟨tag, w, hversion, hdestroy, htakes, hcount⟩
    · -- the keys that would have come next are the oldest of those that are left without this one
      have htakes : s.copy.map.Takes k (s.copy.map.detach k) := .inl rfl
      obtain ⟨-, hvalued⟩ := htakes.counts he hvalue
      obtain ⟨ks, hlength, hks⟩ := EntryMap.exists_oldest (n := n) (h.ticked.detach k) (by
        unfold Evicting.due at hdue
        omega)
      obtain ⟨-, holdest⟩ := hks.cons htakes hget hbefore
      refine ⟨k :: ks, .error overflow, by rw [List.length_cons, hlength], holdest, ?_, ?_, nofun⟩
      · rw [Rules.versionEach_cons he]
        exact congrArg (· >>= _) hversion
      · intro rounds hrounds evicted
        cases rounds with
        | zero => exact absurd hrounds (Nat.not_succ_le_zero _)
        | succ rounds => exact evictRounds_overflow hmust hk hdestroy
    · -- the next rounds start from here
      let s₁ : Evicting :=
        ⟨{ s.evictor with evictions := wrappingAdd s.evictor.evictions 1 }, w.copy, w.notices⟩
      have hdone : s₁.copy.map.Handled := h.operate (.destroy {} .eviction) rules now hdestroy
      have hless : s₁.due = n := by
        obtain ⟨hsize, hvalued⟩ := htakes.counts he hvalue
        unfold Evicting.due at hdue ⊢
        change min (w.copy.map.size - s.evictor.limit) w.copy.map.valued.size = n
        simp only at hsize hvalued
        omega
      obtain ⟨ks, out, hlength, hends⟩ := ih hdone hless
      obtain ⟨hnot, holdest⟩ := hends.oldest.cons htakes hget hbefore
      refine ⟨k :: ks, out, by rw [List.length_cons, hlength], holdest, ?_, ?_, fun s' hs' => ?_⟩
      · have hsame : ∀ k' ∈ ks, w.copy.map.entry? k' = s.copy.map.entry? k' := fun k' hmem =>
          htakes.entry?_other fun heq => hnot (heq ▸ hmem)
        rw [← hends.versions, Rules.versionEach_congr hsame, Rules.versionEach_cons he]
        exact congrArg (· >>= _) hversion
      · intro rounds hrounds evicted
        cases rounds with
        | zero => exact absurd hrounds (Nat.not_succ_le_zero _)
        | succ rounds =>
          have hrest := hends.rounds rounds (Nat.le_of_succ_le_succ hrounds) (evicted + 1)
          rw [Nat.add_assoc, Nat.add_comm 1] at hrest
          rw [evictRounds_next hmust hk hdestroy]
          exact hrest
      · exact (hends.evicted s' hs').cons hnot htakes he hvalue rfl hcount

theorem Ends.evict {out : Checked Evicting} (h : Ends rules now s ks out)
    (hlength : ks.length = s.due) :
    evict rules now s = out.map fun s' => (.ok s.due, s') := by
  have hfew : ks.length ≤ s.copy.map.size := by
    rw [hlength, Evicting.due]
    omega
  have hrounds := h.rounds s.copy.map.size hfew 0
  rwa [Nat.zero_add, hlength] at hrounds

/-- Once what was due is gone, no more keys are present than the limit or none holds a value. -/
theorem Evicted.within (h : Evicted s ks s') (hlength : ks.length = s.due) :
    s'.copy.map.size ≤ s.evictor.limit ∨ ∀ k, s'.copy.map.get? k = none := by
  have hsize := h.size
  have hvalued := h.valued
  rw [hlength, Evicting.due] at hsize hvalued
  by_cases hle : s'.copy.map.size ≤ s.evictor.limit
  · exact .inl hle
  · exact .inr fun k => EntryMap.get?_eq_none_of_valued (by omega) k

/-- Whatever calls have made of a map, and whatever its region and its limit, eviction takes the
oldest keys with a value, as many as there are keys too many or keys with a value, and answers their
number. More rounds would do no more. It ends so if the region gives the evictions their versions,
which a region does that keeps none, or has versions enough left. So after a put that was applied no
more keys are present than the limit allows, or none holds a value. -/
theorem oldest_evicted (rules : Rules) (now : Int) :
    (∀ s : Evicting, s.copy.map.Handled → ∃ ks out, ks.length = s.due ∧ Ends rules now s ks out ∧
      evict rules now s = out.map (fun s' => (.ok s.due, s')) ∧
      (rules.Ample s.copy.map s.copy.vector s.due → ∃ s', out = .ok s')) ∧
    ∀ (options : PutOptions) (config : OperationConfig) (evictor : Evictor) (w u : Task),
      w.copy.map.Handled → w.put rules now options config = .ok (.ok true, u) →
        (∃ overflow, evict rules now ⟨evictor, u.copy, u.notices⟩ = .error overflow ∧
          put rules now options config evictor w = .error overflow) ∨
        ∃ evictor' w', put rules now options config evictor w = .ok (.ok true, evictor', w') ∧
          (w'.copy.map.size ≤ evictor.limit ∨ ∀ k, w'.copy.map.get? k = none) := by
  refine ⟨fun s hm => ?_, fun options config evictor w u hm hput => ?_⟩
  · obtain ⟨ks, out, hlength, hends⟩ := ends_rounds rules now s.due hm rfl
    refine ⟨ks, out, hlength, hends, hends.evict hlength, fun hample => ?_⟩
    rw [← hlength] at hample
    obtain ⟨vector, hversions⟩ := hample.versionEach now fun k hk => by
      obtain ⟨e, he, -⟩ := EntryMap.isSome_get?_iff.1 (hends.oldest.valued k hk)
      exact Option.isSome_iff_exists.2 ⟨e, he⟩
    rw [hends.versions] at hversions
    cases out with
    | error overflow => cases hversions
    | ok s' => exact ⟨s', rfl⟩
  · have hdone : u.copy.map.Handled := hm.operate (.put options config) rules now hput
    obtain ⟨ks, out, hlength, hends⟩ := ends_rounds rules now (s := ⟨evictor, u.copy, u.notices⟩) _ hdone
      rfl
    have hevict := hends.evict hlength
    simp only [Evictor.put, hput, bind, Except.bind, hevict]
    cases out with
    | error overflow => exact .inl ⟨overflow, rfl, rfl⟩
    | ok s' =>
      exact .inr ⟨s'.evictor, { u with copy := s'.copy, notices := s'.notices }, rfl,
        (hends.evicted s' rfl).within hlength⟩

/-- A region that gives its operations the next versions. -/
def primary : Rules := { concurrencyChecks := true, assignTag := Rules.nextTag sender }

/-- The first of three keys is put again and the second is invalidated. With a limit of one, an
eviction takes the two that hold values, and leaves the second. With a limit of three, a put of a
fourth key is enough for one to go. -/
theorem oldest_evicted_updated :
    (∃ s s' : Evicting, s.copy.map.Handled ∧ s.evictor.limit = 1 ∧ s.copy.map.size = 3 ∧
      evict primary 5 s = .ok (.ok 2, s') ∧ s'.evictor.evictions = 2 ∧ s'.copy.map.size = 1 ∧
      ∀ k, s'.copy.map.get? k = none) ∧
    ∃ (w w' : Task) (evictor : Evictor), w.copy.map.Handled ∧
      put primary 5 {} {} { limit := 3 } w = .ok (.ok true, evictor, w') ∧
      (w'.copy.map.size ≤ 3 ∨ ∀ k, w'.copy.map.get? k = none) := by
  have ha := (EntryMap.Handled.new {}).operate (w := { copy := {}, event := .ofPut "a" "1" })
    (.put {} {}) replica 0 rfl
  have hb := ha.operate (w := { copy := _, event := .ofPut "b" "1" }) (.put {} {}) replica 1 rfl
  have hc := hb.operate (w := { copy := _, event := .ofPut "c" "1" }) (.put {} {}) replica 2 rfl
  have hagain := hc.operate (w := { copy := _, event := .ofPut "a" "2" }) (.put {} {}) replica 3 rfl
  have hdone := hagain.operate (w := { copy := _, event := .ofInvalidate "b" })
    (.invalidate false false {}) replica 4 rfl
  obtain ⟨hevict, hput⟩ := oldest_evicted primary 5
  constructor
  · obtain ⟨m, hm, hsize, hvalued, hstamps⟩ : ∃ m : EntryMap, m.Handled ∧ m.size = 3 ∧
        m.valued.size = 2 ∧ ∀ p ∈ m.slots.toList, p.2.stamp.entryVersion < counterMax :=
      ⟨_, hdone, rfl, rfl, by decide⟩
    let s : Evicting :=
      { evictor := { limit := 1 }, copy := { map := m, vector := some { owner := sender } } }
    have hdue : s.due = 2 := by
      change min (m.size - 1) m.valued.size = 2
      rw [hsize, hvalued]
      rfl
    have hample : primary.Ample m (some { owner := sender }) 2 := by
      refine .inr (.inr ⟨sender, rfl, fun k e he => ?_, fun v hv => ?_⟩)
      · exact hstamps (k, e) (OrdMap.mem_toList_iff.2 he)
      · cases hv
        exact ⟨VersionVector.sound_new sender, sender.same_refl, by decide⟩
    obtain ⟨ks, out, hlength, hends, hanswer, hsupplied⟩ := hevict s hm
    rw [hdue] at hlength hanswer hsupplied
    obtain ⟨s', rfl⟩ := hsupplied hample
    have hgone := hends.evicted s' rfl
    have hleft : s'.copy.map.size + ks.length = m.size := hgone.size
    have hnone : s'.copy.map.valued.size + ks.length = m.valued.size := hgone.valued
    have hcount := hgone.evictor (Nat.zero_le _)
    rw [hlength] at hcount
    exact ⟨s, s', hm, rfl, hsize, hanswer, hcount, by omega,
      EntryMap.get?_eq_none_of_valued (by omega)⟩
  · obtain ⟨w, u, p, hm, happlied, hanswer⟩ : ∃ (w u : Task) (p : Except EntryError Nat × Evicting),
        w.copy.map.Handled ∧ w.put primary 5 {} {} = .ok (.ok true, u) ∧
        evict primary 5 ⟨{ limit := 3 }, u.copy, u.notices⟩ = .ok p :=
      ⟨{ copy := { map := _, vector := some { owner := sender } }, event := .ofPut "d" "1" }, _, _,
        hdone, rfl, rfl⟩
    rcases hput {} {} { limit := 3 } w u hm happlied with ⟨overflow, herror, -⟩ | ⟨evictor, w', h⟩
    · rw [hanswer] at herror
      cases herror
    · exact ⟨w, w', evictor, hm, h⟩

end Evictor
end DataGrid
