import DataGrid.Proofs.Entry.Transaction

/-
The conditions that a put or a destroy comes with, read on the map as it was
before the call (`PutOptions.Met`, `DestroyOptions.Met`). A put that is applied
met all of its conditions, and so did a destroy of a present key, whatever the
map, the region, the event and the mode of the call.

A destroy of an absent key keeps its condition only where it is refused anyway.
In token mode, and where a destroy is received by a region that keeps versions,
the expected value is not looked at, and the destroy comes to what it would come
to without one.
-/

namespace DataGrid

/-- The conditions of a put, for a key of a map. -/
structure PutOptions.Met (options : PutOptions) (m : EntryMap) (k : Key) : Prop where
  absent : options.ifNew = true → m.contains k = false
  present : options.ifOld = true → m.contains k = true
  value : ∀ v, options.expectedOldValue = some v → m.get? k = some v

/-- The condition of a destroy, for a key of a map. -/
def DestroyOptions.Met (options : DestroyOptions) (m : EntryMap) (k : Key) : Prop :=
  ∀ v, options.expectedOldValue = some v → m.get? k = some v

namespace Task

open RegionCopy (replica received)

variable {rules : Rules} {now : Int} {config : OperationConfig} {w u w' : Task} {o : Opened}

/-! ## What an opened entry says of the map -/

theorem entry?_dropDetached (w : Task) :
    Task.entry? (w.mapCopy (·.dropDetached w.key)) = w.entry?.filter fun e => !e.token.isDetached := by
  have hdrop : (w.copy.dropDetached w.key).map.entry? w.key =
      (w.copy.map.entry? w.key).filter fun e => !e.token.isDetached := by
    unfold RegionCopy.dropDetached
    split
    next e he =>
      rw [he, Option.filter_some]
      split
      next hd =>
        rw [hd]
        exact (w.copy.map.entry?_detach w.key w.key).trans (if_pos rfl)
      next hd =>
        rw [Bool.eq_false_iff.2 hd]
        exact he
    next he => rw [he]; rfl
  exact hdrop

/-- The entry in hand tells whether the key is present in the map, and its value. -/
structure Shows (w : Task) (e : Entry) : Prop where
  removed : e.token.isRemoved = !w.copy.map.contains w.key
  value : e.value? = w.copy.map.get? w.key

theorem absent_of_entry? (h : w.entry? = none) :
    w.copy.map.contains w.key = false ∧ w.copy.map.get? w.key = none := by
  have hnone : w.copy.map.entry? w.key = none := h
  simp [EntryMap.contains, EntryMap.get?, hnone]

theorem shows_entry {e : Entry} (h : w.entry? = some e) : w.Shows e := by
  have hsome : w.copy.map.entry? w.key = some e := h
  constructor <;> simp [EntryMap.contains, EntryMap.get?, hsome, Token.isLive]

/-- An entry that was left behind detached is as good as none. -/
theorem absent_of_dropped (h : Task.entry? (w.mapCopy (·.dropDetached w.key)) = none) :
    w.copy.map.contains w.key = false ∧ w.copy.map.get? w.key = none := by
  rw [entry?_dropDetached, Option.filter_eq_none_iff] at h
  cases he : w.entry? with
  | none => exact absent_of_entry? he
  | some e =>
    obtain ⟨hremoved, hvalue⟩ := shows_entry he
    have hdetached : e.token = .detached := by
      simpa [Token.isDetached_iff] using h e he
    rw [← hvalue]
    simp only [hdetached, Token.isRemoved, Token.kind, TokenKind.isRemoved] at hremoved
    exact ⟨by simpa using hremoved.symm, by simp [Entry.value?, hdetached, Token.value?]⟩

theorem shows_dropped {e : Entry}
    (h : Task.entry? (w.mapCopy (·.dropDetached w.key)) = some e) : w.Shows e := by
  rw [entry?_dropDetached, Option.filter_eq_some_iff] at h
  exact shows_entry h.1

theorem shows_openOrCreate (h : w.openOrCreate = (o, u)) : w.Shows o.entry := by
  unfold openOrCreate at h
  dsimp only at h
  split at h
  next e he =>
    cases h
    exact shows_dropped he
  next he =>
    obtain ⟨habsent, hnone⟩ := absent_of_dropped he
    cases h
    exact ⟨by rw [habsent]; rfl, hnone.symm⟩

theorem shows_open {create : Bool} (h : w.open_ create = (some o, u)) : w.Shows o.entry := by
  unfold open_ at h
  split at h
  · obtain ⟨ho, -⟩ := Prod.mk.inj h
    cases ho
    exact shows_openOrCreate rfl
  · obtain ⟨ho, -⟩ := Prod.mk.inj h
    obtain ⟨e, he, rfl⟩ := Option.map_eq_some_iff.1 ho
    exact shows_dropped he

/-! ## Put -/

theorem met_of_not_refused {options : PutOptions} {e : Entry} (h : w.Shows e)
    (hok : putRefused options config e = false) : options.Met w.copy.map w.key := by
  simp only [putRefused, h.removed, h.value, Bool.or_eq_false_iff, Bool.and_eq_false_iff,
    Bool.not_not, Bool.not_eq_false'] at hok
  obtain ⟨⟨⟨hnew, hold⟩, hvalue⟩, -⟩ := hok
  refine ⟨fun hif => ?_, fun hif => ?_, fun v hv => ?_⟩
  · simpa [hif] using hnew
  · simpa [hif] using hold
  · simpa [hv] using hvalue

theorem put_met {options : PutOptions}
    (hok : w.put rules now options config = .ok (.ok true, w')) :
    options.Met w.copy.map w.key := by
  unfold Task.put at hok
  split at hok
  · cases hok
  generalize hopen : w.openOrCreate = opened at hok
  obtain ⟨o, u⟩ := opened
  dsimp only at hok
  split at hok
  · cases hok
  next hrefused => exact met_of_not_refused (shows_openOrCreate hopen) (Bool.eq_false_iff.2 hrefused)

/-! ## Destroy -/

/-- The destroy leaves its mark on an absent key too, and is applied there. -/
structure MarksAbsent (w : Task) (rules : Rules) (config : OperationConfig)
    (options : DestroyOptions) : Prop where
  absent : w.copy.map.contains w.key = false
  evict : options.evict = false
  mode : config.inTokenMode = true ∨ rules.concurrencyChecks = true ∧ w.event.remote = true

theorem destroyLive_met {options : DestroyOptions} (h : w.Shows o.entry)
    (hok : u.destroyLive rules now config options o = .ok (.ok true, w')) :
    options.Met w.copy.map w.key := by
  unfold Task.destroyLive at hok
  split at hok
  · cases hok
  next hvalue =>
    intro v hv
    simpa [hv, h.value] using hvalue

theorem destroyRemoved_marks {options : DestroyOptions}
    (hok : u.destroyRemoved rules now config options o = .ok (.ok true, w')) :
    options.evict = false ∧
      (config.inTokenMode = true ∨ rules.concurrencyChecks = true ∧ u.event.remote = true) := by
  unfold Task.destroyRemoved at hok
  split at hok
  · cases hok
  next hevict =>
  refine ⟨Bool.eq_false_iff.2 hevict, ?_⟩
  split at hok
  next hmode => exact .inl hmode
  split at hok
  next hreceived => exact .inr (Bool.and_eq_true _ _ ▸ hreceived)
  next => exact absurd (congrArg Prod.fst (Except.ok.inj hok)) (missing_ne u rules)

theorem destroy_met {options : DestroyOptions}
    (hok : w.destroy rules now config options = .ok (.ok true, w')) :
    options.Met w.copy.map w.key ∨ w.MarksAbsent rules config options := by
  unfold Task.destroy at hok
  dsimp only at hok
  generalize hopen : w.open_ _ = opened at hok
  have hevent : opened.2.event = w.event := by
    rw [← hopen]
    exact (open_quiet w _).2
  split at hok
  next u =>
    split at hok
    · cases hok
    · exact absurd (congrArg Prod.fst (Except.ok.inj hok)) (missing_ne u rules)
  next o u =>
    have hshows := shows_open hopen
    split at hok
    next hremoved =>
      obtain ⟨hevict, hmode⟩ := destroyRemoved_marks hok
      rw [hshows.removed, Bool.not_eq_true'] at hremoved
      have hevent : u.event = w.event := hevent
      exact .inr ⟨hremoved, hevict, hevent ▸ hmode⟩
    next => exact .inl (destroyLive_met hshows hok)

/-- The answer, the copy and the event, but not what the region was told. -/
def unheard (p : Applied × Task) : Applied × RegionCopy × EntryEvent := (p.1, p.2.copy, p.2.event)

/-- On an absent key the expected value of a destroy makes no difference. -/
theorem destroy_absent_unasked (habsent : w.copy.map.contains w.key = false)
    (options : DestroyOptions) (expected : Option Value) :
    (w.destroy rules now config { options with expectedOldValue := expected }).map unheard =
      (w.destroy rules now config options).map unheard := by
  unfold Task.destroy
  dsimp only
  generalize hopen : w.open_ _ = opened
  split
  next => rfl
  next o u =>
    have hremoved : o.entry.token.isRemoved = true := by
      rw [(shows_open hopen).removed, habsent]
      rfl
    rw [if_pos hremoved, if_pos hremoved]
    unfold destroyRemoved
    dsimp only
    split
    · rfl
    split
    · rfl
    split
    · split
      · rfl
      split
      · cases u.bury now o.entry.token <;> rfl
      · rfl
    · rfl

/-- A put that is applied met its conditions before the call. So did a destroy, unless it is one of
those that leave their mark on an absent key. Where the key is absent, what value a destroy expects
makes no difference to its answer, to the copy or to the event. -/
theorem applied_if_met (rules : Rules) (now : Int) (config : OperationConfig) (w : Task) :
    (∀ options w', w.put rules now options config = .ok (.ok true, w') →
      options.Met w.copy.map w.key) ∧
    (∀ options w', w.destroy rules now config options = .ok (.ok true, w') →
      options.Met w.copy.map w.key ∨ w.MarksAbsent rules config options) ∧
    (w.copy.map.contains w.key = false → ∀ options expected,
      (w.destroy rules now config { options with expectedOldValue := expected }).map unheard =
        (w.destroy rules now config options).map unheard) :=
  ⟨fun _ _ => put_met, fun _ _ => destroy_met, destroy_absent_unasked⟩

/-- A put and a destroy that expect the value which the key holds are both applied. Of a key that was
never there it makes no difference to a destroy in token mode that it expects one. -/
theorem applied_if_met_expected :
    let puts : PutOptions := { ifOld := true, expectedOldValue := some "v" }
    let destroys : DestroyOptions := { expectedOldValue := some "v" }
    let held := arriving (.valid "v") (.ofPut "a" "w")
    let doomed := arriving (.valid "v") (.ofDestroy "a")
    let loaded : Task := { copy := {}, event := .ofDestroy "a" }
    (∃ w', held.put replica 0 puts {} = .ok (.ok true, w')) ∧ puts.Met held.copy.map "a" ∧
      (∃ w', doomed.destroy replica 0 {} destroys = .ok (.ok true, w')) ∧
      destroys.Met doomed.copy.map "a" ∧
      (loaded.destroy replica 0 { inTokenMode := true } destroys).map unheard =
        (loaded.destroy replica 0 { inTokenMode := true } {}).map unheard := by
  obtain ⟨hput, -, -⟩ := applied_if_met replica 0 {} (arriving (.valid "v") (.ofPut "a" "w"))
  obtain ⟨-, hdestroy, -⟩ := applied_if_met replica 0 {} (arriving (.valid "v") (.ofDestroy "a"))
  obtain ⟨-, -, hunasked⟩ :=
    applied_if_met replica 0 { inTokenMode := true } { copy := {}, event := .ofDestroy "a" }
  refine ⟨⟨_, rfl⟩, hput _ _ rfl, ⟨_, rfl⟩, ?_, hunasked rfl {} (some "v")⟩
  rcases hdestroy { expectedOldValue := some "v" } _ rfl with hmet | hmarks
  · exact hmet
  · cases hmarks.absent

/-- A destroy of a key that was never there is applied though it expects a value: where it is received
by a region that keeps versions, and in token mode. -/
theorem destroyed_unexpected :
    let options : DestroyOptions := { expectedOldValue := some "v" }
    let remote : Task := { copy := {}, event := received (.ofDestroy "a") 1 1 }
    let loaded : Task := { copy := {}, event := .ofDestroy "a" }
    (∃ w', remote.destroy replica 0 {} options = .ok (.ok true, w')) ∧
      (∃ w', loaded.destroy replica 0 { inTokenMode := true } options = .ok (.ok true, w')) ∧
      ¬ options.Met remote.copy.map "a" ∧ ¬ options.Met loaded.copy.map "a" := by
  refine ⟨⟨_, rfl⟩, ⟨_, rfl⟩, fun hmet => ?_, fun hmet => ?_⟩
  · have hvalue : none = some "v" := hmet "v" rfl
    cases hvalue
  · have hvalue : none = some "v" := hmet "v" rfl
    cases hvalue

end Task
end DataGrid
