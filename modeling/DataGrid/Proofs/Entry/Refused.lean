import DataGrid.Proofs.Entry.Outcome

/-
Maps as the calls on them leave them, and operations that are not applied. An
entry map belongs to no region: each call may come from a region with rules, a
vector and counters of its own (`EntryMap.Reached`). No such map holds a
detached entry, so every operation on it comes to one of the outcomes of
`EntryCall.Outcome`; and of those that are not applied only two leave a trace.
-/

namespace DataGrid

open DataGrid.Task

namespace RegionCopy

variable {c c' : RegionCopy}

/-- One call on a copy, if it is not for a token received with an initial image. -/
inductive Step (c : RegionCopy) : RegionCopy → Prop
  | operate (op : EntryCall) (rules : Rules) (now : Int) (event : EntryEvent) {r : Applied}
      {w : Task} (hok : op.run rules now { copy := c, event := event } = .ok (r, w)) : Step c w.copy
  | clear (upTo : Option VersionVector) : Step c (c.clear upTo).2
  | expireTombstones (now : Int) : Step c (c.expireTombstones now).2
  | gcTombstones (gc : VersionVector) : Step c (c.gcTombstones gc).2

theorem Attached.clear (h : c.Attached) (upTo : Option VersionVector) :
    (c.clear upTo).2.Attached := fun k s hk => h k s (of_slot?_clear hk)

theorem Attached.swept (h : c.Attached) (hs : Swept c c') : c'.Attached :=
  h.of_slot? fun _ _ hk => .inr (hs.of_slot? hk)

end RegionCopy

theorem Task.met_attached {w : Task} (h : w.copy.Attached) : w.met.token ≠ .detached := by
  cases hs : w.copy.slot? w.key with
  | none =>
    rw [met_of_none hs]
    nofun
  | some s =>
    rw [met_of_some hs]
    exact h w.key s hs

/-- A slot is left of which the entry is not detached. -/
theorem Task.Left.attached {w w' : Task} {s : Option Slot} {vector : Option VersionVector}
    (h : w.Left w' s vector) (ha : w.copy.Attached)
    (hs : ∀ x, s = some x → x.token ≠ .detached) : w'.copy.Attached := by
  refine ha.of_slot? fun k x hx => ?_
  rw [h.slot] at hx
  split at hx
  · exact .inl (hs x hx)
  · exact .inr hx

theorem Task.Turned.attached {w : Task} {now : Int} {tag : Option VersionTag} {s : Option Slot}
    {queue : List TombstoneRecord} (h : w.Turned now tag s queue) (ha : w.copy.Attached) :
    ∀ x, s = some x → x.token ≠ .detached := by
  rintro x rfl
  cases h with
  | written ht =>
    rintro rfl
    simp [Token.isLive, Token.isRemoved, Token.kind, TokenKind.isRemoved] at ht
  | buried => simp
  | kept => exact met_attached ha

theorem EntryCall.Outcome.attached {op : EntryCall} {rules : Rules} {now : Int} {w w' : Task}
    {r : Applied} (h : op.Outcome rules now w r w') (ha : w.copy.Attached) : w'.copy.Attached := by
  cases h with
  | refused _ _ _ h => exact ha.of_slot? fun k s hk => .inr (by rw [← h.slot, hk])
  | marked _ _ h =>
    refine h.toLeft.attached ha fun x hx => ?_
    cases hx
    unfold invalidMark
    split <;> nofun
  | parked _ h => exact h.toLeft.attached ha fun x hx => by cases hx; nofun
  | applied hturned h => exact h.toLeft.attached ha (hturned.attached ha)

theorem RegionCopy.Step.attached {c c' : RegionCopy} (h : c.Step c') (ha : c.Attached) :
    c'.Attached := by
  cases h with
  | operate op rules now event hok => exact (op.outcome ha hok).attached ha
  | clear upTo => exact ha.clear upTo
  | expireTombstones now => exact ha.swept (swept_expireTombstones now c)
  | gcTombstones gc => exact ha.swept (swept_gcTombstones gc c)

namespace EntryMap

/-- Maps that calls have made of new ones, the vector and the counters of the caller being what they
may. Tokens received with an initial image are never detached. -/
inductive Reached : EntryMap → Prop
  | new (config : TombstoneConfig) : Reached { config := config }
  | step {m : EntryMap} {vector : Option VersionVector} {stats : Stats} {c : RegionCopy}
      (hm : Reached m) (hs : RegionCopy.Step { map := m, vector := vector, stats := stats } c) :
      Reached c.map
  | install {m : EntryMap} (hm : Reached m) (k : Key) {t : Token} (tag : Option VersionTag)
      (ht : t ≠ .detached) : Reached (m.install k t tag)

theorem Reached.attached {m : EntryMap} (hm : m.Reached) {c : RegionCopy} (hc : c.map = m) :
    c.Attached := by
  induction hm generalizing c with
  | new config =>
    refine RegionCopy.attached_empty fun k => ?_
    rw [RegionCopy.slot?, hc]
    rfl
  | step _ hs ih =>
    have hlast := hs.attached (ih rfl)
    intro k s hk
    exact hlast k s (by rw [RegionCopy.slot?, ← hc]; exact hk)
  | @install m _ k t tag ht ih =>
    have hbefore : RegionCopy.Attached { map := m } := ih rfl
    intro k' s hk
    rw [RegionCopy.slot?, hc, EntryMap.install, slot?_put] at hk
    split at hk
    · cases hk
      exact ht
    · exact hbefore k' s hk

end EntryMap

theorem EntryCall.Parks.slot?_eq_none {op : EntryCall} {rules : Rules} {w : Task}
    (h : op.Parks rules w) : w.copy.slot? w.key = none := by
  cases op with
  | destroy => exact h.2.2
  | _ => exact h.elim

/-- No operation leaves both traces. -/
theorem EntryCall.Marks.not_parks {op : EntryCall} {rules : Rules} {w : Task}
    (h : op.Marks rules w) : ¬ op.Parks rules w := by
  cases op with
  | invalidate => exact nofun
  | _ => exact h.elim

/-- What an operation leaves that was not applied, on whatever map calls have made. All slots, the
queue and the vector are as they were. Only an invalidation that comes while the initial image does
fails with its mark in place, with the version that goes with it; and an eviction leaves the
placeholder that it made for an absent key. -/
theorem EntryCall.refused_untouched (op : EntryCall) (rules : Rules) (now : Int) (w : Task)
    {w' : Task} {r : Applied} (hm : w.copy.map.Reached) (hok : op.run rules now w = .ok (r, w'))
    (hr : r ≠ .ok true) :
    (¬ (op.Marks rules w ∧ r ≠ .ok false) → ¬ op.Parks rules w → w.Untouched w') ∧
      (op.Marks rules w → r ≠ .ok false → r = .error (.notFound w.key) ∧
        ∃ vector, rules.version w.event w.copy.vector w.met.stamp now =
            .ok (w'.event.tag, vector) ∧
          w.Leaves w' (some ⟨invalidMark w.event, w.met.stamp.after w'.event.tag⟩)
            w.copy.map.queue vector) ∧
      (op.Parks rules w → r = .ok false ∧
        w.Leaves w' (some ⟨.placeholder, {}⟩) w.copy.map.queue w.copy.vector) := by
  cases op.outcome (hm.attached rfl) hok with
  | refused _ hmarks hparks h =>
    exact ⟨fun _ _ => h, fun hmark hfailed => absurd (hmarks hmark) hfailed,
      fun hpark => absurd hpark hparks⟩
  | @marked _ vector hmarks hver h =>
    exact ⟨fun hnot => absurd ⟨hmarks, by simp⟩ hnot, fun _ _ => ⟨rfl, vector, hver, h⟩,
      fun hpark => absurd hpark hmarks.not_parks⟩
  | parked hparks h =>
    exact ⟨fun _ hnot => absurd hparks hnot, fun hmark _ => absurd hparks hmark.not_parks,
      fun _ => ⟨rfl, h⟩⟩
  | applied => exact absurd rfl hr

/-- A region that keeps versions and waits for its initial image, and holds nothing yet. -/
def awaiting : Rules × RegionCopy :=
  let member : Member := { address := .localhost, port := 1 }
  ({ initialized := false, concurrencyChecks := true, assignTag := Rules.nextTag member },
    { vector := some { owner := member } })

theorem EntryCall.refused_untouched_awaiting :
    awaiting.2.map.Reached ∧
      (∃ w', run awaiting.1 0 { copy := awaiting.2, event := .ofPut "k" "v" }
          (.put { ifOld := true } {}) = .ok (.ok false, w') ∧
        w'.copy.slot? "k" = none ∧ w'.copy.vector = awaiting.2.vector) ∧
      (∃ w', run awaiting.1 0 { copy := awaiting.2, event := .ofInvalidate "k" }
          (.invalidate false false {}) = .ok (.error (.notFound "k"), w') ∧
        (w'.copy.slot? "k").map Slot.token = some .invalid) ∧
      ∃ w', run awaiting.1 0 { copy := awaiting.2, event := .ofEviction "k" }
          (.destroy {} .eviction) = .ok (.ok false, w') ∧
        w'.copy.slot? "k" = some ⟨.placeholder, {}⟩ := by
  have hm : awaiting.2.map.Reached := .new {}
  refine ⟨hm, ⟨_, rfl, ?_⟩, ⟨_, rfl, ?_⟩, ⟨_, rfl, ?_⟩⟩
  · obtain ⟨huntouched, -⟩ := refused_untouched (.put { ifOld := true } {}) awaiting.1 0
      { copy := awaiting.2, event := .ofPut "k" "v" } hm rfl nofun
    have h := huntouched (fun hmark => hmark.1.elim) nofun
    exact ⟨h.slot "k", h.vector⟩
  · obtain ⟨-, hmarked, -⟩ := refused_untouched (.invalidate false false {}) awaiting.1 0
      { copy := awaiting.2, event := .ofInvalidate "k" } hm rfl nofun
    obtain ⟨-, vector, -, h⟩ := hmarked ⟨rfl, .inl rfl, rfl⟩ nofun
    rw [h.slot]
    rfl
  · obtain ⟨-, -, hparked⟩ := refused_untouched (.destroy {} .eviction) awaiting.1 0
      { copy := awaiting.2, event := .ofEviction "k" } hm rfl nofun
    obtain ⟨-, h⟩ := hparked ⟨rfl, .inr rfl, rfl⟩
    rw [h.slot]
    rfl

end DataGrid
