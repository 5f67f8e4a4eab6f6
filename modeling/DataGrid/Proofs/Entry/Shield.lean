import DataGrid.Proofs.Entry.Refused

/-
What keeps an initial image from bringing a key back. While a region loads, a
destroy in token mode leaves the mark `destroyed`, and a put that comes with the
image leaves such a key alone. No other token has this effect: whether the key
is shielded can be told from the calls and their answers (`EntryMap.Loading`).

The shield is lifted by a put that is applied, and by an invalidation that would
make an entry, which leaves its own mark in place of the other. It does so even
where it answers that there was no such key. So the mark that an invalidation
leaves for an absent key while the image comes does not keep the image from
bringing the value.

Here regions check no versions, and events carry none.
-/

namespace DataGrid

open DataGrid.Task

namespace EntryMap

/-- The token that an operation on the key meets. -/
def token (m : EntryMap) (k : Key) : Token := ((m.slot? k).map Slot.token).getD .placeholder

theorem token_met (w : Task) : w.met.token = w.copy.map.token w.key := by
  unfold met token RegionCopy.slot?
  cases w.copy.map.slot? w.key <;> rfl

end EntryMap

namespace Task

variable {rules : Rules} {now : Int} {w u w' : Task} {e : Entry}

theorem Unchanged.token (h : w.Unchanged w') (k : Key) :
    w'.copy.map.token k = w.copy.map.token k :=
  congrArg (fun s : Option Slot => (s.map Slot.token).getD .placeholder) (h.slot k)

theorem Left.token {s : Option Slot} {vector : Option VersionVector} (h : w.Left w' s vector) :
    w'.copy.map.token w.key = (s.map Slot.token).getD .placeholder :=
  congrArg (fun s : Option Slot => (s.map Slot.token).getD .placeholder)
    ((h.slot w.key).trans (if_pos rfl))

/-! ## Steps without versions -/

theorem Opens.token_left {create : Bool} {o : Opened} (h : w.Opens create o u) :
    u.copy.map.token w.key = w.met.token :=
  Left.token (s := some w.met) ⟨h.hand.slot, h.vector⟩

/-- An operation that makes no entries has found its own, and has changed nothing yet. -/
theorem Opens.found {create : Bool} {o : Opened} (h : w.Opens create o u) (hc : create = false) :
    w.Untouched u :=
  h.untouched (Bool.eq_false_iff.2 fun hcreated => absurd (h.made hcreated) (by simp [hc]))

theorem isStale_untagged (h : w.event.tag = none) : w.isStale rules e = false := by
  simp only [isStale, h]

theorem assignVersion_unchecked (h : rules.concurrencyChecks = false) :
    w.assignVersion rules now e = .ok w := by
  simp only [assignVersion, h, Bool.false_and, Bool.false_eq_true, if_false]

theorem recordVersion_untagged (h : w.event.tag = none) : w.recordVersion = .ok w := by
  simp only [recordVersion, RegionCopy.recordTag, h]
  rfl

theorem commitPut_untagged (h : w.event.tag = none) (e : Entry) (v : Value) :
    ∃ w', w.commitPut e v = .ok w' :=
  ⟨_, recordVersion_untagged h⟩

theorem commitInvalidate_untagged (h : w.event.tag = none) (e : Entry) :
    ∃ w', w.commitInvalidate e = .ok w' :=
  ⟨_, recordVersion_untagged h⟩

/-- A key is taken away with its slot, and in token mode marked. -/
theorem Holding.commitDestroy_untagged (h : w.Holding u) (htag : u.event.tag = none)
    (inTokenMode : Bool) (now : Int) (e : Entry) :
    ∃ w' s, u.commitDestroy inTokenMode false now e = .ok w' ∧
      w.Leaves w' s w.copy.map.queue u.copy.vector ∧
      s.map Slot.token = if inTokenMode then some .destroyed else none := by
  cases inTokenMode with
  | true => exact ⟨_, _, rfl, h.write .destroyed, rfl⟩
  | false =>
    have hrecord : (u.mapCopy (·.detach u.key)).recordVersion = .ok (u.mapCopy (·.detach u.key)) :=
      recordVersion_untagged htag
    exact ⟨_, none, hrecord, h.detach, rfl⟩

theorem putRefused_congr {e' : Entry} (h : e.token = e'.token) (options : PutOptions)
    (config : OperationConfig) : putRefused options config e = putRefused options config e' := by
  simp only [putRefused, Entry.value?, h]

/-- A condition of the put does not hold, or the key is shielded. -/
def declines (w : Task) (options : PutOptions) (config : OperationConfig) : Bool :=
  putRefused options config { token := w.met.token, lastModified := 0 }

end Task

/-! ## One call -/

namespace EntryCall

/-- An operation that belongs to no transaction. -/
def Plain : EntryCall → Prop
  | put _ _ | invalidate _ _ _ | destroy _ _ => True
  | _ => False

/-- Whether a call has set the shield of its key or lifted it, by its answer. -/
def shields (rules : Rules) : EntryCall → Applied → Option Bool
  | put _ _, .ok true => some false
  | invalidate forceNewEntry _ config, _ =>
    if forceNewEntry || !rules.initialized || config.duringInitialImage then some false else none
  | destroy config _, .ok true => if config.inTokenMode then some true else none
  | _, _ => none

/-- The call answers, and after it the key is marked as destroyed if its shield is up. -/
def Shields (op : EntryCall) (rules : Rules) (now : Int) (w : Task) : Prop :=
  ∃ r w', op.run rules now w = .ok (r, w') ∧
    (w'.copy.map.token w.key = .destroyed ↔
      (op.shields rules r).getD (w.met.token == .destroyed) = true)

variable {rules : Rules} {now : Int} {w w' : Task} {r : Applied}

/-- A call that leaves the token and says nothing of the shield. -/
theorem shields_of_same {op : EntryCall} (hok : op.run rules now w = .ok (r, w'))
    (hr : op.shields rules r = none) (h : w'.copy.map.token w.key = w.met.token) :
    op.Shields rules now w := by
  refine ⟨r, w', hok, ?_⟩
  rw [hr, h, Option.getD_none, beq_iff_eq]

/-- A call that leaves another token than the mark. -/
theorem shields_of_unmarked {op : EntryCall} (hok : op.run rules now w = .ok (r, w'))
    (hr : (op.shields rules r).getD (w.met.token == .destroyed) = false)
    (h : w'.copy.map.token w.key ≠ .destroyed) : op.Shields rules now w := by
  refine ⟨r, w', hok, ?_⟩
  rw [hr]
  exact ⟨fun hmark => absurd hmark h, nofun⟩

theorem shields_of_untouched {op : EntryCall} (hok : op.run rules now w = .ok (r, w'))
    (hr : op.shields rules r = none) (h : w.Untouched w') : op.Shields rules now w :=
  shields_of_same hok hr ((h.token w.key).trans (EntryMap.token_met w).symm)

/-- An invalidation that may make an entry lifts the shield, and another one does not touch it. -/
theorem shields_invalidate {forceNewEntry forceCallbacks : Bool} {config : OperationConfig}
    (h : (forceNewEntry || !rules.initialized || config.duringInitialImage) = true ∨
      w.met.token ≠ .destroyed) (r : Applied) :
    ((invalidate forceNewEntry forceCallbacks config).shields rules r).getD
      (w.met.token == .destroyed) = false := by
  simp only [shields]
  split
  · rfl
  next hcreate => simpa using h.resolve_left hcreate

/-- A destroy that does not mark its key says nothing of the shield. -/
theorem shields_destroy {config : OperationConfig} {options : DestroyOptions}
    (h : config.inTokenMode = false) (r : Applied) :
    (destroy config options).shields rules r = none := by
  unfold shields
  split
  · contradiction
  · contradiction
  next heq =>
    cases heq
    rw [h]
    rfl
  · rfl

/-- A destroy that is applied and has left a slot. -/
theorem shields_of_finished {u : Task} {config : OperationConfig} {options : DestroyOptions}
    {s : Option Slot} {queue : List TombstoneRecord} {vector : Option VersionVector}
    (h : w.Leaves u s queue vector)
    (hok : (destroy config options).run rules now w = .ok (u.finishDestroy config options))
    (hs : (s.map Slot.token).getD .placeholder = .destroyed ↔
      ((destroy config options).shields rules (.ok true)).getD (w.met.token == .destroyed) = true) :
    (destroy config options).Shields rules now w := by
  obtain ⟨u', hu', hmap, -⟩ := finishDestroy_eq config options u
  rw [hu'] at hok
  refine ⟨_, u', hok, ?_⟩
  rw [hmap, h.token]
  exact hs

section

variable (ha : w.copy.Attached) (hoff : rules.concurrencyChecks = false)
  (htag : w.event.tag = none)

include ha in
theorem put_declined {v : Value} {options : PutOptions} {config : OperationConfig}
    (hv : w.event.newValue = some v) (hd : w.declines options config = true) :
    ∃ w', (put options config).run rules now w = .ok (.ok false, w') ∧ w.Untouched w' := by
  obtain ⟨o, u, ho, hopens⟩ := opens_openOrCreate ha
  have hrefused : putRefused options config o.entry = true :=
    (putRefused_congr hopens.token options config).trans hd
  simp only [run, Task.put, hv, ho, hrefused, if_true]
  exact ⟨_, rfl, hopens.refuse.2⟩

include ha hoff htag

theorem put_taken {v : Value} {options : PutOptions} {config : OperationConfig}
    (hv : w.event.newValue = some v) (hd : w.declines options config = false) :
    ∃ w', (put options config).run rules now w = .ok (.ok true, w') ∧
      w'.copy.map.token w.key = .valid v := by
  obtain ⟨o, u, ho, hopens⟩ := opens_openOrCreate ha
  have hrefused : putRefused options config o.entry = false :=
    (putRefused_congr hopens.token options config).trans hd
  have htag : u.event.tag = none := by rw [hopens.event, htag]
  obtain ⟨u', hcommit⟩ := commitPut_untagged htag o.entry v
  obtain ⟨-, vector, -, hl⟩ := hopens.hand.commitPut hcommit
  simp only [run, Task.put, hv, ho, hrefused, isStale_untagged htag, assignVersion_unchecked hoff,
    hcommit, Bool.false_eq_true, if_false, bind, Except.bind, pure, Except.pure]
  refine ⟨_, rfl, ?_⟩
  exact hl.token

theorem put_shields (options : PutOptions) (config : OperationConfig) :
    (put options config).Shields rules now w := by
  cases hv : w.event.newValue with
  | none =>
    have hok : (put options config).run rules now w =
        .ok (.error (.invalidToken w.key .invalid), w) := by
      simp only [run, Task.put, hv]
    exact shields_of_untouched hok rfl (.refl w)
  | some v =>
    cases hd : w.declines options config with
    | true =>
      obtain ⟨w', hok, hw'⟩ := put_declined ha hv hd
      exact shields_of_untouched hok rfl hw'
    | false =>
      obtain ⟨w', hok, hw'⟩ := put_taken ha hoff htag hv hd
      exact ⟨_, w', hok, by rw [hw']; simp [shields]⟩

theorem invalidate_shields (forceNewEntry forceCallbacks : Bool) (config : OperationConfig) :
    (invalidate forceNewEntry forceCallbacks config).Shields rules now w := by
  -- where it may make no entry its answer says nothing
  have hsilent : (forceNewEntry || !rules.initialized || config.duringInitialImage) = false →
      ∀ r, (invalidate forceNewEntry forceCallbacks config).shields rules r = none :=
    fun hcreate r => if_neg (by rw [hcreate]; exact Bool.false_ne_true)
  have hrun : (invalidate forceNewEntry forceCallbacks config).run rules now w =
    w.invalidate rules now forceNewEntry forceCallbacks config := rfl
  unfold Task.invalidate at hrun
  simp only at hrun
  rcases open_cases ha (forceNewEntry || !rules.initialized || config.duringInitialImage) with
    ⟨o, u, ho, hopens⟩ | ⟨ho, hcreate, -⟩
  · have htag : u.event.tag = none := by rw [hopens.event, htag]
    simp only [ho, hopens.token] at hrun
    split at hrun
    next hinv =>
      have hmet : w.met.token ≠ .destroyed := fun hmet => by rw [hmet] at hinv; cases hinv
      refine shields_of_unmarked hrun (shields_invalidate (.inr hmet) _) ?_
      rw [copy_tellInvalidateCallbacks, hopens.token_left]
      exact hmet
    split at hrun
    next hrem =>
      rw [Bool.and_eq_true, Bool.not_eq_true'] at hrem
      obtain ⟨-, huntouched⟩ :=
        ((hopens.found hrem.2).tellInvalidateCallbacks config _).missing rules
      exact shields_of_untouched hrun (hsilent hrem.2 _) huntouched
    next hcreate =>
      have hlifts : (forceNewEntry || !rules.initialized || config.duringInitialImage) = true ∨
          w.met.token ≠ .destroyed := by
        by_cases hmet : w.met.token = .destroyed
        · have hrem : Token.destroyed.isRemoved = true := rfl
          rw [hmet, hrem, Bool.true_and, Bool.not_eq_true', Bool.not_eq_false] at hcreate
          exact .inl hcreate
        · exact .inr hmet
      obtain ⟨u', hcommit⟩ := commitInvalidate_untagged htag o.entry
      obtain ⟨-, -, vector, -, hl⟩ := hopens.hand.commitInvalidate hcommit
      have hl := hl.countReplaced w.met.token
      have hmark : invalidMark u.event ≠ .destroyed := fun h =>
        absurd (isLive_invalidMark u.event) (by rw [h]; decide)
      simp only [isStale_untagged htag, assignVersion_unchecked hoff, hcommit, Bool.false_eq_true,
        if_false, bind, Except.bind, pure, Except.pure] at hrun
      split at hrun
      · refine shields_of_unmarked hrun (shields_invalidate hlifts _) ?_
        rw [copy_tellInvalidateCallbacks, hl.token]
        exact hmark
      · exact shields_of_unmarked hrun (shields_invalidate hlifts _) fun h =>
          hmark (hl.token.symm.trans h)
  · rw [ho] at hrun
    obtain ⟨-, huntouched⟩ := ((Untouched.refl w).tellInvalidateCallbacks config _).missing rules
    exact shields_of_untouched hrun (hsilent hcreate _) huntouched

section

variable {o : Opened} {u : Task} {config : OperationConfig} {options : DestroyOptions}
  (hopens : w.Opens config.inTokenMode o u)

include hopens

omit ha htag in
theorem destroyRemoved_shields
    (hrun : (destroy config options).run rules now w = u.destroyRemoved rules now config options o) :
    (destroy config options).Shields rules now w := by
  unfold Task.destroyRemoved at hrun
  split at hrun
  · exact shields_of_same hrun rfl hopens.token_left
  split at hrun
  next hmode =>
    have hl := (hopens.hand.write .destroyed).countReplaced o.entry.token
    exact shields_of_finished hl hrun (by simp [shields, hmode])
  next hmode =>
    rw [Bool.not_eq_true] at hmode
    simp only [hoff, Bool.false_and, Bool.false_eq_true, if_false] at hrun
    obtain ⟨-, huntouched⟩ := (hopens.found hmode).missing rules
    exact shields_of_untouched hrun (shields_destroy hmode _) huntouched

omit ha in
theorem destroyLive_shields (hmet : w.met.token ≠ .destroyed)
    (hrun : (destroy config options).run rules now w = u.destroyLive rules now config options o) :
    (destroy config options).Shields rules now w := by
  have htag : u.event.tag = none := by rw [hopens.event, htag]
  unfold Task.destroyLive at hrun
  split at hrun
  · exact shields_of_same hrun rfl hopens.token_left
  have hhand : w.Holding { u with event := { u.event with oldValue := o.entry.value? } } :=
    hopens.hand.withEvent rfl
  obtain ⟨u', s, hcommit, hl, hs⟩ := hhand.commitDestroy_untagged htag config.inTokenMode now
    o.entry
  simp only [isStale_untagged htag, assignVersion_unchecked hoff, hoff, hcommit,
    Bool.false_and, Bool.false_eq_true, if_false, bind, Except.bind, pure, Except.pure] at hrun
  have hmark : (s.map Slot.token).getD .placeholder = .destroyed ↔
      ((destroy config options).shields rules (.ok true)).getD (w.met.token == .destroyed) =
        true := by
    rw [hs]
    cases hmode : config.inTokenMode <;> simp [shields, hmode, hmet]
  split at hrun
  · exact shields_of_finished (u := u'.mapStats Stats.countEviction) (hl.congr rfl rfl) hrun hmark
  · exact shields_of_finished hl hrun hmark

end

theorem destroy_shields (config : OperationConfig) (options : DestroyOptions) :
    (destroy config options).Shields rules now w := by
  have hrun : (destroy config options).run rules now w =
    w.destroy rules now config options := rfl
  unfold Task.destroy at hrun
  simp only [hoff, Bool.false_and, Bool.or_false] at hrun
  rcases open_cases ha config.inTokenMode with ⟨o, u, ho, hopens⟩ | ⟨ho, hmode, -⟩
  · simp only [ho, hopens.token] at hrun
    split at hrun
    · exact destroyRemoved_shields hoff hopens hrun
    next hlive =>
      exact destroyLive_shields hoff htag hopens (fun hmet => hlive (by rw [hmet]; rfl)) hrun
  · rw [ho] at hrun
    simp only at hrun
    split at hrun
    · exact shields_of_untouched hrun rfl (.refl w)
    · obtain ⟨-, huntouched⟩ := (Untouched.refl w).missing rules
      exact shields_of_untouched hrun (shields_destroy hmode _) huntouched

/-- Every call without versions answers, and its answer tells whether the key is shielded. -/
theorem run_shields {op : EntryCall} (hop : op.Plain) : op.Shields rules now w := by
  cases op with
  | put options config => exact put_shields ha hoff htag options config
  | invalidate force callbacks config => exact invalidate_shields ha hoff htag force callbacks config
  | destroy config options => exact destroy_shields ha hoff htag config options
  | _ => exact hop.elim

end

end EntryCall

/-! ## A whole load -/

namespace EntryMap

variable {k : Key} {shielded : Bool} {m : EntryMap}

/-- Maps as calls on the key leave them, from any that calls have made, each call coming from a
region with a vector and counters of its own. By their answers the calls tell whether the key is
shielded. -/
inductive Loading (k : Key) : Bool → EntryMap → Prop
  | start {m : EntryMap} (hm : m.Reached) : Loading k (m.token k == .destroyed) m
  | call {shielded : Bool} {m : EntryMap} (h : Loading k shielded m) (op : EntryCall)
      (hop : op.Plain) (rules : Rules) (hoff : rules.concurrencyChecks = false)
      (vector : Option VersionVector) (stats : Stats) (now : Int) (event : EntryEvent)
      (hkey : event.key = k) (htag : event.tag = none) {r : Applied} {w : Task}
      (hok : op.run rules now { copy := ⟨m, vector, stats⟩, event := event } = .ok (r, w)) :
      Loading k ((op.shields rules r).getD shielded) w.copy.map

theorem Loading.reached (h : Loading k shielded m) : m.Reached := by
  induction h with
  | start hm => exact hm
  | call _ op _ rules _ _ _ now event _ _ hok ih => exact .step ih (.operate op rules now event hok)

theorem Loading.token_iff (h : Loading k shielded m) :
    m.token k = .destroyed ↔ shielded = true := by
  induction h with
  | start hm => rw [beq_iff_eq]
  | @call shielded m h op hop rules hoff vector stats now event hkey htag r w hok ih =>
    have ha : RegionCopy.Attached ⟨m, vector, stats⟩ := h.reached.attached rfl
    have hrun : op.Shields rules now { copy := ⟨m, vector, stats⟩, event := event } :=
      EntryCall.run_shields ha hoff htag hop
    obtain ⟨r', w', hok', hshields⟩ := hrun
    cases hok.symm.trans hok'
    have hmet : (Task.met { copy := ⟨m, vector, stats⟩, event := event }).token = m.token k := by
      rw [token_met, ← hkey]
      rfl
    have hbefore : (m.token k == .destroyed) = shielded := by
      rw [Bool.eq_iff_iff, beq_iff_eq]
      exact ih
    rw [hmet, hbefore] at hshields
    rw [← hkey]
    exact hshields

/-- After any load a put that comes with the initial image is refused on a shielded key, and then
nothing is changed; on any other key a put without conditions gives the key its value. The load can
always go on, whatever the next call. -/
theorem Loading.image_put (h : Loading k shielded m) (rules : Rules)
    (hoff : rules.concurrencyChecks = false) (vector : Option VersionVector) (stats : Stats)
    (now : Int) (event : EntryEvent) (hkey : event.key = k) (htag : event.tag = none) :
    let w : Task := { copy := ⟨m, vector, stats⟩, event := event }
    (∀ v options config, event.newValue = some v → config.duringInitialImage = true →
        shielded = true → ∃ w', (EntryCall.put options config).run rules now w = .ok (.ok false, w') ∧
          w.Untouched w') ∧
      (∀ v config, event.newValue = some v → shielded = false →
        ∃ w', (EntryCall.put {} config).run rules now w = .ok (.ok true, w') ∧
          w'.copy.map.token k = .valid v) ∧
      ∀ op : EntryCall, op.Plain → ∃ r w', op.run rules now w = .ok (r, w') ∧
        Loading k ((op.shields rules r).getD shielded) w'.copy.map := by
  intro w
  have ha : w.copy.Attached := h.reached.attached rfl
  have hmet : w.met.token = .destroyed ↔ shielded = true := by
    rw [token_met, ← h.token_iff, ← hkey]
    rfl
  refine ⟨fun v options config hv himage hshield => ?_, fun v config hv hshield => ?_,
    fun op hop => ?_⟩
  · refine EntryCall.put_declined ha hv ?_
    simp only [declines, putRefused, himage, hmet.2 hshield, beq_self_eq_true, Bool.and_self,
      Bool.or_true]
  · rw [← hkey]
    refine EntryCall.put_taken ha hoff htag hv ?_
    have hother : (w.met.token == .destroyed) = false := by
      rw [beq_eq_false_iff_ne, Ne, hmet, hshield]
      exact Bool.false_ne_true
    simp [declines, putRefused, hother]
  · have hrun : op.Shields rules now w := EntryCall.run_shields ha hoff htag hop
    obtain ⟨r, w', hok, -⟩ := hrun
    exact ⟨r, w', hok, h.call op hop rules hoff vector stats now event hkey htag hok⟩

/-- A region without versions that waits for its initial image. -/
def loading : Rules where
  initialized := false
  concurrencyChecks := false
  assignTag := Rules.noTag

/-- A key destroyed in token mode, and in vain once more, is left alone by the image. It is not any
more when it was written meanwhile. -/
theorem Loading.image_put_destroyed : ∃ m m', Loading "k" true m ∧ Loading "k" false m' ∧
    (∃ w, (EntryCall.put {} { duringInitialImage := true }).run loading 2
        { copy := { map := m }, event := .ofPut "k" "v" } = .ok (.ok false, w) ∧
      w.copy.map.token "k" = .destroyed) ∧
    ∃ w, (EntryCall.put {} { duringInitialImage := true }).run loading 3
        { copy := { map := m' }, event := .ofPut "k" "v" } = .ok (.ok true, w) ∧
      w.copy.map.token "k" = .valid "v" := by
  have hnew : Loading "k" false {} := .start (.new {})
  have hdestroyed := hnew.call (.destroy { inTokenMode := true } {}) trivial loading rfl none {} 0
    (.ofDestroy "k") rfl rfl rfl
  have hagain := hdestroyed.call (.destroy {} {}) trivial loading rfl none {} 1 (.ofDestroy "k")
    rfl rfl rfl
  have hwritten := hagain.call (.put {} {}) trivial loading rfl none {} 2 (.ofPut "k" "u") rfl rfl rfl
  refine ⟨_, _, hagain, hwritten, ?_, ?_⟩
  · obtain ⟨hdeclined, -⟩ := Loading.image_put hagain loading rfl none {} 2 (.ofPut "k" "v") rfl rfl
    obtain ⟨w, hw, huntouched⟩ := hdeclined "v" {} { duringInitialImage := true } rfl rfl rfl
    exact ⟨w, hw, huntouched.token "k"⟩
  · obtain ⟨-, htaken, -⟩ := Loading.image_put hwritten loading rfl none {} 3 (.ofPut "k" "v") rfl rfl
    exact htaken "v" { duringInitialImage := true } rfl rfl

/-- The image brings a key back that was destroyed in token mode, after an invalidation that fails;
and it brings a key that was invalidated while it was absent and the image came. -/
theorem image_revives :
    (∃ w₁ w₂ w₃ : Task,
      (EntryCall.destroy { inTokenMode := true } {}).run loading 0
        { copy := {}, event := .ofDestroy "k" } = .ok (.ok true, w₁) ∧
      (EntryCall.invalidate false false { duringInitialImage := true }).run loading 1
        { copy := w₁.copy, event := .ofInvalidate "k" } = .ok (.error (.notFound "k"), w₂) ∧
      (EntryCall.put {} { duringInitialImage := true }).run loading 2
        { copy := w₂.copy, event := .ofPut "k" "v" } = .ok (.ok true, w₃) ∧
      w₃.copy.map.token "k" = .valid "v") ∧
    ∃ w₁ w₂ : Task,
      (EntryCall.invalidate false false { duringInitialImage := true }).run loading 0
        { copy := {}, event := .ofInvalidate "k" } = .ok (.error (.notFound "k"), w₁) ∧
      (EntryCall.put {} { duringInitialImage := true }).run loading 1
        { copy := w₁.copy, event := .ofPut "k" "v" } = .ok (.ok true, w₂) ∧
      w₂.copy.map.token "k" = .valid "v" :=
  ⟨⟨_, _, _, rfl, rfl, rfl, rfl⟩, _, _, rfl, rfl, rfl⟩

end EntryMap
end DataGrid
