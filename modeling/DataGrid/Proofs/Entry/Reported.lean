import DataGrid.Proofs.Entry.Transaction

/-
The two parts of an operation. First it opens its entry, gives the event its
version and changes the map, in single steps of which the region hears nothing
that it would count (`Task.Quiet`). Then it reports, and the map stays as it is:
an operation that is applied tells of itself and counts itself, and one that is
not does neither. Only an invalidation without effect may still ask for the
callbacks, if it was told to (`EntryCall.Reported`).

What every quiet step keeps, and what is said of reports, holds therefore of all
operations (`EntryCall.proceeds`).
-/

namespace DataGrid

/-- What a region is told once an operation was applied, and the callbacks of an invalidation that
changed nothing. -/
inductive Hook
  | putDone | invalidated | destroyed | destroyCompleted | transactionApplied
  | invalidateCallbacks
deriving DecidableEq

/-- A missing key, and the wish for a tag, come before an operation is applied. -/
def RegionNotice.hook? : RegionNotice → Option Hook
  | .keyMissing .. | .tagWanted .. => none
  | .putDone .. => some .putDone
  | .invalidated .. => some .invalidated
  | .destroyed .. => some .destroyed
  | .destroyCompleted .. => some .destroyCompleted
  | .transactionApplied .. => some .transactionApplied
  | .invalidateCallbacks .. => some .invalidateCallbacks

def hooksOf (notices : List RegionNotice) : List Hook := notices.filterMap RegionNotice.hook?

inductive EntryCall.Kind
  | put | invalidate | destroy
deriving DecidableEq

/-- The operations of a kind that were applied. -/
def Stats.applied (s : Stats) : EntryCall.Kind → Nat
  | .put => s.puts
  | .invalidate => s.invalidates
  | .destroy => s.destroys

namespace EntryCall

def kind : EntryCall → Kind
  | put .. | transactionPut => .put
  | invalidate .. | transactionInvalidate => .invalidate
  | destroy .. | transactionDestroy .. => .destroy

/-- What the region is told of the operation if it is applied, in order. -/
def hooks : EntryCall → List Hook
  | put .. => [.putDone]
  | invalidate .. => [.invalidated]
  | destroy .. => [.destroyed, .destroyCompleted]
  | transactionPut | transactionInvalidate | transactionDestroy .. => [.transactionApplied]

/-- An invalidation that is to have its callbacks made even if there is nothing to invalidate. -/
def isForced : EntryCall → Bool
  | invalidate _ forceCallbacks config => forceCallbacks || config.forceInvalidateEvent
  | _ => false

/-- What the region may be told of an operation with this answer. -/
inductive Tells (op : EntryCall) : Applied → List Hook → Prop
  | applied : Tells op (.ok true) op.hooks
  | nothing {r : Applied} (hr : r ≠ .ok true) : Tells op r []
  | callbacks {r : Applied} (hr : r ≠ .ok true) (hforced : op.isForced = true) :
      Tells op r [.invalidateCallbacks]

def isApplied : Applied → Bool
  | .ok applied => applied
  | .error _ => false

/-- The counter of a kind after an operation with this answer. -/
def counted (op : EntryCall) (r : Applied) (kind : Kind) (n : Nat) : Nat :=
  if isApplied r && op.kind == kind then Counter.wrappingAdd n 1 else n

/-- The region was told of the call what its answer says, and has counted it if it was applied. -/
structure Reported (op : EntryCall) (w : Task) (r : Applied) (w' : Task) : Prop where
  told : ∃ hooks, op.Tells r hooks ∧ hooksOf w'.notices = hooksOf w.notices ++ hooks
  counts : ∀ kind, w'.copy.stats.applied kind = op.counted r kind (w.copy.stats.applied kind)

end EntryCall

namespace Task

variable {rules : Rules} {now : Int} {w u u' w' : Task} {o : Opened} {op : EntryCall}
  {r : Applied}

/-! ## Steps that report nothing -/

/-- What a call may have made of `w` before it reports: tokens written, entries taken out, tombstones
queued, counters moved that count no operation, the vector and the event changed, and what a region
hears before an operation is applied. -/
inductive Quiet (w : Task) : Task → Prop
  | refl : Quiet w w
  | write {u : Task} (h : Quiet w u) (k : Key) (t : Token) (tag : Option VersionTag) :
      Quiet w (u.mapCopy (·.write k t tag))
  | detach {u : Task} (h : Quiet w u) (k : Key) : Quiet w (u.mapCopy (·.detach k))
  | dropDetached {u : Task} (h : Quiet w u) (k : Key) : Quiet w (u.mapCopy (·.dropDetached k))
  | enqueue {u : Task} (h : Quiet w u) (r : TombstoneRecord) :
      Quiet w (u.mapCopy fun c => { c with map := { c.map with queue := c.map.queue ++ [r] } })
  | vector {u : Task} (h : Quiet w u) (v : Option VersionVector) :
      Quiet w { u with copy := { u.copy with vector := v } }
  | count {u : Task} (h : Quiet w u) {f : Stats → Stats}
      (hf : ∀ s kind, (f s).applied kind = s.applied kind) : Quiet w (u.mapStats f)
  | event {u : Task} (h : Quiet w u) (e : EntryEvent) : Quiet w { u with event := e }
  | tell {u : Task} (h : Quiet w u) {n : RegionNotice} (hn : n.hook? = none) : Quiet w (u.tell n)

theorem hooksOf_append (l l' : List RegionNotice) : hooksOf (l ++ l') = hooksOf l ++ hooksOf l' :=
  List.filterMap_append

theorem applied_addTombstones (s : Stats) (d : Int) (kind : EntryCall.Kind) :
    (s.addTombstones d).applied kind = s.applied kind := by
  rw [Stats.addTombstones_eq]
  cases kind <;> rfl

theorem applied_dropDetached (c : RegionCopy) (k : Key) (kind : EntryCall.Kind) :
    (c.dropDetached k).stats.applied kind = c.stats.applied kind := by
  unfold RegionCopy.dropDetached
  split
  · split
    · cases kind <;> rfl
    · rfl
  · rfl

theorem Quiet.hooksOf_eq (h : w.Quiet u) : hooksOf u.notices = hooksOf w.notices := by
  induction h with
  | refl => rfl
  | @tell u n _ hn ih =>
    rw [Task.tell, hooksOf_append, ih, hooksOf, hooksOf, List.filterMap_cons_none hn]
    exact List.append_nil _
  | _ => assumption

theorem Quiet.applied_eq (h : w.Quiet u) (kind : EntryCall.Kind) :
    u.copy.stats.applied kind = w.copy.stats.applied kind := by
  induction h with
  | refl => rfl
  | @dropDetached u _ k ih => exact (applied_dropDetached u.copy k kind).trans ih
  | @count u _ f hf ih => exact (hf u.copy.stats kind).trans ih
  | _ => assumption

/-! ## The steps of an operation -/

theorem Quiet.openOrCreate (h : w.Quiet u) : w.Quiet u.openOrCreate.2 := by
  unfold Task.openOrCreate
  dsimp only
  split
  · exact h.dropDetached _
  · exact (h.dropDetached _).write _ .placeholder none

theorem Quiet.open_ (h : w.Quiet u) (create : Bool) : w.Quiet (u.open_ create).2 := by
  unfold Task.open_
  split
  · exact h.openOrCreate
  · exact h.dropDetached _

theorem Quiet.refuse (h : w.Quiet u) (o : Opened) : w.Quiet (u.refuse o).2 := by
  unfold Task.refuse
  split
  · exact h.detach _
  · exact h

theorem Quiet.refuseStale (h : w.Quiet u) (o : Opened) : w.Quiet (u.refuseStale o).2 :=
  (h.count fun _ kind => by cases kind <;> rfl).refuse o

theorem Quiet.missing (h : w.Quiet u) (rules : Rules) : w.Quiet (u.missing rules).2 := by
  rw [missing_eq]
  exact h.tell rfl

theorem Quiet.assignVersion (h : w.Quiet u) {e : Entry}
    (hok : u.assignVersion rules now e = .ok u') : w.Quiet u' := by
  unfold Task.assignVersion at hok
  split at hok
  · obtain ⟨⟨tag, vector⟩, -, hok⟩ := bind_ok hok
    cases hok
    exact ((h.tell (n := .tagWanted u.key e.stamp) rfl).vector vector).event _
  · cases hok
    exact h

theorem Quiet.recordVersion (h : w.Quiet u) (hok : u.recordVersion = .ok u') : w.Quiet u' := by
  obtain ⟨vector, -, rfl⟩ := recordVersion_ok hok
  exact h.vector vector

theorem Quiet.commitPut (h : w.Quiet u) {e : Entry} {v : Value} (hok : u.commitPut e v = .ok u') :
    w.Quiet u' := ((h.event _).write _ _ _).recordVersion hok

theorem Quiet.commitInvalidate (h : w.Quiet u) {e : Entry}
    (hok : u.commitInvalidate e = .ok u') : w.Quiet u' :=
  ((h.event _).write _ _ _).recordVersion hok

theorem Quiet.countReplaced (h : w.Quiet u) (old : Token) : w.Quiet (u.countReplaced old) := by
  refine h.count fun s kind => ?_
  split
  · exact applied_addTombstones s (-1) kind
  · rfl

theorem Quiet.bury (h : w.Quiet u) {old : Token} (hok : u.bury now old = .ok u') : w.Quiet u' := by
  obtain ⟨u₁, hrecord, hok⟩ := bind_ok hok
  cases hok
  refine Quiet.enqueue (((h.write _ _ _).recordVersion hrecord).count fun s kind => ?_) _
  split
  · rfl
  · exact applied_addTombstones s 1 kind

theorem Quiet.commitDestroy (h : w.Quiet u) {inTokenMode buries : Bool} {e : Entry}
    (hok : u.commitDestroy inTokenMode buries now e = .ok u') : w.Quiet u' := by
  unfold Task.commitDestroy at hok
  split at hok
  · cases hok
    exact h.write _ _ _
  split at hok
  · exact h.bury hok
  · exact (h.detach _).recordVersion hok

theorem Quiet.countEviction (h : w.Quiet u) : w.Quiet (u.mapStats Stats.countEviction) :=
  h.count fun _ kind => by cases kind <;> rfl

end Task

namespace EntryCall

open DataGrid.Task

variable {rules : Rules} {now : Int} {w u w' : Task} {o : Opened} {op : EntryCall} {r : Applied}

/-! ## Ends of an operation -/

/-- A call does its work, and reports last. -/
def Proceeds (op : EntryCall) (w : Task) (r : Applied) (w' : Task) : Prop :=
  ∃ u, w.Quiet u ∧ w'.copy.map = u.copy.map ∧ op.Reported u r w'

theorem isApplied_eq_false (hr : r ≠ .ok true) : isApplied r = false := by
  rcases r with e | applied
  · rfl
  · cases applied
    · rfl
    · exact absurd rfl hr

theorem counted_refused (hr : r ≠ .ok true) (kind : Kind) (n : Nat) : op.counted r kind n = n := by
  rw [counted, isApplied_eq_false hr, Bool.false_and, if_neg Bool.false_ne_true]

/-- An operation that is not applied told nothing. -/
theorem proceeds_quiet (h : w.Quiet u) (hr : r ≠ .ok true) : op.Proceeds w r u :=
  ⟨u, h, rfl, ⟨[], .nothing hr, (List.append_nil _).symm⟩, fun kind =>
    (counted_refused hr kind _).symm⟩

/-- An operation that is applied told of itself and counted itself, last. -/
theorem proceeds_applied (h : w.Quiet u) (hmap : w'.copy.map = u.copy.map)
    (htold : hooksOf w'.notices = hooksOf u.notices ++ op.hooks)
    (hcounts : ∀ kind, w'.copy.stats.applied kind =
      op.counted (.ok true) kind (u.copy.stats.applied kind)) : op.Proceeds w (.ok true) w' :=
  ⟨u, h, hmap, ⟨_, .applied, htold⟩, hcounts⟩

/-- An answer that was there without a version. -/
theorem Proceeds.of_answer {p : Applied × Task} (h : op.Proceeds w p.1 p.2)
    (hok : (.ok p : Checked (Applied × Task)) = .ok (r, w')) : op.Proceeds w r w' := by
  cases hok
  exact h

/-- An invalidation that is not applied may ask for its callbacks. -/
theorem proceeds_asking {forceNewEntry forceCallbacks : Bool} {config : OperationConfig}
    (h : w.Quiet u) {wanted : Bool}
    (hwanted : wanted = true → (forceCallbacks || config.forceInvalidateEvent) = true)
    (hr : r ≠ .ok true) :
    (invalidate forceNewEntry forceCallbacks config).Proceeds w r
      (u.tellInvalidateCallbacks config wanted) := by
  unfold tellInvalidateCallbacks
  split
  next hw =>
    refine ⟨u, h, rfl, ⟨_, .callbacks hr (hwanted hw), hooksOf_append _ _⟩, fun kind => ?_⟩
    exact (counted_refused hr kind _).symm
  next => exact proceeds_quiet h hr

/-- After its report too a call may say that it missed the key. -/
theorem Proceeds.missing (h : op.Proceeds w r u) (rules : Rules) :
    op.Proceeds w r (u.missing rules).2 := by
  obtain ⟨u₁, hquiet, hmap, ⟨hooks, htells, htold⟩, hcounts⟩ := h
  have htail : hooksOf (u.missing rules).2.notices = hooksOf u.notices :=
    (Quiet.refl.missing rules).hooksOf_eq
  rw [missing_eq] at htail ⊢
  exact ⟨u₁, hquiet, hmap, ⟨hooks, htells, htail.trans htold⟩, hcounts⟩

/-! ## Put -/

theorem put_proceeds {options : PutOptions} {config : OperationConfig}
    (hok : w.put rules now options config = .ok (r, w')) :
    (put options config).Proceeds w r w' := by
  unfold Task.put at hok
  split at hok
  · cases hok
    exact proceeds_quiet .refl nofun
  have hopened := (Quiet.refl (w := w)).openOrCreate
  generalize w.openOrCreate = opened at hok hopened
  obtain ⟨o, u⟩ := opened
  dsimp only at hok hopened
  split at hok
  · cases hok
    exact proceeds_quiet (hopened.refuse o) nofun
  split at hok
  · cases hok
    exact proceeds_quiet (hopened.refuseStale o) nofun
  · obtain ⟨u₁, hassign, hok⟩ := bind_ok hok
    obtain ⟨u₂, hcommit, hok⟩ := bind_ok hok
    have hchanged := ((hopened.assignVersion hassign).commitPut hcommit).countReplaced
      o.entry.token
    cases hok
    exact proceeds_applied hchanged rfl (hooksOf_append _ _) fun kind => by cases kind <;> rfl

theorem transactionPut_proceeds (hok : w.transactionPut rules = .ok (r, w')) :
    transactionPut.Proceeds w r w' := by
  unfold Task.transactionPut at hok
  split at hok
  · cases hok
    exact proceeds_quiet .refl nofun
  have hopened := (Quiet.refl (w := w)).openOrCreate
  generalize w.openOrCreate = opened at hok hopened
  obtain ⟨o, u⟩ := opened
  dsimp only at hok hopened
  split at hok
  · cases hok
    exact proceeds_quiet (hopened.refuseStale o) nofun
  · obtain ⟨u₁, hcommit, hok⟩ := bind_ok hok
    have hchanged := (hopened.commitPut hcommit).countReplaced o.entry.token
    cases hok
    exact proceeds_applied hchanged rfl (hooksOf_append _ _) fun kind => by cases kind <;> rfl

/-! ## Invalidate -/

theorem invalidate_proceeds {forceNewEntry forceCallbacks : Bool} {config : OperationConfig}
    (hok : w.invalidate rules now forceNewEntry forceCallbacks config = .ok (r, w')) :
    (invalidate forceNewEntry forceCallbacks config).Proceeds w r w' := by
  have hopened := (Quiet.refl (w := w)).open_
    (forceNewEntry || !rules.initialized || config.duringInitialImage)
  unfold Task.invalidate at hok
  dsimp only at hok
  split at hok
  next u heq =>
    rw [heq] at hopened
    exact .of_answer ((proceeds_asking hopened id (missing_ne _ rules)).missing rules) hok
  next o u heq =>
    rw [heq] at hopened
    split at hok
    · cases hok
      refine proceeds_asking hopened (fun hwanted => ?_) nofun
      exact (Bool.and_eq_true _ _ ▸ hwanted).1
    split at hok
    · exact .of_answer ((proceeds_asking hopened id (missing_ne _ rules)).missing rules) hok
    split at hok
    · cases hok
      exact proceeds_quiet (hopened.refuseStale o) nofun
    · obtain ⟨u₁, hassign, hok⟩ := bind_ok hok
      obtain ⟨u₂, hcommit, hok⟩ := bind_ok hok
      have hchanged := ((hopened.assignVersion hassign).commitInvalidate hcommit).countReplaced
        o.entry.token
      split at hok
      · cases hok
        exact proceeds_asking hchanged id nofun
      · cases hok
        exact proceeds_applied hchanged rfl (hooksOf_append _ _)
          fun kind => by cases kind <;> rfl

theorem transactionInvalidate_proceeds (hok : w.transactionInvalidate rules = .ok (r, w')) :
    transactionInvalidate.Proceeds w r w' := by
  unfold Task.transactionInvalidate at hok
  split at hok
  · cases hok
    exact proceeds_quiet .refl nofun
  next e _ =>
    split at hok
    · cases hok
      exact proceeds_quiet .refl nofun
    split at hok
    · cases hok
      exact proceeds_quiet (Quiet.refl.refuseStale ⟨e, false⟩) nofun
    · obtain ⟨u, hcommit, hok⟩ := bind_ok hok
      cases hok
      exact proceeds_applied (Quiet.refl.commitInvalidate hcommit) rfl (hooksOf_append _ _)
        fun kind => by cases kind <;> rfl

/-! ## Destroy -/

variable {config : OperationConfig} {options : DestroyOptions}

/-- A destroy tells of itself before it is over and when it is. -/
theorem finishDestroy_proceeds (h : w.Quiet u)
    (hok : (.ok (u.finishDestroy config options) : Checked _) = .ok (r, w')) :
    (destroy config options).Proceeds w r w' := by
  cases hok
  refine proceeds_applied h rfl ?_ fun kind => by cases kind <;> rfl
  simp only [Task.tell, mapStats, mapCopy, hooksOf_append, List.append_assoc]
  rfl

theorem destroyRemoved_proceeds (h : w.Quiet u)
    (hok : u.destroyRemoved rules now config options o = .ok (r, w')) :
    (destroy config options).Proceeds w r w' := by
  unfold Task.destroyRemoved at hok
  split at hok
  · cases hok
    exact proceeds_quiet h nofun
  split at hok
  · have hmarked : w.Quiet (u.write .destroyed) := h.write _ _ _
    exact finishDestroy_proceeds (hmarked.countReplaced o.entry.token) hok
  split at hok
  · split at hok
    · cases hok
      exact proceeds_quiet (h.refuseStale o) nofun
    split at hok
    · obtain ⟨u₁, hbury, hok⟩ := bind_ok hok
      exact finishDestroy_proceeds (h.bury hbury) hok
    · exact finishDestroy_proceeds h hok
  · exact .of_answer (proceeds_quiet (h.missing rules) (missing_ne u rules)) hok

theorem destroyLive_proceeds (h : w.Quiet u)
    (hok : u.destroyLive rules now config options o = .ok (r, w')) :
    (destroy config options).Proceeds w r w' := by
  unfold Task.destroyLive at hok
  split at hok
  · cases hok
    exact proceeds_quiet h nofun
  split at hok
  · cases hok
    exact proceeds_quiet (h.refuseStale o) nofun
  · obtain ⟨u₁, hassign, hok⟩ := bind_ok hok
    obtain ⟨u₂, hcommit, hok⟩ := bind_ok hok
    have hchanged := ((h.assignVersion hassign).event _).commitDestroy hcommit
    split at hok
    · exact finishDestroy_proceeds hchanged.countEviction hok
    · exact finishDestroy_proceeds hchanged hok

theorem destroy_proceeds (hok : w.destroy rules now config options = .ok (r, w')) :
    (destroy config options).Proceeds w r w' := by
  have hopened := (Quiet.refl (w := w)).open_ (config.inTokenMode
    || (rules.concurrencyChecks && (w.event.remote || options.evict)))
  unfold Task.destroy at hok
  dsimp only at hok
  split at hok
  next u heq =>
    rw [heq] at hopened
    split at hok
    · cases hok
      exact proceeds_quiet hopened nofun
    · exact .of_answer (proceeds_quiet (hopened.missing rules) (missing_ne u rules)) hok
  next o u heq =>
    rw [heq] at hopened
    split at hok
    · exact destroyRemoved_proceeds hopened hok
    · exact destroyLive_proceeds hopened hok

theorem transactionDestroy_proceeds {inTokenMode : Bool}
    (hok : w.transactionDestroy rules now inTokenMode = .ok (r, w')) :
    (transactionDestroy inTokenMode).Proceeds w r w' := by
  have hopened := (Quiet.refl (w := w)).open_ inTokenMode
  unfold Task.transactionDestroy at hok
  split at hok
  next u heq =>
    rw [heq] at hopened
    cases hok
    exact proceeds_quiet hopened nofun
  next o u heq =>
    rw [heq] at hopened
    split at hok
    · cases hok
      exact proceeds_quiet hopened nofun
    split at hok
    · cases hok
      exact proceeds_quiet (hopened.refuseStale o) nofun
    · obtain ⟨u₁, hcommit, hok⟩ := bind_ok hok
      have hchanged := (hopened.event _).commitDestroy hcommit
      cases hok
      exact proceeds_applied hchanged rfl (hooksOf_append _ _) fun kind => by cases kind <;> rfl

/-- Every operation does its work in quiet steps, and then reports what its answer says. -/
theorem proceeds (op : EntryCall) (hok : op.run rules now w = .ok (r, w')) :
    op.Proceeds w r w' := by
  cases op with
  | put options config => exact put_proceeds hok
  | invalidate forceNewEntry forceCallbacks config => exact invalidate_proceeds hok
  | destroy config options => exact destroy_proceeds hok
  | transactionPut => exact transactionPut_proceeds hok
  | transactionInvalidate => exact transactionInvalidate_proceeds hok
  | transactionDestroy inTokenMode => exact transactionDestroy_proceeds hok

theorem reported (op : EntryCall) (hok : op.run rules now w = .ok (r, w')) :
    op.Reported w r w' := by
  obtain ⟨u, hquiet, -, ⟨hooks, htells, htold⟩, hcounts⟩ := op.proceeds hok
  refine ⟨⟨hooks, htells, by rw [htold, hquiet.hooksOf_eq]⟩, fun kind => ?_⟩
  rw [hcounts, hquiet.applied_eq]

end EntryCall
end DataGrid
