import DataGrid.Bucket.Store
import DataGrid.Proofs.Entry.Known

/-
What a bucket is whoever its primary is and whatever was applied to it: it has
the id under which it is kept, and its vector has seen every version in it
(`Bucket.Aware`). So a clear leaves nothing in it.

Unlike `Bucket.Calm` this does not ask the member to be primary, and holds of
copies that events of other members were applied to.
-/

namespace DataGrid

open RegionCopy

/-! ## Advisors -/

namespace Advisor

variable (hostsRegion : Member → Bool)

theorem bucketId_settle (a : Advisor) : a.settle.bucketId = a.bucketId := by
  unfold settle
  split <;> rfl

theorem bucketId_setHosting (a : Advisor) (on : Bool) :
    (a.setHosting on).bucketId = a.bucketId := by
  unfold setHosting
  split
  · rfl
  · split <;> exact bucketId_settle _

theorem bucketId_becomePrimary (a : Advisor) : a.becomePrimary.2.bucketId = a.bucketId := by
  unfold becomePrimary
  split
  · rfl
  · split
    · rfl
    · exact bucketId_settle _

theorem bucketId_resignPrimary (a : Advisor) : a.resignPrimary.2.bucketId = a.bucketId := by
  unfold resignPrimary
  split
  · exact bucketId_settle _
  · rfl

theorem bucketId_setPrimary (a : Advisor) (m : Option Member) :
    (a.setPrimary m).bucketId = a.bucketId := by
  unfold setPrimary
  split
  · rfl
  · exact bucketId_settle _

theorem bucketId_setElector (a : Advisor) (m : Option Member) :
    (Id.run (setElector (fun m => pure (hostsRegion m)) a m)).bucketId = a.bucketId := by
  cases m <;> rfl

/-- At most another elector is expected to choose afterwards. -/
theorem deferToElector_eq (a : Advisor) : ∃ elector,
    (Id.run (deferToElector (fun m => pure (hostsRegion m)) a)).2 = { a with elector } := by
  unfold deferToElector
  split
  · exact ⟨a.elector, rfl⟩
  · simp only [pure, bind, Id.run]
    split
    · exact ⟨none, rfl⟩
    · split
      · exact ⟨a.elector, rfl⟩
      · exact ⟨none, rfl⟩

/-- Whoever is asked to bid leaves the bucket the same. -/
def KeepsId (ask : Advisor → Id (Advisor × List DelegateReport)) : Prop :=
  ∀ a, (Id.run (ask a)).1.bucketId = a.bucketId

variable {hostsRegion} {ask : Advisor → Id (Advisor × List DelegateReport)}

theorem KeepsId.volunteerThrough (h : KeepsId ask) (a : Advisor) :
    (Id.run (volunteerThrough (fun m => pure (hostsRegion m)) ask a)).2.1.bucketId =
      a.bucketId := by
  obtain ⟨elector, hdefer⟩ := deferToElector_eq hostsRegion a
  simp only [Advisor.volunteerThrough, pure, bind, Id.run] at hdefer ⊢
  generalize deferToElector (m := Id) (fun m => hostsRegion m) a = p at hdefer ⊢
  obtain ⟨deferred, a'⟩ := p
  simp only at hdefer ⊢
  have hasked := h { a' with state := .volunteering }
  simp only [Id.run] at hasked
  generalize ask { a' with state := .volunteering } = q at hasked ⊢
  obtain ⟨a'', reports⟩ := q
  subst hdefer
  split
  · rfl
  · split
    · rfl
    · simp only
      split
      · rw [bucketId_settle, hasked]
      · exact hasked

theorem KeepsId.performThrough (h : KeepsId ask) (call : AdvisorCall) (a : Advisor) :
    (Id.run (performThrough (fun m => pure (hostsRegion m)) ask call a)).2.1.bucketId =
      a.bucketId := by
  cases call with
  | openGate | addHosting | removeHosting | awaitPrimary | observe | close => rfl
  | setHosting on => exact bucketId_setHosting a on
  | setElector m => exact bucketId_setElector hostsRegion a m
  | volunteer => exact h.volunteerThrough a
  | becomePrimary => exact bucketId_becomePrimary a
  | resignPrimary => exact bucketId_resignPrimary a
  | setPrimary m => exact bucketId_setPrimary a m

/-- A call that a delegate makes after others. -/
def callNext (hostsRegion : Member → Bool) (made : Advisor × List DelegateReport)
    (call : AdvisorCall) : Id (Advisor × List DelegateReport) := do
  let (answer, a, inner) ←
    performThrough (fun m => pure (hostsRegion m)) noteAskedAgain call made.1
  return (a, made.2 ++ inner ++ [.did call answer])

theorem keepsId_askDelegate : KeepsId (askDelegate fun m => pure (hostsRegion m)) := by
  -- a delegate at work is not asked again, so that the calls it makes are no deeper than one
  have hagain : KeepsId noteAskedAgain := fun _ => rfl
  intro a
  have hcalls : ∀ (calls : List AdvisorCall) (p : Advisor × List DelegateReport),
      (Id.run (calls.foldlM (callNext hostsRegion) p)).1.bucketId = p.1.bucketId := by
    intro calls
    induction calls with
    | nil => exact fun _ => rfl
    | cons call calls ih =>
      intro p
      rw [List.foldlM_cons]
      exact (ih _).trans (hagain.performThrough call p.1)
  exact hcalls a.delegate.calls (a, [])

theorem bucketId_perform (call : AdvisorCall) (a : Advisor) :
    (Id.run (perform (fun m => pure (hostsRegion m)) call a)).2.1.bucketId = a.bucketId :=
  keepsId_askDelegate.performThrough call a

/-- A hosting member bids when the primary has gone. -/
def bidIfHosting (hostsRegion : Member → Bool) (a : Advisor) :
    Id (Advisor × List DelegateReport) := do
  if a.hosting then
    let (_, a, reports) ← volunteer (fun m => pure (hostsRegion m)) a
    return (a, reports)
  else return (a, [])

theorem bucketId_bidIfHosting (a : Advisor) :
    (Id.run (bidIfHosting hostsRegion a)).1.bucketId = a.bucketId := by
  have hvolunteer : ∀ a : Advisor,
      (Id.run (volunteer (fun m => pure (hostsRegion m)) a)).2.1.bucketId = a.bucketId :=
    keepsId_askDelegate.volunteerThrough
  unfold bidIfHosting
  split
  · exact hvolunteer a
  · rfl

theorem bucketId_memberDeparted (a : Advisor) (p : Member) :
    (Id.run (memberDeparted (fun m => pure (hostsRegion m)) a p)).1.bucketId = a.bucketId := by
  unfold memberDeparted
  split
  · rfl
  · simp only
    split
    · exact (bucketId_bidIfHosting _).trans (bucketId_settle _)
    · rfl

/-- An advisor that knows a primary does not bid. -/
theorem volunteer_of_hasPrimary {a : Advisor} (h : a.hasPrimary = true) :
    let a' := (Id.run (volunteer (fun m => pure (hostsRegion m)) a)).2.1
    a'.state = a.state ∧ a'.primary = a.primary := by
  obtain ⟨elector, hdefer⟩ := deferToElector_eq hostsRegion a
  simp only [volunteer, volunteerThrough, pure, bind, Id.run] at hdefer ⊢
  generalize deferToElector (m := Id) (fun m => hostsRegion m) a = p at hdefer ⊢
  obtain ⟨deferred, a'⟩ := p
  simp only at hdefer ⊢
  have hno : a'.mayBid = false := by
    have hknown : a'.primary.isNone = false := by
      rw [hdefer]
      exact Option.isNone_eq_false_iff.2 h
    simp only [mayBid, hknown, Bool.and_false, Bool.false_and]
  subst hdefer
  split
  · exact ⟨rfl, rfl⟩
  · rw [if_pos (by rw [hno, Bool.not_false, Bool.or_true])]
    exact ⟨rfl, rfl⟩

end Advisor

/-! ## Nothing is left -/

/-- No key has an entry, unless one that was left behind detached. -/
def RegionCopy.Vacant (c : RegionCopy) : Prop := ∀ k s, c.slot? k = some s → s.token = .detached

theorem RegionCopy.Known.vacant_clear {c : RegionCopy} (h : c.Known) :
    (c.clear c.vector).2.Vacant := fun _ _ hk => h.slot?_clear hk

namespace Bucket

/-- No key is present. -/
def Empty (b : Bucket) : Prop := b.size = 0 ∧ ∀ k, b.get? k = none

variable {b b' : Bucket} {id : Nat} {now : Int} {e e' : EntryEvent}

theorem empty_of_vacant (h : b.copy.Vacant) : b.Empty := by
  have htoken : ∀ k e, b.copy.map.entry? k = some e → e.token = .detached := fun k e he =>
    h k e.slot (slot?_eq_some_iff.2 ⟨e, he, rfl⟩)
  refine ⟨?_, fun k => ?_⟩
  · have hnone : b.copy.map.keys = [] := by
      refine List.eq_nil_iff_forall_not_mem.2 fun k hk => ?_
      rw [EntryMap.keys, OrdMap.mem_keys_iff, OrdMap.find?_filter] at hk
      obtain ⟨e, he⟩ := Option.isSome_iff_exists.1 hk
      obtain ⟨he, hlive⟩ := Option.filter_eq_some_iff.1 he
      rw [htoken k e he] at hlive
      cases hlive
    rw [Bucket.size, EntryMap.size, hnone]
    rfl
  · unfold Bucket.get? EntryMap.get?
    cases he : b.copy.map.entry? k with
    | none => rfl
    | some e =>
      rw [Option.bind_some, Entry.value?, htoken k e he]
      rfl

/-- The bucket is kept under its id, and knows all versions in it. -/
structure Aware (id : Nat) (b : Bucket) : Prop where
  bucketId : b.advisor.bucketId = id
  known : b.copy.Known

namespace Aware

theorem of_copy (h : b.Aware id) (hid : b'.advisor.bucketId = b.advisor.bucketId)
    (hcopy : b'.copy = b.copy) : b'.Aware id := ⟨hid.trans h.bucketId, by
  rw [hcopy]
  exact h.known⟩

/-- What a local event gets is the next version of its member. -/
theorem counts (b : Bucket) : b.rules.Counts := Rules.counts_nextTag rfl

/-- Whatever an event asks for, and whoever it comes from. -/
theorem applyToEntry (h : b.Aware id) (hfits : Fits e.tag) {r : Applied} {w : Task}
    (happ : b.applyToEntry now e = some (.ok (r, w))) : w.copy.Known := by
  have hfine : Task.Fine { copy := b.copy, event := e } := ⟨h.known, hfits⟩
  unfold Bucket.applyToEntry at happ
  split at happ <;> simp only [Option.some.injEq, reduceCtorEq] at happ
  · exact (hfine.put (counts b) {} {} happ).known
  · exact (hfine.put (counts b) {} {} happ).known
  · exact (hfine.invalidate (counts b) false false {} happ).known
  · exact (hfine.invalidate (counts b) false false {} happ).known
  · exact (hfine.destroy rfl (counts b) {} happ).known
  · exact (hfine.destroy rfl (counts b) .eviction happ).known

theorem clear (h : b.Aware id) : b.clear.2.Aware id := ⟨h.bucketId, h.known.clear _⟩

theorem vacant_clear (h : b.Aware id) : b.clear.2.copy.Vacant := h.known.vacant_clear

theorem apply (h : b.Aware id) (hfits : Fits e.tag) {r : Except BucketError Bool}
    (happ : b.apply now e = .ok (r, e', b')) : b'.Aware id := by
  unfold Bucket.apply at happ
  split at happ
  · cases happ
    exact h
  · split at happ
    next done hdone =>
      obtain ⟨⟨applied, w⟩, hok, happ⟩ := bind_ok happ
      cases happ
      subst hok
      exact ⟨h.bucketId, h.applyToEntry hfits hdone⟩
    next =>
      cases happ
      exact h.clear

theorem submit (h : b.Aware id) (hfits : Fits e.tag) {r : Except BucketError EntryEvent}
    (hsub : b.submit now e = .ok (r, b')) : b'.Aware id := by
  obtain ⟨⟨applied, e', b''⟩, happ, hsub⟩ := bind_ok hsub
  cases hsub
  exact h.apply hfits happ

theorem put (h : b.Aware id) {k : Key} {v : Value} {r : Except BucketError EntryEvent}
    (hput : b.put now k v = .ok (r, b')) : b'.Aware id := h.submit fits_none hput

theorem destroy (h : b.Aware id) {k : Key} {r : Except BucketError EntryEvent}
    (hdestroy : b.destroy now k = .ok (r, b')) : b'.Aware id := h.submit fits_none hdestroy

theorem expireTombstones (h : b.Aware id) (now : Int) : (b.expireTombstones now).2.Aware id :=
  ⟨h.bucketId, h.known.swept (swept_expireTombstones now b.copy)⟩

theorem gcTombstones (h : b.Aware id) (gc : VersionVector) : (b.gcTombstones gc).2.Aware id :=
  ⟨h.bucketId, h.known.swept (swept_gcTombstones gc b.copy)⟩

end Aware

theorem aware_newBucket (store : BucketStore) (id : Nat) (delegate : Delegate) :
    (store.newBucket id delegate).Aware id :=
  ⟨Advisor.bucketId_setHosting _ true,
    RegionCopy.known_new _ {} _ store.config.attributes.concurrencyChecks rfl⟩

end Bucket
end DataGrid
