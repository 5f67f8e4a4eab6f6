import DataGrid.Proofs.Cluster.Coverage
import DataGrid.Proofs.Cluster.Reached

/-
What a clear leaves on the members that keep a bucket for another, its primary.
Only primaries clear, and the others keep the entries that they received: a
clear that succeeds leaves each bucket of a member that is there either empty,
if that member is primary, or as it was (`clear_on_primaries`).

This is shown of every cluster that may come about (`Move`), whoever is primary
for whatever reason, and whichever events were received. What they keep of it is
that all buckets know the versions in them (`Share.Aware`).
-/

namespace DataGrid

namespace Bucket

/-- The bucket goes on knowing the versions in it. -/
def Mindful (b b' : Bucket) : Prop := ∀ id, b.Aware id → b'.Aware id

theorem transit_mindful : Transit Mindful where
  refl _ _ h := h
  trans h h' id hb := h' id (h id hb)
  aware h hb := h _ hb

end Bucket

/-! ## Shares whose buckets know the versions in them -/

/-- Either the bucket was there, or it is new. -/
theorem BucketStore.of_create {store store' : BucketStore} {id : Nat} {delegate : Delegate}
    {b : Bucket} (h : store.create id delegate = .ok (b, store')) :
    store' = store ∨ store' = store.setBucket id (store.newBucket id delegate) := by
  simp only [create] at h
  split at h
  next => cases h
  next =>
    split at h
    next => cases h
    next =>
      split at h
      next =>
        cases h
        exact .inl rfl
      next =>
        cases h
        exact .inr rfl

theorem BucketStore.bucket?_remove (store : BucketStore) (id id' : Nat) :
    (store.remove id).2.bucket? id' = if id' = id then none else store.bucket? id' := by
  unfold remove
  split
  next =>
    split
    next he =>
      rw [he]
      exact OrdMap.find?_erase_self store.buckets id
    next hne => exact OrdMap.find?_erase_other store.buckets fun he => hne (Std.compare_eq_iff_eq.1 he)
  next hnone =>
    split
    next he => rw [he, hnone]
    next => rfl

theorem BucketStore.member_remove (store : BucketStore) (id : Nat) :
    (store.remove id).2.member = store.member := by
  unfold remove
  split <;> rfl

namespace Share

open Bucket (Assigned Mindful transit_assigned transit_mindful)

variable {s s' : Share} {k : Key} {v : Value} {now : Int} {answer : Except ClearError Unit}

theorem Aware.hostBucket (h : s.Aware) (hostsRegion : Member → Bool) (id : Nat) :
    (s.hostBucket hostsRegion id).2.Aware ∧ (s.hostBucket hostsRegion id).2.owners = s.owners := by
  unfold Share.hostBucket
  split
  next => exact ⟨h, rfl⟩
  next b store hcreate =>
    have hstore : ({ s with store } : Share).Aware ∧ ({ s with store } : Share).owners = s.owners := by
      rcases BucketStore.of_create hcreate with rfl | rfl
      · exact ⟨h, rfl⟩
      · refine ⟨fun id' b' hb' => ?_, rfl⟩
        rw [BucketStore.bucket?_setBucket] at hb'
        split at hb'
        next he =>
          cases hb'
          rw [he]
          exact Bucket.aware_newBucket s.store id .immediate
        next => exact h id' b' hb'
    have hturns : Turns Assigned { s with store } (volunteer hostsRegion id { s with store }) :=
      turns_volunteer { s with store }
    exact ⟨hturns.aware transit_assigned hstore.1, hturns.owners.trans hstore.2⟩

theorem Aware.removeBucket (h : s.Aware) (id : Nat) : (s.removeBucket id).2.Aware := by
  intro id' b hb
  have hb' : (s.store.remove id).2.bucket? id' = some b := hb
  rw [BucketStore.bucket?_remove] at hb'
  split at hb'
  next => cases hb'
  next => exact h id' b hb'

theorem owners_removeBucket (s : Share) (id : Nat) : (s.removeBucket id).2.owners = s.owners :=
  congrArg (·, s.coordinator.member) (s.store.member_remove id)

/-- Entries are written and destroyed. -/
theorem turns_submit {f : Bucket → Checked (Except BucketError EntryEvent × Bucket)}
    (hf : ∀ b r b', f b = .ok (r, b') → b.Mindful b') (h : s.submit k f = .ok (answer, s')) :
    s.Turns Mindful s' := by
  simp only [submit] at h
  split at h
  next =>
    cases h
    exact .refl transit_mindful s
  next b hb =>
    obtain ⟨⟨r, b'⟩, hfb, h⟩ := bind_ok h
    cases h
    exact (Turns.refl transit_mindful s).setBucket hb (hf b r b' hfb)

theorem turns_put (h : s.put now k v = .ok (answer, s')) : s.Turns Mindful s' :=
  turns_submit (fun _ _ _ hput _ hb => hb.put hput) h

theorem turns_destroy (h : s.destroy now k = .ok (answer, s')) : s.Turns Mindful s' :=
  turns_submit (fun _ _ _ hdestroy _ hb => hb.destroy hdestroy) h

theorem turns_sweep (now : Int) (s : Share) : s.Turns Mindful (s.sweep now).2 := by
  refine ⟨rfl, fun id => ?_⟩
  simp only [sweep, BucketStore.expireTombstones, BucketStore.mapBuckets, BucketStore.bucket?,
    OrdMap.find?_mapValues]
  cases s.store.buckets.find? id with
  | none => exact .none
  | some b => exact .some fun _ hb => hb.expireTombstones now

end Share

namespace Cluster

open Bucket (Transit Still Advised Assigned Cleansed Mindful transit_still transit_advised
  transit_assigned transit_cleansed transit_mindful)
open RegionCopy (Fits)

variable {c c' : Cluster} {l : String} {s s' : Share}

/-! ## What a cluster goes through -/

/-- A share changes, and stays with its owners. -/
theorem Staffed.altered (h : c.Staffed Share.Aware) {f : Share → Share}
    (hf : ∀ s, s.Aware → (f s).Aware ∧ (f s).owners = s.owners) :
    (c.modifyShare l f).Staffed Share.Aware :=
  h.modifyShare fun s _ hs => ⟨(hf s hs).1, Prod.mk.inj (hf s hs).2⟩

theorem Staffed.turned {touch : Bucket → Bucket → Prop} (ht : Transit touch)
    (h : c.Staffed Share.Aware) (hs : c.share? l = some s) (hturns : s.Turns touch s') :
    (c.setShare l s').Staffed Share.Aware := by
  obtain ⟨hmember, hcoordinator⟩ := Prod.mk.inj hturns.owners
  refine h.setShare hs (hturns.aware ht (h.share l s hs)) hmember ?_
  rw [hcoordinator, hmember, h.owned l s hs]

theorem Staffed.asked {α : Type} (h : c.Staffed Share.Aware) {f : Share → Checked (α × Share)}
    {r : Option α} (hf : ∀ s a s', f s = .ok (a, s') → s.Turns Mindful s')
    (hask : c.askShare? l f = .ok (r, c')) : c'.Staffed Share.Aware := by
  unfold askShare? at hask
  split at hask
  next =>
    cases hask
    exact h
  next s hs =>
    obtain ⟨⟨a, s'⟩, hfs, hask⟩ := bind_ok hask
    cases hask
    exact h.turned transit_mindful hs (hf s a s' hfs)

theorem steady_memberDeparted (m : Member) :
    Keeps (Steady Still) (Coordinator.memberDeparted (c.site l) m) := by
  refine .memberDeparted (chained_steady transit_still) (fun s => (Ensures.note _).mono ?_)
    (steady_alter transit_still fun _ => rfl) steady_releaseLocal
  rintro - _ _ ⟨-, rfl⟩ -
  exact ⟨rfl, .refl transit_still s.outside⟩

/-- A share hears that a member left: the advisors of its buckets do, and its coordinator, which may
open the gates. -/
theorem turns_shareHearsOf (hc : c.Staffed Share.Aware) (m : Member) (l : String) :
    c.Turns Advised (shareHearsOf m c l) := by
  have hbuckets : c.Turns Advised (c.modifyShare l (·.bucketsHearOf c.region.hasRegion m)) :=
    turns_modifyShare transit_advised fun s hs => Share.turns_bucketsHearOf (hc.share l s hs) m
  rw [shareHearsOf]
  generalize c.modifyShare l (·.bucketsHearOf c.region.hasRegion m) = o at hbuckets ⊢
  cases hrun : o.coordinate l (Coordinator.memberDeparted (o.site l) m) with
  | none =>
    -- there is no such share, or its work would not end
    exact hbuckets
  | some p =>
    obtain ⟨s, hs⟩ := share?_of_coordinate hrun
    obtain ⟨es, s', hsteady, hleft⟩ := coordinate_ensures hs (steady_memberDeparted m _) hrun
    obtain ⟨hmember, hturns⟩ := hsteady (hbuckets.staffed transit_advised hc)
    have hlast := hleft hmember (hturns.owners l)
    exact hbuckets.trans transit_advised ((hturns.trans transit_still hlast).mono Bucket.Still.advised)

theorem Staffed.heard (h : c.Staffed Share.Aware) (m : Member) (labels : List String) :
    (labels.foldl (shareHearsOf m) c).Staffed Share.Aware :=
  List.foldlRecOn labels _ h fun _ h' l _ => (turns_shareHearsOf h' m l).staffed transit_advised h'

/-- What a cluster may go through. Besides its steps, any call is made on the advisor of a bucket, and
any event is applied to a bucket, be it the member's own or received; members collect tombstones,
give up buckets, and leave the view; locks are taken and given back; all sending ends; messages are
processed; and clears end, with whatever outcome. -/
inductive Move : Cluster → Cluster → Prop
  | step {c c' : Cluster} (h : Step c c') : Move c c'
  | advise {c : Cluster} {l : String} {s s' : Share} {call : AdvisorCall} {id : Nat}
      {answer : AdvisorAnswer} (hs : c.share? l = some s)
      (h : s.advise? c.region.hasRegion call id = some (answer, s')) : Move c (c.setShare l s')
  | apply {c : Cluster} {l : String} {id : Nat} {b b' : Bucket} {now : Int} {e e' : EntryEvent}
      {r : Except BucketError Bool} (hb : c.bucket? l id = some b) (hfits : Fits e.tag)
      (h : b.apply now e = .ok (r, e', b')) : Move c (c.modifyBucket l id fun _ => b')
  | sweep (c : Cluster) (l : String) (now : Int) : Move c (c.modifyShare l fun s => (s.sweep now).2)
  | collect (c : Cluster) (l : String) (id : Nat) (gc : VersionVector) :
      Move c (c.modifyBucket l id fun b => (b.gcTombstones gc).2)
  | remove (c : Cluster) (l : String) (id : Nat) :
      Move c (c.modifyShare l fun s => (s.removeBucket id).2)
  | leave (c : Cluster) (m : Member) (crashed : Bool) : Move c (c.changeView (.departed m crashed)).2
  | hold {c c' : Cluster} {l name : String} {wait lease : Option Nat} {answer : Except LockError Unit}
      (h : c.lock l name wait lease = some (answer, c')) : Move c c'
  | unhold (c : Cluster) (l name : String) : Move c (c.unlock l name).2
  | shutDown (c : Cluster) : Move c { c with isShutDown := true }
  | process {c c' : Cluster} {l : String} {message : ClearMessage} {reply : ClearReply}
      (h : c.process l message = some (reply, c')) : Move c c'
  | clear {c c' : Cluster} {l : String} {argument : Option String} {cacheWrite : Bool}
      {r : Except ClearError (List Nat)} (h : c.clearWith l argument cacheWrite = some (r, c')) :
      Move c c'

theorem aware_newShare (c : Cluster) (m : Member) : (c.newShare m).Aware :=
  fun _ _ hb => nomatch hb

theorem Staffed.setUp (h : c.Staffed Share.Aware) (hset : SetUp c c') : c'.Staffed Share.Aware := by
  cases hset with
  | add hl hm => exact h.add hl hm (aware_newShare c _)
  | host l id => exact h.altered fun s hs => hs.hostBucket c.region.hasRegion id
  | listen l => exact h.altered fun _ hs => ⟨hs, rfl⟩
  | interest l client => exact h.altered fun _ hs => ⟨hs, rfl⟩
  | guard l writer => exact h.altered fun _ hs => ⟨hs, rfl⟩

theorem Staffed.step (h : c.Staffed Share.Aware) (hstep : Step c c') : c'.Staffed Share.Aware := by
  cases hstep with
  | setUp hset => exact h.setUp hset
  | put l now k v hask => exact h.asked (fun _ _ _ hput => Share.turns_put hput) hask
  | destroy l now k hask => exact h.asked (fun _ _ _ hdestroy => Share.turns_destroy hdestroy) hask
  | crash m =>
    obtain ⟨labels, region, grantor, hcrash, hview, -⟩ := crash_eq c m
    rw [hcrash]
    exact (h.without m grantor hview).heard m labels

theorem Staffed.move (h : c.Staffed Share.Aware) (hmove : Move c c') : c'.Staffed Share.Aware := by
  cases hmove with
  | step hstep => exact h.step hstep
  | advise hs hadvise => exact h.turned transit_advised hs (Share.turns_advise hadvise)
  | apply hb hfits happ =>
    refine (turns_modifyBucket transit_mindful fun b' hb' => ?_).staffed transit_mindful h
    obtain rfl := Option.some.inj (hb.symm.trans hb')
    exact fun _ haware => haware.apply hfits happ
  | sweep l now =>
    exact (turns_modifyShare transit_mindful fun s _ => s.turns_sweep now).staffed transit_mindful h
  | collect l id gc =>
    exact (turns_modifyBucket transit_mindful fun _ _ _ haware =>
      haware.gcTombstones gc).staffed transit_mindful h
  | remove l id => exact h.altered fun s hs => ⟨hs.removeBucket id, s.owners_removeBucket id⟩
  | leave m crashed =>
    obtain ⟨labels, region, grantor, hleave, hview, -⟩ := changeView_departed c m crashed
    rw [hleave]
    exact (h.fewer grantor fun m' hm' => (hview m' hm').1).heard m labels
  | hold hlock => exact (turns_lock hlock).staffed transit_still h
  | unhold l name => exact (turns_unlock name c).staffed transit_still h
  | shutDown =>
    exact h.of_same rfl rfl rfl (fun _ => rfl) fun l s hs => ⟨h.share l s hs, h.owned l s hs⟩
  | process hrun =>
    obtain ⟨s, hs⟩ := share?_of_coordinate hrun
    exact (process_turns h hs hrun).1.staffed (ClearOperation.transit_touch _) h
  | clear hrun =>
    obtain ⟨-, o, -, hassigned, hcleansed, -⟩ := clear_works h hrun
    exact hcleansed.staffed transit_cleansed (hassigned.staffed transit_assigned h)

/-- What the member at port 1 tells the others of its first write. -/
def forwarded : EntryEvent where
  key := "k"
  operation := .create
  newValue := some "v"
  tag := some ⟨memberAt 1, 1, 1, 0, none⟩
  remote := true

/-- Two members host a bucket. The second is told that the first is primary, and receives what that
has written. -/
def mirrored : Option Cluster := do
  let c := Cluster.new "orders" { totalBuckets := 1 } {}
  let c := (c.add "a" (memberAt 1)).add "b" (memberAt 2)
  let c := c.modifyShare "a" fun s => (s.hostBucket c.region.hasRegion 0).2
  let c := c.modifyShare "b" fun s => (s.hostBucket c.region.hasRegion 0).2
  let s ← c.share? "b"
  let (_, s) ← s.advise? c.region.hasRegion (.setPrimary (some (memberAt 1))) 0
  let c := c.setShare "b" s
  let (_, c) ← (c.askShare? "a" (·.put 0 "k" "v")).toOption
  let b ← c.bucket? "b" 0
  let (_, _, b) ← (b.apply 0 forwarded).toOption
  return c.modifyBucket "b" 0 fun _ => b

end Cluster
end DataGrid
