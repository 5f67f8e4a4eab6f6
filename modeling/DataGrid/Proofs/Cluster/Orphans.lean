import DataGrid.Proofs.Cluster.Guarded

/-
No clear lock is left behind by a member that has left, and no gate without the
lock that it was closed for (`clear_locks_guarded`), whatever a cluster goes
through (`Happens`).

Only a departure endangers a share, between the change of the view and the moment
at which the share hears of it. Until then its lock may be held by the member that
left; then it gives the lock up and opens its gates (`guardedAt_heard`).
-/

namespace DataGrid.Cluster

open Coordinator

variable {c c' o : Cluster} {l l' : String} {s : Share} {m : Member} {there : Member → Prop}

/-! ## Hearing of departures -/

theorem yields_memberDeparted {k : Coordinator} (hs : o.share? l = some s)
    (hheld : k.lock.isHeldBy m = true) :
    Yields (memberDeparted (c.site l) m) k o () { k with lock := {}, membershipChanged := true }
      (o.modifyStore l (.mapAll Bucket.releaseForClear)) := by
  have hlocked : k.lock.isLocked = true := by
    cases hr : k.lock.requester with
    | none => simp [ClearLock.isHeldBy, Member.isNamed, hr] at hheld
    | some _ => simp [ClearLock.isLocked, hr]
  refine .bind (.note _) (.bind (.alter _) (.get_bind fun _ => .ite (fun _ => ?_) fun hno =>
    absurd hheld hno))
  exact yields_releaseLocal hs hlocked

theorem yields_memberDeparted_other {k : Coordinator} (hheld : k.lock.isHeldBy m = false) :
    Yields (memberDeparted (c.site l) m) k o () { k with membershipChanged := true } o :=
  .bind (.note _) (.bind (.alter _) (.get_bind fun _ => .ite (fun hyes =>
    (nomatch hheld.symm.trans hyes)) fun _ => .pure ()))

/-- The lock of a share that hears of a departure is not held by the member that left. -/
theorem guardedAt_shareHearsOf
    (h : c.GuardedFor (fun h => c.isCurrent h = true ∨ h.same m = true) l) :
    (shareHearsOf m c l).GuardedAt l := by
  have hbuckets : c.Spares l (c.modifyShare l (·.bucketsHearOf c.region.hasRegion m)) :=
    spares_modifyShare fun _ s _ => s.spares_bucketsHearOf m
  have hview : ∀ h, (c.modifyShare l (·.bucketsHearOf c.region.hasRegion m)).isCurrent h =
    c.isCurrent h := fun _ => rfl
  have hguarded := h.spared hbuckets
  rw [shareHearsOf]
  generalize c.modifyShare l (·.bucketsHearOf c.region.hasRegion m) = o at hguarded hview ⊢
  cases hs : o.share? l with
  | none =>
    simp only [coordinate, hs, bind, Option.bind, Option.map_none, Option.getD_none]
    exact guardedAt_of_none hs
  | some s =>
    have hback : (o.putBack l s.coordinator).GuardedFor
        (fun h => c.isCurrent h = true ∨ h.same m = true) l := by
      rw [putBack, modifyShare_self hs rfl]
      exact hguarded
    cases hheld : s.coordinator.lock.isHeldBy m with
    | true =>
      rw [coordinate_eq hs (yields_memberDeparted hs hheld)]
      exact hback.changed rfl (by rw [modifyStore, share?_modifyShare, if_pos rfl]) rfl
        fun _ _ hshare => hshare.released.spared (.of_same rfl rfl rfl)
    | false =>
      rw [coordinate_eq hs (yields_memberDeparted_other hheld)]
      refine hback.changed (f := id) rfl (by simp) rfl fun t _ hshare => ⟨fun h hh => ?_, hshare.gates⟩
      rcases hshare.holder h hh with hcurrent | hsame
      · exact (hview h).trans hcurrent
      · have hlock : s.coordinator.lock.requester = some h := hh
        simp only [ClearLock.isHeldBy, Member.isNamed, hlock, hsame] at hheld
        cases hheld

/-- A share is not concerned by what others hear. -/
theorem spares_shareHearsOf (hne : l' ≠ l) : c.Spares l (shareHearsOf m c l') := by
  have hbuckets : c.Spares l (c.modifyShare l' (·.bucketsHearOf c.region.hasRegion m)) :=
    spares_modifyShare fun he => absurd he hne
  rw [shareHearsOf]
  generalize c.modifyShare l' (·.bucketsHearOf c.region.hasRegion m) = o at hbuckets ⊢
  have hwork : Keeps (Elsewhere l) (memberDeparted (o.site l') m) := by
    have h := sparing_elsewhere l
    exact .memberDeparted h.chained (h.note _) (elsewhere_alter _) (serves_elsewhere hne).releases
  cases hrun : o.coordinate l' (memberDeparted (o.site l') m) with
  | none => exact hbuckets
  | some p => exact hbuckets.trans (spares_coordinate hne hwork hrun)

/-- Once a share has heard that a member left, it is guarded, and it stays so while others hear. -/
theorem guardedAt_heard : ∀ (labels : List String) (c : Cluster),
    c.GuardedFor (fun h => c.isCurrent h = true ∨ h.same m = true) l →
    (l ∈ labels ∨ c.GuardedAt l) → (labels.foldl (shareHearsOf m) c).GuardedAt l
  | [], c, _, hlast => hlast.resolve_left List.not_mem_nil
  | l' :: labels, c, h, hlast => by
    rw [List.foldl_cons]
    by_cases he : l' = l
    · rw [he]
      have hnow := guardedAt_shareHearsOf h
      exact guardedAt_heard labels _ (hnow.mono fun _ => .inl) (.inr hnow)
    · have hspares : c.Spares l (shareHearsOf m c l') := spares_shareHearsOf he
      refine guardedAt_heard labels _ ?_ (hlast.imp (fun hl => ?_) fun hc => hc.spared hspares)
      · refine (h.spared hspares).mono fun h' hthere => ?_
        rw [hspares.isCurrent]
        exact hthere
      · exact (List.mem_cons.1 hl).resolve_left fun h' => he h'.symm

/-! ## Members come and go -/

/-- Fewer messages are handled, and more members are there. -/
theorem GuardedFor.less (h : c.GuardedFor there l) {there' : Member → Prop}
    (hshare : c'.share? l = c.share? l)
    (hhandlers : ∀ m, c'.handlers.find? m = some l → c.handlers.find? m = some l)
    (hthere : ∀ m, there m → there' m) : c'.GuardedFor there' l := by
  refine ⟨fun s hs => (h.share s ?_).mono hthere, fun m s hm hs => h.own m s (hhandlers m hm) ?_⟩
  · rw [← hshare]
    exact hs
  · rw [← hshare]
    exact hs

theorem guardedAt_departed (h : c.GuardedAt l) (m : Member) (crashed : Bool) :
    (c.changeView (.departed m crashed)).2.GuardedAt l := by
  cases hm : c.isCurrent m with
  | false =>
    rw [changeView_absent hm]
    exact h
  | true =>
    rw [changeView_leaves hm]
    refine guardedAt_heard _ _ (GuardedFor.less h rfl (fun _ hl => hl) fun h' hcurrent => ?_) ?_
    · by_cases he : compare h' m = .eq
      · exact .inr (Member.same_iff.2 he)
      · exact .inl ((c.isCurrent_regionWithout m h').2 ⟨hcurrent, he⟩)
    · -- all shares that there are hear of it
      cases hs : c.share? l with
      | none => exact .inr (guardedAt_of_none hs)
      | some s =>
        refine .inl (OrdMap.mem_keys_iff.2 ?_)
        rw [share?] at hs
        rw [hs]
        rfl

theorem handler_unregister {m m' : Member} (hm' : (c.unregister m).handlers.find? m' = some l) :
    c.handlers.find? m' = some l := by
  unfold unregister at hm'
  by_cases he : compare m' m = .eq
  · rw [OrdMap.find?_congr _ he, OrdMap.find?_erase_self] at hm'
    cases hm'
  · rw [OrdMap.find?_erase_other _ he] at hm'
    exact hm'

theorem guardedAt_unregister (h : c.GuardedAt l) (m : Member) : (c.unregister m).GuardedAt l :=
  GuardedFor.less h rfl (fun _ => handler_unregister) fun _ hcurrent => hcurrent

theorem guardedAt_crash (h : c.GuardedAt l) (m : Member) : (c.crash m).GuardedAt l := by
  have hforgotten := guardedAt_unregister h m
  have hnodes : Cluster.GuardedAt l { c.unregister m with nodes := (c.nodes.remove m).2 } :=
    GuardedFor.less hforgotten rfl (fun _ hl => hl) fun _ hcurrent => hcurrent
  exact guardedAt_departed hnodes m true

/-- When a member joins, the others are there as before. -/
theorem changeView_join (c : Cluster) (m : Member) : ∃ region : HostedRegion,
    (c.changeView (.joined m)).2 = { c with region } ∧
      ∀ m', c.isCurrent m' = true → region.view.isCurrent m' = true := by
  cases hm : c.isCurrent m with
  | false =>
    rw [changeView_joined hm]
    refine ⟨_, rfl, fun m' hm' => ?_⟩
    rw [isCurrent, View.isCurrent] at hm'
    rw [View.isCurrent, OrdSet.contains_insert, hm', Bool.or_true]
  | true =>
    have hview : c.region.view.change? (.joined m) = none := by
      rw [isCurrent] at hm
      simp only [View.change?, hm, if_true]
    refine ⟨c.region, ?_, fun _ hm' => hm'⟩
    simp only [changeView, HostedRegion.change, hview]

theorem guardedAt_joined (h : c.GuardedAt l) (m : Member) :
    (c.changeView (.joined m)).2.GuardedAt l := by
  obtain ⟨region, hjoined, hview⟩ := changeView_join c m
  rw [hjoined]
  exact GuardedFor.less h rfl (fun _ hl => hl) hview

theorem guarded_newShare (c : Cluster) (m : Member) : (c.newShare m).Guarded there :=
  ⟨fun _ hh => (nomatch hh), fun _ _ hb => (nomatch hb)⟩

/-- A new share takes the place of the one that had its label, and handles the messages of its member
instead of whatever that one did. -/
theorem add_placed (c : Cluster) (l : String) (m : Member) : ∃ region : HostedRegion,
    (∀ l', (c.add l m).share? l' =
      if l' = l then some (newShare { c with region } m) else c.share? l') ∧
    (∀ m', (c.add l m).handlers.find? m' =
      if compare m' m = .eq then some l else (c.handlers.find? m').filter (· != l)) ∧
    ∀ m', c.isCurrent m' = true → (c.add l m).isCurrent m' = true := by
  obtain ⟨region, hjoined, hview⟩ := changeView_join c m
  refine ⟨region, fun l' => ?_, fun m' => ?_, fun m' hm' => ?_⟩
  · simp only [add, hjoined, share?, OrdMap.find?_insert, Std.compare_eq_iff_eq]
  · simp only [add, hjoined, OrdMap.find?_insert, OrdMap.find?_filter]
  · have hcurrent := hview m' hm'
    simp only [add, hjoined]
    exact hcurrent

/-- A share handles the messages of a member after another was added only if it did before. -/
theorem handler_add_other {m m' : Member} (hne : l ≠ l')
    (hm' : (c.add l' m).handlers.find? m' = some l) : c.handlers.find? m' = some l := by
  obtain ⟨-, -, hhandlers, -⟩ := c.add_placed l' m
  rw [hhandlers] at hm'
  split at hm'
  next => exact absurd (Option.some.inj hm').symm hne
  next => exact (Option.filter_eq_some_iff.1 hm').1

/-- A new share handles the messages of its own member only. -/
theorem handler_add_self {m m' : Member} (hm' : (c.add l m).handlers.find? m' = some l) :
    m'.same m = true := by
  obtain ⟨-, -, hhandlers, -⟩ := c.add_placed l m
  rw [hhandlers] at hm'
  split at hm'
  next hsame => exact Member.same_iff.2 hsame
  next => simp at hm'

theorem guardedAt_add (h : c.GuardedAt l) (l' : String) (m : Member) : (c.add l' m).GuardedAt l := by
  obtain ⟨region, hshares, -, hthere⟩ := c.add_placed l' m
  by_cases he : l = l'
  · subst he
    refine ⟨fun s hs => ?_, fun m' s hm' hs => ?_⟩ <;> rw [hshares, if_pos rfl] at hs <;> cases hs
    · exact guarded_newShare _ m
    · exact handler_add_self hm'
  · exact GuardedFor.less h (by rw [hshares, if_neg he]) (fun _ => handler_add_other he) hthere

/-! ## Whatever happens -/

/-- What may happen to a cluster. Besides its moves, members join that are there already or have been
there before, also under labels in use or without a share, and any member may cease to handle its
messages. -/
inductive Happens : Cluster → Cluster → Prop
  | move {c c' : Cluster} (h : Move c c') : Happens c c'
  | add (c : Cluster) (l : String) (m : Member) : Happens c (c.add l m)
  | join (c : Cluster) (m : Member) : Happens c (c.changeView (.joined m)).2
  | unregister (c : Cluster) (m : Member) : Happens c (c.unregister m)

theorem guardedAt_setUp (h : c.GuardedAt l) (hset : SetUp c c') : c'.GuardedAt l := by
  cases hset with
  | add hl hm => exact guardedAt_add h _ _
  | host l' id => exact h.spared (spares_modifyShare fun _ s _ => s.spares_hostBucket)
  | listen l' => exact h.spared (spares_modifyShare fun _ _ _ => .of_same rfl rfl rfl)
  | interest l' client => exact h.spared (spares_modifyShare fun _ _ _ => .of_same rfl rfl rfl)
  | guard l' writer => exact h.spared (spares_modifyShare fun _ _ _ => .of_same rfl rfl rfl)

theorem guardedAt_step (h : c.GuardedAt l) (hstep : Step c c') : c'.GuardedAt l := by
  cases hstep with
  | setUp hset => exact guardedAt_setUp h hset
  | put l' now k v hask =>
    exact h.spared (spares_askShare (fun _ _ _ => Share.spares_submit fun _ _ _ => Bucket.gate_submit) hask)
  | destroy l' now k hask =>
    exact h.spared (spares_askShare (fun _ _ _ => Share.spares_submit fun _ _ _ => Bucket.gate_submit) hask)
  | crash m => exact guardedAt_crash h m

theorem guardedAt_move (h : c.GuardedAt l) (hmove : Move c c') : c'.GuardedAt l := by
  cases hmove with
  | step hstep => exact guardedAt_step h hstep
  | advise hs hadvise => exact h.spared (spares_setShare hs (Share.spares_advise hadvise))
  | apply hb _ happ =>
    refine h.spared (spares_modifyBucket fun b' hb' => ?_)
    obtain rfl := Option.some.inj (hb.symm.trans hb')
    exact Bucket.gate_apply happ
  | sweep l' now => exact h.spared (spares_modifyShare fun _ s _ => s.spares_sweep now)
  | collect l' id gc => exact h.spared (spares_modifyBucket fun _ _ => rfl)
  | remove l' id => exact h.spared (spares_modifyShare fun _ s _ => s.spares_removeBucket)
  | leave m crashed => exact guardedAt_departed h m crashed
  | hold hlock => exact h.spared (spares_lock hlock)
  | unhold l' name => exact h.spared (spares_unlock name c)
  | shutDown => exact h.spared (.of_share rfl rfl rfl)
  | process hrun => exact guardedAt_process h hrun
  | clear hrun => exact guardedAt_clear h hrun

theorem guardedAt_happens (h : c.GuardedAt l) (hstep : Happens c c') : c'.GuardedAt l := by
  cases hstep with
  | move hmove => exact guardedAt_move h hmove
  | add l' m => exact guardedAt_add h l' m
  | join m => exact guardedAt_joined h m
  | unregister m => exact guardedAt_unregister h m

theorem guardedAt_of_history {name : String} {config : BucketConfig} {clearConfig : ClearConfig}
    (hc : Relation.ReflTransGen Happens (.new name config clearConfig) c) : c.GuardedAt l := by
  induction hc with
  | refl => exact guardedAt_of_none rfl
  | tail _ hstep ih => exact guardedAt_happens ih hstep

/-- Whatever has happened to a cluster, whoever holds the clear lock of a share is there, and the share
holds operations on a bucket back only while its clear lock is held. This does not depend on who asks
for the lock while another member holds it: a request that would have to wait for a gate never ends,
and so is nothing that happens. -/
theorem clear_locks_guarded {name : String} {config : BucketConfig} {clearConfig : ClearConfig}
    (hc : Relation.ReflTransGen Happens (.new name config clearConfig) c) (hs : c.share? l = some s) :
    (∀ h, s.coordinator.lock.requester = some h → c.isCurrent h = true) ∧
    ∀ id b, s.store.bucket? id = some b → b.isLockedForClear = true →
      s.coordinator.lock.isLocked = true := by
  have h := (guardedAt_of_history (l := l) hc).share s hs
  exact ⟨h.holder, fun id b hb => (h.gates id b hb).closed⟩

/-- A member hosts a bucket and has taken its clear lock for another. -/
def occupied : Option Cluster := do
  let c := ((Cluster.new "orders" { totalBuckets := 1 } {}).add "a" (memberAt 1)).add "b" (memberAt 2)
  let c := c.modifyShare "a" fun s => (s.hostBucket c.region.hasRegion 0).2
  let event := RegionEvent.clear ⟨0⟩ "orders" (memberAt 2) none
  let (_, c) ← c.process "a" (.about ⟨1⟩ (memberAt 2) .lock event)
  return c

theorem happens_occupied (h : occupied = some c) :
    Relation.ReflTransGen Happens (.new "orders" { totalBuckets := 1 } {}) c := by
  simp only [occupied, bind, Option.bind_eq_some_iff, pure, Option.some.injEq] at h
  obtain ⟨⟨reply, c'⟩, hrun, rfl⟩ := h
  exact .tail (.tail (.tail (.tail .refl (.add _ "a" _)) (.add _ "b" _))
    (.move (.step (.setUp (.host _ "a" 0))))) (.move (.process hrun))

theorem clear_locks_guarded_occupied : ∃ c s b, occupied = some c ∧
    Relation.ReflTransGen Happens (.new "orders" { totalBuckets := 1 } {}) c ∧
    c.share? "a" = some s ∧ s.coordinator.lock.requester = some (memberAt 2) ∧
    s.store.bucket? 0 = some b ∧ b.isLockedForClear = true ∧
    (∀ h, s.coordinator.lock.requester = some h → c.isCurrent h = true) ∧
    ∀ id b, s.store.bucket? id = some b → b.isLockedForClear = true →
      s.coordinator.lock.isLocked = true := by
  have hrun : (occupied.bind fun c => (c.share? "a").bind fun s =>
      (s.store.bucket? 0).map fun b => (s.coordinator.lock.requester, b.isLockedForClear)) =
      some (some (memberAt 2), true) := by decide +kernel
  simp only [Option.bind_eq_some_iff, Option.map_eq_some_iff, Prod.mk.injEq] at hrun
  obtain ⟨c, hc, s, hs, b, hb, hholder, hclosed⟩ := hrun
  exact ⟨c, s, b, hc, happens_occupied hc, hs, hholder, hb, hclosed,
    clear_locks_guarded (happens_occupied hc) hs⟩

end DataGrid.Cluster
