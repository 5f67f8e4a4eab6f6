import DataGrid.Cluster.Weather
import DataGrid.Proofs.Clear.Announced
import DataGrid.Proofs.Cluster.Orphans
import DataGrid.Proofs.Cluster.Told

/-
How often listeners and clients are told of one clear, in a cluster in which members
come and go and others work meanwhile.

What a coordinator does is counted twice: what it does to one share (`Keeping`), and
how much of it there is (`Announces`). A message is handled in the same way by the
coordinator of the member it is for, so one message reaches a share once at most
(`tells_send`). Where the broadcast is repeated, it reaches those again that have
replied already.
-/

namespace DataGrid

open Coordinator

/-- Whatever goes on, nobody tells of an event, and the cluster stays arranged. -/
structure Weather.Silent (w : Weather) (id : Ulid) : Prop where
  during : ∀ l' l (c : Cluster), c.Arranged → c.Tells id l 0 0 (w.during l' c).2
  underway : ∀ m l (c : Cluster), c.Arranged → c.Tells id l 0 0 (w.underway m c)

namespace Cluster

variable {w : Weather} {c c' o : Cluster} {l l' : String} {id : Ulid}

/-! ## Coordinators at work -/

/-- The coordinator at work has its place in a share. -/
def Seated (l' : String) (s : Scene Cluster) : Prop :=
  ∃ t, s.outside.share? l' = some t ∧ t.coordinator.member = s.coordinator.member

/-- How often a share is told in what a coordinator did: it tells its own listeners or clients, and
asks the others to tell theirs. -/
def tellings (l l' : String) (own : Effect → Bool) (es : List Effect) : Nat :=
  es.countP (if l' = l then own else Effect.isClearSent)

theorem tellings_le {own : Effect → Bool} {es : List Effect} {x n : Nat} (hown : es.countP own ≤ x)
    (hsent : es.countP Effect.isClearSent ≤ n) :
    tellings l l' own es ≤ if l' = l then x else n := by
  unfold tellings
  split
  · exact hown
  · exact hsent

/-- In what the coordinator of `l'` does the listeners and clients at `l` are told of an event no more
often than it tells its own, or than it asks others to clear. -/
def Keeping (id : Ulid) (l l' : String) (s : Scene Cluster) (es : List Effect)
    (s' : Scene Cluster) : Prop :=
  s.outside.Arranged → Seated l' s →
    s'.coordinator.member = s.coordinator.member ∧ s.outside.Tells id l
      (tellings l l' Effect.isListenersTold es) (tellings l l' Effect.isClientsTold es) s'.outside

theorem Tells.seated {h q : Nat} {s s' : Scene Cluster} (ht : s.outside.Tells id l h q s'.outside)
    (hmember : s'.coordinator.member = s.coordinator.member) (hs : Seated l' s) : Seated l' s' := by
  obtain ⟨t, hfound, hsame⟩ := hs
  obtain ⟨t', hfound', hsame'⟩ := ht.members l' t hfound
  exact ⟨t', hfound', hsame'.trans (hsame.trans hmember.symm)⟩

theorem chained_keeping (id : Ulid) (l l' : String) :
    Chained (Keeping id l l') where
  refl s hc _ := ⟨rfl, Tells.refl hc⟩
  trans h h' hc hs := by
    obtain ⟨hmember, ht⟩ := h hc hs
    obtain ⟨hmember', ht'⟩ := h' ht.arranged (ht.seated hmember hs)
    refine ⟨hmember'.trans hmember, ?_⟩
    simp only [tellings, List.countP_append]
    exact ht.trans ht'

theorem Keeping.of_silent {s s' : Scene Cluster} {es : List Effect}
    (hmember : s'.coordinator.member = s.coordinator.member)
    (ht : s.outside.Arranged → s.outside.Tells id l 0 0 s'.outside) : Keeping id l l' s es s' :=
  fun hc _ => ⟨hmember, (ht hc).mono (Nat.zero_le _) (Nat.zero_le _)⟩

theorem Keeping.of_untold {s s' : Scene Cluster} {es : List Effect}
    (hmember : s'.coordinator.member = s.coordinator.member) (hu : s.outside.Untold s'.outside) :
    Keeping id l l' s es s' := .of_silent hmember hu.tells

/-! ### Calls -/

theorem keeping_note (e : Effect) : Keeps (Keeping id l l') (note e : Act Cluster Unit) := fun s => by
  refine (Ensures.note e).mono ?_
  rintro - _ _ ⟨-, rfl⟩
  exact .of_untold rfl (.refl _)

theorem keeping_alter {f : Coordinator → Coordinator} (hf : ∀ k, (f k).member = k.member) :
    Keeps (Keeping id l l') (alter f : Act Cluster Unit) := fun s => by
  refine (Ensures.alter f).mono ?_
  rintro - _ _ ⟨-, rfl⟩
  exact .of_untold (hf _) (.refl _)

theorem keeping_advance (next : ClearPhase) :
    Keeps (Keeping id l l') (advance next : Act Cluster Unit) :=
  .get_bind fun _ => .bind (chained_keeping id l l') (keeping_note _) fun _ =>
    keeping_alter fun _ => rfl

/-- A call counts what it is itself. -/
theorem keeping_call {α : Type} {e : Effect} {f : Cluster → Option (α × Cluster)}
    (hf : ∀ o a o', f o = some (a, o') → o.Arranged → o.Tells id l
      (tellings l l' Effect.isListenersTold [e]) (tellings l l' Effect.isClientsTold [e]) o') :
    Keeps (Keeping id l l') (Coordinator.call e f) := fun s => by
  refine (Ensures.call e f).mono ?_
  rintro a _ s' ⟨rfl, hans, hk⟩ hc -
  exact ⟨by rw [hk], hf _ a _ hans hc⟩

theorem keeping_quietCall {α : Type} {e : Effect} {f : Cluster → Option (α × Cluster)}
    (hf : ∀ o a o', f o = some (a, o') → o.Untold o') :
    Keeps (Keeping id l l') (Coordinator.call e f) :=
  keeping_call fun o a o' hans hc => (hf o a o' hans).tells hc

theorem keeping_obtainLocal (m : Member) :
    Keeps (Keeping id l l') (obtainLocal (w.site c l') m) :=
  .obtainLocal (chained_keeping id l l') (keeping_alter fun _ => rfl) fun _ =>
    keeping_quietCall fun _ _ _ hans => untold_lockBucket (c := c) (some_of_map_unit hans)

theorem keeping_releaseLocal : Keeps (Keeping id l l') (releaseLocal (w.site c l')) := by
  refine .releaseLocal (chained_keeping id l l') (keeping_alter fun _ => rfl) fun _ =>
    keeping_quietCall fun _ _ _ hans => by
      cases hans
      exact untold_modifyBucket

theorem keeping_memberDeparted (m : Member) :
    Keeps (Keeping id l l') (memberDeparted (w.site c l') m) :=
  .memberDeparted (chained_keeping id l l') (keeping_note _) (keeping_alter fun _ => rfl)
    keeping_releaseLocal

section

variable (hw : w.Silent id)

include hw

theorem keeping_hearDepartures : Keeps (Keeping id l l') (hearDepartures (w.site c l')) := fun s => by
  have hR := chained_keeping id l l'
  refine .get_bind (.bind ((Ensures.outside _).mono ?_))
  rintro - _ _ ⟨rfl, rfl⟩
  have hsilent : Keeping id l l' s [] { s with outside := (w.during l' s.outside).2 } :=
    .of_silent rfl (hw.during l' l s.outside)
  have hall : Keeps (Keeping id l l')
      ((w.during l' s.outside).1.forM (memberDeparted (w.site c l'))) :=
    .forM hR _ fun m _ => keeping_memberDeparted m
  exact .chain hR hsilent (hall _)

theorem keeping_consult {α : Type} {e : Effect} {f : Cluster → Option (α × Cluster)}
    (hf : ∀ o a o', f o = some (a, o') → o.Arranged → o.Tells id l
      (tellings l l' Effect.isListenersTold [e]) (tellings l l' Effect.isClientsTold [e]) o') :
    Keeps (Keeping id l l') (consult (w.site c l') e f) :=
  .bind (chained_keeping id l l') (keeping_call hf) fun _ =>
    .bind (chained_keeping id l l') (keeping_hearDepartures hw) fun _ =>
      .pure (chained_keeping id l l') _

theorem keeping_quietConsult {α : Type} {e : Effect} {f : Cluster → Option (α × Cluster)}
    (hf : ∀ o a o', f o = some (a, o') → o.Untold o') :
    Keeps (Keeping id l l') (consult (w.site c l') e f) :=
  keeping_consult hw fun o a o' hans hc => (hf o a o' hans).tells hc

/-- A call that gives no answer. -/
theorem keeping_unitConsult {e : Effect} {f : Cluster → Cluster} (hf : ∀ o : Cluster, o.Untold (f o)) :
    Keeps (Keeping id l l') (consult (w.site c l') e fun o => some ((), f o)) :=
  keeping_quietConsult hw fun o _ _ hans => by
    cases hans
    exact hf o

theorem keeping_tryTo {α : Type} {e : Effect} {f : Cluster → Except ClearError α × Cluster}
    (hf : ∀ o : Cluster, o.Untold (f o).2) : Keeps (Keeping id l l') (tryTo (w.site c l') e f).run :=
  keeping_quietConsult hw fun o _ o' hans => by
    have ho' : (f o).2 = o' := congrArg Prod.snd (Option.some.inj hans)
    rw [← ho']
    exact hf o

theorem keeping_serves (c : Cluster) (l l' : String) : (w.site c l').Serves (Keeping id l l') where
  chained := chained_keeping id l l'
  polls bucket := keeping_quietConsult hw fun o _ _ hans => by
    cases hans
    exact .refl o
  clears := by
    have hR := chained_keeping id l l'
    refine .get_attempt fun s => ?_
    cases (w.site c l').buckets s.outside with
    | none => exact .done hR []
    | some buckets =>
      exact .mapM hR _ fun bucket _ => .attempt hR (.sure
        (keeping_unitConsult hw fun _ => untold_modifyBucket)) fun _ => .done hR _
  looksAway := keeping_alter fun _ => rfl
  tellsClients e := keeping_consult hw fun o _ _ hans hc => by
    cases hans
    refine (tells_tellClients hc e).mono (Nat.zero_le _) ?_
    by_cases he : l' = l <;> simp [tellings, he, Effect.isClientsTold]
  tellsListeners e := keeping_consult hw fun o _ _ hans hc => by
    cases hans
    refine (tells_tellListeners hc e).mono ?_ (Nat.zero_le _)
    by_cases he : l' = l <;> simp [tellings, he, Effect.isListenersTold]
  obtains := keeping_obtainLocal
  releases := keeping_releaseLocal
  locksCreation := keeping_quietConsult hw fun _ _ _ hans =>
    untold_lockCreation (c := c) (some_of_map_unit hans)
  unlocksCreation := keeping_unitConsult hw fun _ => untold_modifyStore

end

/-- The share gets its coordinator back. -/
theorem untold_putBack {s : Scene Cluster} (hs : Seated l' s) :
    s.outside.Untold (s.outside.putBack l' s.coordinator) := by
  obtain ⟨t, hfound, hmember⟩ := hs
  refine untold_modifyShare fun t' hfound' => ?_
  obtain rfl : t = t' := Option.some.inj (hfound.symm.trans hfound')
  exact ⟨hmember.symm, rfl, rfl⟩

/-- What was told is what the coordinator of a share did. -/
theorem Keeping.putBack {k : Coordinator} {s : Share} {es : List Effect} {scene : Scene Cluster}
    (h : Keeping id l l' ⟨k, c, []⟩ es scene) (hc : c.Arranged) (hs : c.share? l' = some s)
    (hk : s.coordinator = k) :
    c.Tells id l (tellings l l' Effect.isListenersTold es) (tellings l l' Effect.isClientsTold es)
      (scene.outside.putBack l' scene.coordinator) := by
  have hseated : Seated l' ⟨k, c, []⟩ := ⟨s, hs, by rw [hk]⟩
  obtain ⟨hmember, ht⟩ := h hc hseated
  have hback : scene.outside.Tells id l 0 0 (scene.outside.putBack l' scene.coordinator) :=
    (untold_putBack (ht.seated hmember hseated)).tells ht.arranged
  exact ht.trans hback

/-- So often is a share told by work that announces no more. -/
theorem tells_coordinate {α : Type} {work : Act Cluster α} {a : α} {x y n : Nat} (hc : c.Arranged)
    (hwork : Keeps (Keeping id l l') work) (hannounces : ∀ config, Announces config x y n work)
    (hrun : c.coordinate l' work = some (a, c')) :
    c.Tells id l (if l' = l then x else n) (if l' = l then y else n) c' := by
  obtain ⟨s, scene, hs, hdone, -, rfl⟩ := putBack_of_coordinate hrun
  obtain ⟨es, -, hkeeping, htally, -⟩ := (hwork _).and (hannounces _ _ rfl) _ _ hdone
  exact (hkeeping.putBack hc hs rfl).mono (tellings_le htally.listeners htally.sent)
    (tellings_le htally.clients htally.sent)

/-! ## What goes on besides -/

/-- What others may do: members leave, crash, join and cease to handle messages, new ones get shares
under new labels, and anything is done to the buckets of a share. -/
inductive Aside : Cluster → Cluster → Prop
  | leave (c : Cluster) (m : Member) (crashed : Bool) : Aside c (c.changeView (.departed m crashed)).2
  | crash (c : Cluster) (m : Member) : Aside c (c.crash m)
  | join (c : Cluster) (m : Member) : Aside c (c.changeView (.joined m)).2
  | unregister (c : Cluster) (m : Member) : Aside c (c.unregister m)
  | add {c : Cluster} {l : String} (hl : c.share? l = none) (m : Member) : Aside c (c.add l m)
  | work (c : Cluster) (l : String) (f : BucketStore → BucketStore) : Aside c (c.modifyStore l f)

theorem tells_shareHearsOf (hc : c.Arranged) (m : Member) (l' : String) :
    c.Tells id l 0 0 (shareHearsOf m c l') := by
  have hbuckets : c.Tells id l 0 0 (c.modifyShare l' (·.bucketsHearOf c.region.hasRegion m)) :=
    (untold_modifyShare fun s _ => s.untold_bucketsHearOf).tells hc
  rw [shareHearsOf]
  generalize c.modifyShare l' (·.bucketsHearOf c.region.hasRegion m) = o at hbuckets ⊢
  cases hrun : o.coordinate l' (memberDeparted (o.site l') m) with
  | none => exact hbuckets
  | some p =>
    have hquiet (config : ClearConfig) : Announces config 0 0 0 (memberDeparted (o.site l') m) :=
      .of_quiet ((Within.memberDeparted (fun _ => Effect.isQuiet_of_reaction) m).mono .of_within)
    have hheard : o.Tells id l (if l' = l then 0 else 0) (if l' = l then 0 else 0) p.2 :=
      tells_coordinate hbuckets.arranged (keeping_memberDeparted (w := .calm) m) hquiet hrun
    rw [ite_self] at hheard
    exact hbuckets.trans hheard

theorem tells_heard (hc : c.Arranged) (m : Member) (labels : List String) :
    c.Tells id l 0 0 (labels.foldl (shareHearsOf m) c) :=
  List.foldlRecOn labels (shareHearsOf m) (.refl hc) fun _ ht l' _ =>
    ht.trans (tells_shareHearsOf ht.arranged m l')

/-- A new share has not been told anything. -/
theorem tells_add (hc : c.Arranged) (hl : c.share? l' = none) (m : Member) :
    c.Tells id l 0 0 (c.add l' m) := by
  obtain ⟨region, hshares, -, -⟩ := c.add_placed l' m
  refine ⟨fun m' l₁ s hm' hs => ?_, fun l₁ s hs => ⟨s, ?_, rfl⟩, fun listener => ?_, fun client => ?_⟩
  · rw [hshares] at hs
    split at hs
    next he =>
      cases hs
      subst he
      exact handler_add_self hm'
    next hne => exact hc m' l₁ s (handler_add_other hne hm') hs
  · rw [hshares, if_neg fun he => ?_]
    · exact hs
    · rw [he, hl] at hs
      cases hs
  · rw [heardAt, heardAt, hshares]
    split
    · exact Nat.zero_le _
    · exact Nat.le_add_right _ _
  · rw [queuedAt, queuedAt, hshares]
    split
    · exact Nat.zero_le _
    · exact Nat.le_add_right _ _

theorem Aside.tells (ha : Aside c c') (hc : c.Arranged) : c.Tells id l 0 0 c' := by
  cases ha with
  | leave m crashed =>
    obtain ⟨labels, region, grantor, hleave, -, -⟩ := c.changeView_departed m crashed
    have hlocks : c.Untold { c with region, grantor } := .of_shares rfl rfl
    have hview : c.Tells id l 0 0 { c with region, grantor } := hlocks.tells hc
    rw [hleave]
    exact hview.trans (tells_heard hview.arranged m labels)
  | crash m =>
    obtain ⟨labels, region, grantor, hcrash, -, -⟩ := crash_eq c m
    have hforgotten : c.Untold { c.unregister m with nodes := (c.nodes.remove m).2, region, grantor } :=
      ⟨fun _ _ => handler_unregister, fun _ => rel_refl Share.Untold.refl _⟩
    have hview : c.Tells id l 0 0
        { c.unregister m with nodes := (c.nodes.remove m).2, region, grantor } := hforgotten.tells hc
    rw [hcrash]
    exact hview.trans (tells_heard hview.arranged m labels)
  | join m =>
    obtain ⟨region, hjoined, -⟩ := changeView_join c m
    have hview : c.Untold { c with region } := .of_shares rfl rfl
    rw [hjoined]
    exact hview.tells hc
  | unregister m =>
    have hfewer : c.Untold (c.unregister m) :=
      ⟨fun _ _ => handler_unregister, fun _ => rel_refl Share.Untold.refl _⟩
    exact hfewer.tells hc
  | add hl m => exact tells_add hc hl m
  | work l' f => exact untold_modifyStore.tells hc

theorem tells_asides (ha : Relation.ReflTransGen Aside c c') (hc : c.Arranged) :
    c.Tells id l 0 0 c' := by
  induction ha with
  | refl => exact .refl hc
  | tail _ hstep ih => exact ih.trans (hstep.tells ih.arranged)

/-- Where others do nothing else, nobody else tells of an event. -/
theorem silent_of_asides (hduring : ∀ l c, Relation.ReflTransGen Aside c (w.during l c).2)
    (hunderway : ∀ m c, Relation.ReflTransGen Aside c (w.underway m c)) : w.Silent id :=
  ⟨fun l' _ c => tells_asides (hduring l' c), fun m _ c => tells_asides (hunderway m c)⟩

/-! ## Messages -/

/-- How often a message has a member tell its listeners and clients. -/
def dueOf (message : ClearMessage) : Nat := if message.operation = .clear then 1 else 0

section

variable {message : ClearMessage} {reply : ClearReply} (hw : w.Silent id)

include hw

theorem tells_process (hc : c.Arranged) (hrun : w.process c l' message = some (reply, c')) :
    c.Tells id l (if l' = l then dueOf message else 0) (if l' = l then dueOf message else 0) c' :=
  tells_coordinate hc ((keeping_serves hw c l l').process rounds message)
    (fun _ => announces_process rounds message) hrun

/-- Either a message leaves a share alone, or it is for the member whose share it is. -/
theorem tells_deliver (hc : c.Arranged) (l : String) (collector : Collector) (m : Member) :
    c.Tells id l 0 0 (w.deliver message (collector, c) m).2 ∨
      c.Tells id l (dueOf message) (dueOf message) (w.deliver message (collector, c) m).2 ∧
        ∃ s, (w.deliver message (collector, c) m).2.share? l = some s ∧
          m.same s.coordinator.member = true := by
  have hway := hw.underway m l c hc
  simp only [Weather.deliver]
  generalize w.underway m c = o at hway ⊢
  split
  next => exact .inl hway
  next l' hl' =>
    split
    next => exact .inl hway
    next =>
      split
      next reply c' hrun =>
        have ht := hway.trans (tells_process (l := l) hw hway.arranged hrun)
        simp only [Nat.zero_add] at ht
        by_cases he : l' = l
        · subst he
          obtain ⟨s, hs⟩ := share?_of_coordinate hrun
          obtain ⟨s', hs', hmember⟩ := (tells_process (l := l') hw hway.arranged hrun).members l' s hs
          rw [if_pos rfl] at ht
          refine .inr ⟨ht, s', hs', ?_⟩
          rw [hmember]
          exact hway.arranged m l' s hl' hs
        · rw [if_neg he] at ht
          exact .inl ht
      next => exact .inl hway

/-- A share whose member is not among the recipients is left alone. -/
theorem tells_sendOthers {s : Share} : ∀ (members : List Member) (acc : Collector × Cluster),
    acc.2.Arranged → acc.2.share? l = some s →
    (∀ m ∈ members, m.same s.coordinator.member = false) →
    acc.2.Tells id l 0 0 (members.foldl (w.deliver message) acc).2
  | [], _, hc, _, _ => .refl hc
  | m :: members, (collector, c), hc, hs, hothers => by
    have hsilent : c.Tells id l 0 0 (w.deliver message (collector, c) m).2 := by
      refine (tells_deliver hw hc l collector m).resolve_right fun h => ?_
      obtain ⟨ht, s', hs', hsame⟩ := h
      obtain ⟨s'', hs'', hmember⟩ := ht.members l s hs
      obtain rfl : s' = s'' := Option.some.inj (hs'.symm.trans hs'')
      rw [hmember, hothers m List.mem_cons_self] at hsame
      cases hsame
    obtain ⟨s', hs', hmember⟩ := hsilent.members l s hs
    exact hsilent.trans (tells_sendOthers members _ hsilent.arranged hs' fun m' hm' => by
      rw [hmember]
      exact hothers m' (List.mem_cons_of_mem _ hm'))

/-- A message that is sent to members that differ reaches a share once at most. -/
theorem tells_send : ∀ (members : List Member) (acc : Collector × Cluster), acc.2.Arranged →
    members.Pairwise (fun a b => compare a b ≠ .eq) →
    acc.2.Tells id l (dueOf message) (dueOf message) (members.foldl (w.deliver message) acc).2
  | [], _, hc, _ => (Tells.refl hc).mono (Nat.zero_le _) (Nat.zero_le _)
  | m :: members, (collector, c), hc, hdistinct => by
    obtain ⟨hne, hdistinct⟩ := List.pairwise_cons.1 hdistinct
    rcases tells_deliver hw hc l collector m with ht | ⟨ht, s, hs, hsame⟩
    · have hrest := ht.trans (tells_send members _ ht.arranged hdistinct)
      rw [Nat.zero_add] at hrest
      exact hrest
    · refine ht.trans (tells_sendOthers hw members _ ht.arranged hs fun m' hm' => ?_)
      refine Bool.eq_false_iff.2 fun hsame' => hne m' hm' (Member.same_iff.1 ?_)
      exact Member.same_trans hsame (Member.same_symm hsame')

/-! ## Clears -/

/-- A share is told by a message that its coordinator does not send itself. -/
theorem tells_recipients (hc : c.Arranged) (nodes : OrdSet Member) (message : ClearMessage)
    {k : Coordinator} {s : Share} (hs : c.share? l' = some s)
    (hmember : s.coordinator.member = k.member) (there : Member → Bool) :
    let members := nodes.toList.filter fun m => !m.same k.member && there m
    c.Tells id l (if l' = l then 0 else dueOf message) (if l' = l then 0 else dueOf message)
      (w.send message members c).2 := by
  intro members
  split
  next he =>
    subst he
    refine tells_sendOthers hw members (.new members, c) hc hs fun m hm => ?_
    have hother := (Bool.and_eq_true_iff.1 (List.mem_filter.1 hm).2).1
    rw [hmember]
    simpa using hother
  next => exact tells_send hw members (.new members, c) hc (nodes.pairwise_toList.filter _)

/-- No clear asks the member that it is for, and any other member is asked once in a broadcast. -/
theorem keeping_broadcast (event : RegionEvent) (operation : ClearOperation) :
    Keeps (Keeping id l l') (broadcast (w.surroundings c l') event operation).run := by
  have hR := chained_keeping id l l'
  refine keeps_broadcast hR fun s message _ => ?_
  refine .bind ((Ensures.call _ _).mono ?_)
  rintro collector _ s₁ ⟨rfl, hans, hk⟩
  have hsent : Keeping id l l' s
      [.sent message (recipients (w.surroundings c l') s)] s₁ := fun hc hs => by
    obtain ⟨t, hfound, hmember⟩ := hs
    have hid : s.outside.Untold s.outside.newId.2 := .of_shares rfl rfl
    have ht : s.outside.Tells id l 0 0 s.outside.newId.2 := hid.tells hc
    have hto := ht.trans (tells_recipients (l := l) hw ht.arranged s.outside.nodes.nodes message
      (show s.outside.newId.2.share? l' = some t from hfound) hmember s.outside.isCurrent)
    have houtside : (w.send message (recipients (w.surroundings c l') s) s.outside.newId.2).2 =
        s₁.outside := congrArg Prod.snd (Option.some.inj hans)
    rw [← houtside]
    refine ⟨by rw [hk], hto.mono ?_ ?_⟩ <;>
      · rw [Nat.zero_add, tellings, List.countP_singleton]
        split
        next => exact Nat.zero_le _
        next => simp [dueOf, Effect.isClearSent]
  exact .chain hR hsent (Keeps.bind hR (keeping_hearDepartures hw) (fun _ => .pure hR _) s₁)

/-- However a clear from any share ends, listeners and clients are told as often as it tells its own,
and asks others to. -/
theorem keeping_permits (c : Cluster) (l l' : String) :
    (w.surroundings c l').Permits (Keeping id l l') where
  toServes := keeping_serves hw c l l'
  advances := keeping_advance
  broadcasts := keeping_broadcast hw
  asksLock _ _ _ := keeping_quietConsult hw fun _ _ _ hans => untold_lock hans
  unlocks _ := keeping_tryTo hw fun _ => untold_unlock
  asksWriter _ := keeping_tryTo hw fun _ => untold_askWriter
  assigns := keeping_tryTo hw fun _ => untold_modifyShare fun s _ => s.untold_assignPrimaries

end

theorem arranged_of_history {name : String} {config : BucketConfig} {clearConfig : ClearConfig}
    (hc : Relation.ReflTransGen Happens (.new name config clearConfig) c) : c.Arranged :=
  fun m l s hm hs => (guardedAt_of_history (l := l) hc).own m s hm hs

/-- A record of what a coordinator did makes no difference. -/
theorem coordinate_recorded {α : Type} (c : Cluster) (l : String) (work : Act Cluster α) :
    (c.coordinate l do
      let a ← work
      return (a, (← get).effects)).map (fun p => (p.1.1, p.2)) = c.coordinate l work := by
  unfold coordinate
  cases c.share? l with
  | none => rfl
  | some s =>
    simp only [Option.bind_eq_bind, Option.bind_some, StateT.run_bind]
    cases work.run { coordinator := s.coordinator, outside := c } <;> rfl

/-- Where nothing goes on meanwhile, a clear is what it is. -/
theorem clearWith_calm (c : Cluster) (l : String) (argument : Option String) (cacheWrite : Bool) :
    (Weather.calm.clearWith c l argument cacheWrite).map (fun p => (p.1.1, p.2)) =
      c.clearWith l argument cacheWrite := by
  unfold Weather.clearWith clearWith
  cases c.clearEvent l argument with
  | none => rfl
  | some p => exact coordinate_recorded p.2 l _

/-- What a clear in some weather is: its event is a new one, and the coordinator goes back to its
share. -/
theorem clearWith_run {label : String} {s : Share} {argument : Option String} {cacheWrite : Bool}
    {answer : Except ClearError (List Nat)} {es : List Effect} (hs : c.share? label = some s)
    (hrun : w.clearWith c label argument cacheWrite = some ((answer, es), c')) :
    ∃ scene : Scene Cluster,
      (doClear (w.surroundings c.newId.2 label) rounds
        (.clear c.newId.1 c.name s.member argument) cacheWrite).run.run
          ⟨s.coordinator, c.newId.2, []⟩ = some (answer, scene) ∧
      scene.effects = es ∧ c' = scene.outside.putBack label scene.coordinator := by
  obtain ⟨⟨event, o⟩, hevent, hrun⟩ := Option.bind_eq_some_iff.1 hrun
  obtain ⟨s', hs', hevent⟩ := Option.bind_eq_some_iff.1 hevent
  obtain rfl : s = s' := Option.some.inj (hs.symm.trans hs')
  cases hevent
  obtain ⟨t, scene, ht, hdone, -, rfl⟩ := putBack_of_coordinate hrun
  obtain rfl : s = t := Option.some.inj (hs.symm.trans ht)
  obtain ⟨answer', s₁, hclear, hlast⟩ := Act.run_bind_eq hdone
  cases hlast
  exact ⟨_, hclear, rfl, rfl⟩

/-- A clear of a cluster with any history, in any weather in which nobody else tells of the event.
Each listener and each client of the member that clears is told once at most, however many passes it
makes over its buckets. Those of any other member are told once at most for each broadcast that asks
to clear, and there are no more broadcasts than attempts to send. -/
theorem announced_once_a_broadcast {name : String} {config : BucketConfig} {clearConfig : ClearConfig}
    {label : String} {s : Share} {argument : Option String} {cacheWrite : Bool}
    {answer : Except ClearError (List Nat)} {es : List Effect}
    (hc : Relation.ReflTransGen Happens (.new name config clearConfig) c)
    (hw : w.Silent c.newId.1) (hs : c.share? label = some s)
    (hrun : w.clearWith c label argument cacheWrite = some ((answer, es), c')) :
    let broadcasts := es.countP Effect.isClearSent
    broadcasts ≤ s.coordinator.config.sendAttempts ∧ ∀ l,
      let times := if label = l then 1 else broadcasts
      (∀ listener, c'.heardAt l listener c.newId.1 ≤ c.heardAt l listener c.newId.1 + times) ∧
      ∀ client, c'.queuedAt l client c.newId.1 ≤ c.queuedAt l client c.newId.1 + times := by
  intro broadcasts
  obtain ⟨scene, hclear, rfl, rfl⟩ := clearWith_run hs hrun
  have hid : c.Untold c.newId.2 := .of_shares rfl rfl
  have hstart : c.Tells c.newId.1 label 0 0 c.newId.2 := hid.tells (arranged_of_history hc)
  have hshare : c.newId.2.share? label = some s := hs
  obtain ⟨es, hes, htally, -⟩ := announces_doClear _ rounds cacheWrite _ rfl _ _ hclear
  obtain rfl : scene.effects = es := hes
  refine ⟨htally.sent, fun l => ?_⟩
  obtain ⟨es, hes, hkeeping⟩ :=
    (keeping_permits hw c.newId.2 l label).doClear rounds _ cacheWrite _ _ _ hclear
  obtain rfl : scene.effects = es := hes
  have ht := (hkeeping.putBack hstart.arranged hshare rfl).mono
    (tellings_le htally.listeners (Nat.le_refl broadcasts))
    (tellings_le htally.clients (Nat.le_refl broadcasts))
  exact ⟨ht.heard, ht.queued⟩

/-! ## Members that leave -/

def listening (c : Cluster) (l : String) : Cluster :=
  c.modifyShare l fun s => { s with listeners := s.listeners + 1 }

/-- Three members. The first hosts the only bucket, the second has a listener. -/
def assembled (clearConfig : ClearConfig) : Cluster :=
  let c := (((Cluster.new "orders" { totalBuckets := 1 } clearConfig).add "a" (memberAt 1)).add "b"
    (memberAt 2)).add "c" (memberAt 3)
  (c.modifyShare "a" fun s => (s.hostBucket c.region.hasRegion 0).2).listening "b"

theorem happens_assembled (clearConfig : ClearConfig) : Relation.ReflTransGen Happens
    (.new "orders" { totalBuckets := 1 } clearConfig) (assembled clearConfig) :=
  .tail (.tail (.tail (.tail (.tail .refl (.add _ "a" _)) (.add _ "b" _)) (.add _ "c" _))
    (.move (.step (.setUp (.host _ "a" 0))))) (.move (.step (.setUp (.listen _ "b"))))

/-- The third member crashes while the second message of a clear is on its way to it. -/
def gust : Weather where
  during _ c := ([], c)
  underway m c := if c.ids = 3 ∧ m.same (memberAt 3) = true then c.crash m else c

theorem silent_gust : gust.Silent id := by
  refine silent_of_asides (fun _ _ => .refl) fun m c => ?_
  simp only [gust]
  split
  · exact .single (.crash c m)
  · exact .refl

/-- The broadcast is repeated without the member that crashed, and reaches the second one again. -/
theorem announced_once_a_broadcast_gust : ∃ answer es c',
    gust.clearWith ((assembled {}).listening "a") "a" none true = some ((answer, es), c') ∧
    answer.toOption = some [0] ∧ es.countP Effect.isClearSent = 2 ∧
    c'.heardAt "a" 0 ⟨0⟩ = 1 ∧ c'.heardAt "b" 0 ⟨0⟩ = 2 ∧
    ∀ l listener, c'.heardAt l listener ⟨0⟩ ≤
      ((assembled {}).listening "a").heardAt l listener ⟨0⟩ + if "a" = l then 1 else 2 := by
  have hrun : (gust.clearWith ((assembled {}).listening "a") "a" none true).map (fun p =>
      (p.1.1.toOption, p.1.2.countP Effect.isClearSent,
        p.2.heardAt "a" 0 ⟨0⟩, p.2.heardAt "b" 0 ⟨0⟩)) = some (some [0], 2, 1, 2) := by decide +kernel
  have hshare : (((assembled {}).listening "a").share? "a").isSome = true := by decide +kernel
  obtain ⟨⟨⟨answer, es⟩, c'⟩, hclear, heq⟩ := Option.map_eq_some_iff.1 hrun
  simp only [Prod.mk.injEq] at heq
  obtain ⟨hanswer, hsent, ha, hb⟩ := heq
  obtain ⟨s, hs⟩ := Option.isSome_iff_exists.1 hshare
  have hbounds := announced_once_a_broadcast
    (.tail (happens_assembled {}) (.move (.step (.setUp (.listen _ "a"))))) silent_gust hs hclear
  refine ⟨answer, es, c', hclear, hanswer, hsent, ha, hb, fun l listener => ?_⟩
  have hbound := (hbounds.2 l).1 listener
  rw [hsent] at hbound
  exact hbound

/-- A member that is there but handles no messages counts as one that left each time that it is asked.
Another member's listener hears of the same clear at every attempt. -/
theorem heard_at_every_attempt : ∃ c c' answer,
    c = (assembled { maxSendAttempts := 2 }).unregister (memberAt 3) ∧
    c.clear "a" = some (answer, c') ∧
    c.heardAt "b" 0 c.newId.1 = 0 ∧ c'.heardAt "b" 0 c.newId.1 = 2 := by
  have hrun : (((assembled { maxSendAttempts := 2 }).unregister (memberAt 3)).clear "a").map
      (fun p => p.2.heardAt "b" 0 ⟨0⟩) = some 2 := by decide +kernel
  obtain ⟨⟨answer, c'⟩, hclear, hheard⟩ := Option.map_eq_some_iff.1 hrun
  exact ⟨_, c', answer, rfl, hclear, by decide +kernel, hheard⟩

end Cluster
end DataGrid
