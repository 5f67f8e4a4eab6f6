import DataGrid.Proofs.Clear.Gathering
import DataGrid.Proofs.Cluster.Turns

/-
What a clear of the whole region does to the buckets of a cluster, whatever
state they are in and however it ends (`Works`): buckets may get a primary
first, and then those are emptied whose member is primary. If it succeeds, all
of these are empty on the member that clears and on the members that it asks.

A member that was asked and did not clear fails the broadcast: it does not
reply, or its reply says why (`Underway`).
-/

namespace DataGrid

/-- What becomes of a bucket when its member does what a message asks for. -/
def ClearOperation.touch : ClearOperation → Bucket → Bucket → Prop
  | .clear => Bucket.Cleansed
  | .lock | .unlock => Bucket.Still

theorem ClearOperation.transit_touch : ∀ operation : ClearOperation, Bucket.Transit operation.touch
  | .clear => Bucket.transit_cleansed
  | .lock | .unlock => Bucket.transit_still

namespace Cluster

open Bucket (Transit Still Cleansed Assigned transit_still transit_cleansed transit_assigned)
open Coordinator

variable {c c' o : Cluster} {l : String} {s : Share} {m : Member} {message : ClearMessage}
  {touch : Bucket → Bucket → Prop}

/-! ## Processing -/

theorem ensures_process (c : Cluster) (l : String) (message : ClearMessage) (s : Scene Cluster) :
    Ensures (Coordinator.process (c.site l) rounds message) s fun reply es s' =>
      Steady message.operation.touch s es s' ∧ reply.sender = s.coordinator.member ∧
        (message.operation = .clear → reply.error = none → Clears (fun _ => [l]) s s') := by
  refine .get_bind ?_
  split
  next => exact .pure _ ⟨(chained_steady message.operation.transit_touch).refl s, rfl, fun _ h => nomatch h⟩
  next =>
    cases hop : message.operation with
    | lock =>
      refine .bind ((steady_obtainLocal _ s).mono fun _ es s₁ h => .pure _ ⟨?_, rfl, nofun⟩)
      rw [List.append_nil]
      exact h
    | unlock =>
      refine .bind ((steady_releaseLocal s).mono fun _ es s₁ h => .pure _ ⟨?_, rfl, nofun⟩)
      rw [List.append_nil]
      exact h
    | clear =>
      refine .bind ((attains_clearLocal c l rounds message.event s).mono fun r es s₁ ⟨h, hdone⟩ => ?_)
      cases r with
      | ok ids => exact .pure _ ⟨by rw [List.append_nil]; exact h, rfl, fun _ _ => hdone rfl⟩
      | error e => exact .pure _ ⟨by rw [List.append_nil]; exact h, rfl, fun _ he => nomatch he⟩

theorem share?_of_coordinate {α : Type} {work : Act Cluster α} {p : α × Cluster}
    (hrun : c.coordinate l work = some p) : ∃ s, c.share? l = some s := by
  obtain ⟨s, hs, -⟩ := Option.bind_eq_some_iff.1 hrun
  exact ⟨s, hs⟩

/-- What the coordinator of a share leaves, it leaves in the cluster. -/
theorem coordinate_ensures {α : Type} {work : Act Cluster α} {a : α}
    {Q : α → List Effect → Scene Cluster → Prop} (hs : c.share? l = some s)
    (hw : Ensures work ⟨s.coordinator, c, []⟩ Q) (hrun : c.coordinate l work = some (a, c')) :
    ∃ es s', Q a es s' ∧ (s'.coordinator.member = s.coordinator.member →
      (s'.outside.share? l).map Share.owners = (c.share? l).map Share.owners →
      s'.outside.Turns Still c') := by
  simp only [coordinate, hs, bind, Option.bind] at hrun
  split at hrun
  next => cases hrun
  next p hwork =>
    cases hrun
    obtain ⟨es, -, hQ⟩ := hw p.1 p.2 hwork
    refine ⟨es, p.2, hQ, fun hmember howners => turns_modifyShare transit_still fun t ht => ?_⟩
    rw [ht, hs] at howners
    have hsame : t.owners = s.owners := Option.some.inj howners
    simp only [Share.owners, Prod.mk.injEq] at hsame
    refine .apart transit_still ?_ rfl
    simp only [Share.owners, Prod.mk.injEq]
    exact ⟨rfl, hmember.trans hsame.2.symm⟩

theorem Turns.of_still (h : c.Turns Still c') (operation : ClearOperation) :
    c.Turns operation.touch c' := h.mono fun hb => by
  cases operation with
  | lock | unlock => exact hb
  | clear => exact hb.cleansed

theorem process_turns (hc : c.Staffed Share.Aware) (hs : c.share? l = some s) {reply : ClearReply}
    (hrun : c.process l message = some (reply, c')) :
    c.Turns message.operation.touch c' ∧ reply.sender = s.coordinator.member ∧
      (message.operation = .clear → reply.error = none → c'.Cleared l) := by
  obtain ⟨es, s', ⟨hsteady, hsender, hcleared⟩, hleft⟩ :=
    coordinate_ensures hs (ensures_process c l message _) hrun
  obtain ⟨hmember, hturns⟩ := hsteady hc
  have hlast := hleft hmember (hturns.owners l)
  refine ⟨hturns.trans message.operation.transit_touch (hlast.of_still _), hsender, fun hop he => ?_⟩
  exact (hcleared hop he hc l List.mem_cons_self).turns (hlast.of_still .clear)

/-! ## Sending -/

/-- A message that is not delivered, or not processed to the end, changes nothing. -/
theorem turns_deliver (hc : o.Staffed Share.Aware) (collector : Collector) (m : Member) :
    o.Turns message.operation.touch (deliver message (collector, o) m).2 := by
  have hsame := Turns.refl message.operation.transit_touch o
  simp only [deliver]
  split
  next => exact hsame
  next l hl =>
    split
    next => exact hsame
    next =>
      split
      next reply c' hrun =>
        obtain ⟨s, hs⟩ := share?_of_coordinate hrun
        exact (process_turns hc hs hrun).1
      next => exact hsame

theorem turns_send (hc : c.Staffed Share.Aware) (message : ClearMessage) (members : List Member) :
    c.Turns message.operation.touch (c.send message members).2 := by
  have htouch := message.operation.transit_touch
  have hall : ∀ acc : Collector × Cluster, c.Turns message.operation.touch acc.2 → ∀ m ∈ members,
      c.Turns message.operation.touch (deliver message acc m).2 := fun acc hacc m _ =>
    hacc.trans htouch (turns_deliver (hacc.staffed htouch hc) acc.1 m)
  exact List.foldlRecOn members (deliver message) (.refl htouch c) hall

/-- A message has been delivered to some members, and not yet to others. Those it was delivered to
have replied, or are still waited for; a reply that tells of no failure comes from a member that has
cleared, if it was asked to. -/
structure Underway (message : ClearMessage) (c : Cluster) (done todo : List Member)
    (acc : Collector × Cluster) : Prop where
  turns : c.Turns message.operation.touch acc.2
  waits : ∀ m ∈ todo, acc.1.pending.contains m = true
  served : ∀ m ∈ done, acc.1.pending.contains m = true ∨
    ∃ r ∈ acc.1.outcome.replies, message.operation = .clear → r.error = none →
      ∀ l, c.handlers.find? m = some l → acc.2.Cleared l

theorem reply_waited {collector : Collector} {reply : ClearReply}
    (h : collector.pending.contains reply.sender = true) :
    collector.reply reply = ⟨collector.pending.erase reply.sender,
      { collector.outcome with replies := collector.outcome.replies ++ [reply] }⟩ := by
  simp only [Collector.reply, h, if_true]

/-- A reply takes its sender off the list of those who are waited for, and nobody else. -/
theorem Underway.replied {done todo : List Member} {collector : Collector} {o' : Cluster}
    {reply : ClearReply} (hc : c.Staffed Share.Aware)
    (h : Underway message c done (m :: todo) (collector, o)) (hl : o.Handles m l s)
    (hrun : o.process l message = some (reply, o'))
    (hne : ∀ m' ∈ done ++ todo, compare m' m ≠ .eq) :
    Underway message c (done ++ [m]) todo (collector.reply reply, o') := by
  have htouch := message.operation.transit_touch
  obtain ⟨hturn, hsender, hcleared⟩ := process_turns (h.turns.staffed htouch hc) hl.share hrun
  have hsame : compare reply.sender m = .eq := by
    rw [hsender]
    exact Member.same_iff.1 hl.member
  have hwaits : collector.pending.contains reply.sender = true := by
    rw [OrdSet.contains_congr _ hsame]
    exact h.waits m List.mem_cons_self
  have hothers : ∀ m' ∈ done ++ todo, collector.pending.contains m' = true →
      (collector.pending.erase reply.sender).contains m' = true := fun m' hm' hwaited => by
    rw [OrdSet.contains_erase_other _ fun he => hne m' hm' (Std.TransCmp.eq_trans he hsame)]
    exact hwaited
  rw [reply_waited hwaits]
  refine ⟨h.turns.trans htouch hturn, fun m' hm' => ?_, fun m' hm' => ?_⟩
  · exact hothers m' (List.mem_append_right _ hm') (h.waits m' (List.mem_cons_of_mem _ hm'))
  · rcases List.mem_append.1 hm' with hm' | hm'
    · rcases h.served m' hm' with hwaited | ⟨r, hr, hdone⟩
      · exact .inl (hothers m' (List.mem_append_left _ hm') hwaited)
      · refine .inr ⟨r, List.mem_append_left _ hr, fun hop he l' hl' => ?_⟩
        have hcleansed : o.Turns Cleansed o' := by
          rw [hop] at hturn
          exact hturn
        exact (hdone hop he l' hl').turns hcleansed
    · obtain rfl := List.mem_singleton.1 hm'
      refine .inr ⟨reply, List.mem_append_right _ List.mem_cons_self, fun hop he l' hl' => ?_⟩
      rw [← h.turns.handlers, hl.handler] at hl'
      cases hl'
      exact hcleared hop he

theorem Underway.deliver {done todo : List Member} {acc : Collector × Cluster}
    (hc : c.Staffed Share.Aware) (h : Underway message c done (m :: todo) acc)
    (hcur : c.isCurrent m = true) (hne : ∀ m' ∈ done ++ todo, compare m' m ≠ .eq) :
    Underway message c (done ++ [m]) todo (Cluster.deliver message acc m) := by
  obtain ⟨collector, o⟩ := acc
  have hstaffed := h.turns.staffed message.operation.transit_touch hc
  obtain ⟨l, s, hl⟩ := hstaffed.handled m ((h.turns.isCurrent m).trans hcur)
  cases hrun : o.process l message with
  | none =>
    have hdeliver : Cluster.deliver message (collector, o) m = (collector, o) := by
      simp only [Cluster.deliver, hl.handler, hl.current, hrun]
      rfl
    rw [hdeliver]
    refine ⟨h.turns, fun m' hm' => h.waits m' (List.mem_cons_of_mem _ hm'), fun m' hm' => ?_⟩
    rcases List.mem_append.1 hm' with hm' | hm'
    · exact h.served m' hm'
    · -- the work did not end, and the member is still waited for
      obtain rfl := List.mem_singleton.1 hm'
      exact .inl (h.waits m' List.mem_cons_self)
  | some p =>
    have hdeliver : Cluster.deliver message (collector, o) m = (collector.reply p.1, p.2) := by
      simp only [Cluster.deliver, hl.handler, hl.current, hrun]
      rfl
    rw [hdeliver]
    exact h.replied hc hl hrun hne

theorem Underway.deliverAll (hc : c.Staffed Share.Aware) : ∀ (todo done : List Member)
    (acc : Collector × Cluster), Underway message c done todo acc →
    (∀ m ∈ todo, c.isCurrent m = true) →
    (done ++ todo).Pairwise (fun a b => compare a b ≠ .eq) →
    Underway message c (done ++ todo) [] (todo.foldl (Cluster.deliver message) acc)
  | [], done, acc, h, _, _ => by
    rw [List.append_nil]
    exact h
  | m :: todo, done, acc, h, hcur, hdistinct => by
    have hsplit : done ++ m :: todo = (done ++ [m]) ++ todo := by simp
    obtain ⟨-, hrest, hacross⟩ := List.pairwise_append.1 hdistinct
    have hne : ∀ m' ∈ done ++ todo, compare m' m ≠ .eq := fun m' hm' => by
      rcases List.mem_append.1 hm' with hm' | hm'
      · exact hacross m' hm' m List.mem_cons_self
      · exact fun he => (List.pairwise_cons.1 hrest).1 m' hm' (Std.OrientedCmp.eq_symm he)
    rw [hsplit] at hdistinct ⊢
    exact deliverAll hc todo (done ++ [m]) _ (h.deliver hc (hcur m List.mem_cons_self) hne)
      (fun m' hm' => hcur m' (List.mem_cons_of_mem _ hm')) hdistinct

/-- Where all replies have come and none tells of a failure, all that were asked have cleared. -/
theorem send_cleared (hc : c.Staffed Share.Aware) (hop : message.operation = .clear)
    {members : List Member} (hcur : ∀ m ∈ members, c.isCurrent m = true)
    (hdistinct : members.Pairwise fun a b => compare a b ≠ .eq) {outcome : Outcome} {ids : List Nat}
    (htake : (c.send message members).1.take.1 = .ok outcome)
    (hreplies : collectReplies outcome.replies = .ok ids) :
    ∀ l ∈ c.labelsOf members, (c.send message members).2.Cleared l := by
  have hstart : Underway message c [] members (.new members, c) :=
    ⟨.refl message.operation.transit_touch c, fun m hm => (awaits_new members m).2 ⟨m, hm,
      Std.ReflCmp.compare_self⟩, nofun⟩
  have hend : Underway message c members [] (c.send message members) :=
    .deliverAll hc members [] _ hstart hcur hdistinct
  intro l hl
  obtain ⟨m, hm, hl⟩ := List.mem_filterMap.1 hl
  have htaken : (c.send message members).1.pending.isEmpty = true ∧
      (c.send message members).1.outcome = outcome := by
    unfold Collector.take at htake
    split at htake
    next hempty =>
      cases htake
      exact ⟨hempty, rfl⟩
    next => cases htake
  rcases hend.served m hm with hwaited | ⟨r, hr, hdone⟩
  · rw [OrdSet.contains_of_isEmpty htaken.1] at hwaited
    cases hwaited
  · refine hdone hop ?_ l hl
    rw [← htaken.2] at hreplies
    exact ((collectReplies_ok_iff _ _).1 hreplies).1 r hr

/-! ## Asking the other members -/

/-- The shares that the others have that a scene's coordinator asks. -/
def askedLabels (c : Cluster) (l : String) (s : Scene Cluster) : List String :=
  s.outside.labelsOf (recipients (c.surroundings l) s)

theorem askedLabels_turns {s s' : Scene Cluster}
    (hmember : s'.coordinator.member = s.coordinator.member)
    (hturns : s.outside.Turns touch s'.outside) : askedLabels c l s' = askedLabels c l s := by
  have hcurrent : ∀ m, s'.outside.isCurrent m = s.outside.isCurrent m := hturns.isCurrent
  simp only [askedLabels, labelsOf, recipients, surroundings, site, hturns.handlers, hturns.nodes,
    hmember, hcurrent]

theorem lasting_asked (c : Cluster) (l : String) :
    Lasting (Steady Cleansed) (Clears (askedLabels c l)) :=
  lasting_clears fun _ _ hmember hturns => askedLabels_turns hmember hturns

theorem turns_newId (c : Cluster) (operation : ClearOperation) :
    c.Turns operation.touch c.newId.2 := .of_shares operation.transit_touch rfl rfl rfl rfl

theorem allows_sending (c : Cluster) (l : String) (operation : ClearOperation) :
    (c.surroundings l).Allows operation (Steady operation.touch) where
  chained := chained_steady operation.transit_touch
  takesId s _ := ⟨rfl, turns_newId s.outside operation⟩
  sends message members hop := by
    rw [← hop]
    exact steady_tryTo fun o hc => turns_send hc message members

theorem ensures_broadcast (c : Cluster) (l : String) (event : RegionEvent) (s : Scene Cluster) :
    Ensures (broadcast (c.surroundings l) event .clear).run s fun r es s' =>
      Steady Cleansed s es s' ∧ ∀ ids, r = .ok (.replied ids) → Clears (askedLabels c l) s s' := by
  have hR := chained_steady transit_cleansed
  refine .get_attempt ?_
  cases hto : recipients (c.surroundings l) s with
  | nil =>
    refine .done _ ⟨hR.refl s, fun _ _ _ l' hl' => ?_⟩
    rw [askedLabels, hto] at hl'
    cases hl'
  | cons first rest =>
    refine .attempt (.sure ((Ensures.outside _).mono ?_))
    rintro - _ _ ⟨-, rfl⟩
    refine .attempt ((ensures_consulted c l _ _ _).mono ?_)
    rintro r es s₁ ⟨hans, hk⟩
    let o := s.outside.newId.2
    let message := ClearMessage.about s.outside.newId.1 s.coordinator.member .clear event
    obtain ⟨rfl, hsent⟩ : .ok (o.send message (first :: rest)).1 = r ∧
        (o.send message (first :: rest)).2 = s₁.outside := Prod.mk.inj (Option.some.inj hans)
    have hid : s.outside.Turns Cleansed o := turns_newId s.outside .clear
    have hkept : ∀ {es}, Steady Cleansed s es s₁ := fun {_} hc => by
      refine ⟨by rw [hk], ?_⟩
      rw [← hsent]
      exact hid.trans transit_cleansed (turns_send (hid.staffed transit_cleansed hc) message _)
    have hcleared : ∀ outcome ids, (o.send message (first :: rest)).1.take.1 = .ok outcome →
        collectReplies outcome.replies = .ok ids → Clears (askedLabels c l) s s₁ := by
      intro outcome ids htake hreplies hc l' hl'
      rw [askedLabels, hto] at hl'
      rw [← hsent]
      refine send_cleared (hid.staffed transit_cleansed hc) rfl (fun m hm => ?_) ?_ htake hreplies l' hl'
      · rw [← hto] at hm
        exact (Bool.and_eq_true_iff.1 (List.mem_filter.1 hm).2).2
      · rw [← hto]
        exact s.outside.nodes.nodes.pairwise_toList.filter _
    -- a broadcast is replied to only if nobody is waited for, left, or tells of a failure
    refine .attempt (.ofExcept _ ?_)
    cases htake : (o.send message (first :: rest)).1.take.1 with
    | error e => exact ⟨hkept, nofun⟩
    | ok outcome =>
      obtain ⟨replies, departed⟩ := outcome
      cases departed with
      | cons first others => exact .done _ ⟨hkept, nofun⟩
      | nil =>
        refine .attempt (.ofExcept _ ?_)
        cases hreplies : collectReplies replies with
        | error e => exact ⟨hkept, nofun⟩
        | ok ids => exact .done _ ⟨hkept, fun _ _ => hcleared _ ids htake hreplies⟩

/-- If all others report that they have cleared, they have. -/
theorem attains_send (c : Cluster) (l : String) (event : RegionEvent) :
    Attains (Steady Cleansed) (Clears (askedLabels c l))
      (Coordinator.send (c.surroundings l) event .clear) :=
  (allows_sending c l .clear).attains_send (lasting_asked c l) (ensures_broadcast c l event)

/-! ## The whole clear -/

/-- The shares that a clear is to reach. -/
def reachedLabels (c : Cluster) (l : String) (s : Scene Cluster) : List String :=
  l :: askedLabels c l s

theorem attains_clearEverywhere (c : Cluster) (l : String) (rounds : Nat) (event : RegionEvent) :
    Attains (Steady Cleansed) (Clears (reachedLabels c l))
      (clearEverywhere (c.surroundings l) rounds event) := fun s => by
  have hR := chained_steady transit_cleansed
  refine (Attains.bind hR (lasting_clears fun _ _ _ _ => rfl) (lasting_asked c l)
    (attains_clearLocal c l rounds event) (fun ids => .before hR (lasting_asked c l)
      (attains_send c l event) fun _ => .done hR _) s).mono fun r es s' ⟨h, hdone⟩ => ⟨h, ?_⟩
  intro hr hc l' hl'
  obtain ⟨hown, hasked⟩ := hdone hr
  rcases List.mem_cons.1 hl' with rfl | hl'
  · exact hown hc l' List.mem_cons_self
  · exact hasked hc l' hl'

/-- Buckets may have got a primary first, then some were emptied by their primaries. If the act
succeeds, all shares that the clear is to reach are cleared. -/
def Works {α : Type} (c : Cluster) (l : String) (s : Scene Cluster) (r : Except ClearError α)
    (s' : Scene Cluster) : Prop :=
  ∃ s₁, Steady Assigned s [] s₁ ∧ Steady Cleansed s₁ [] s' ∧
    (r.toBool = true → Clears (reachedLabels c l) s₁ s')

section

variable {α γ : Type} {r : Except ClearError α} {s s₁ s' : Scene Cluster} {es : List Effect}

theorem Works.after (h : Steady Assigned s es s₁) (hw : Works c l s₁ r s') : Works c l s r s' := by
  obtain ⟨s₂, hassigned, hrest⟩ := hw
  exact ⟨s₂, h.trans transit_assigned hassigned, hrest⟩

/-- Nothing was cleared. -/
theorem Works.failed (h : Steady Assigned s es s') (e : ClearError) :
    Works c l s (.error e : Except ClearError α) s' :=
  ⟨s', h, (chained_steady transit_cleansed).refl s', nofun⟩

/-- What is done after a clear, however that ended, if it succeeds only where the clear did. -/
theorem ensures_afterwards {work : Attempt Cluster α}
    {next : Except ClearError α → Attempt Cluster γ}
    (h : Ensures work.run s fun r _ s' => Works c l s r s')
    (hnext : ∀ r, Attains (Steady Cleansed) (fun _ _ => r.toBool = true) (next r)) :
    Ensures (work.outcome >>= next).run s fun r _ s' => Works c l s r s' := by
  refine .attempt (.outcome (h.mono fun r _ s₁ hworks => (hnext r s₁).mono fun r' es s' hrest => ?_))
  obtain ⟨s₀, hassigned, hcleansed, hdone⟩ := hworks
  obtain ⟨hafter, hok⟩ := hrest
  have hlasting : Lasting (Steady Cleansed) (Clears (reachedLabels c l)) :=
    lasting_clears fun s s' hmember hturns => by
      rw [reachedLabels, reachedLabels, askedLabels_turns hmember hturns]
  exact ⟨s₀, hassigned, hcleansed.trans transit_cleansed hafter, fun hr =>
    hlasting.before hcleansed (hdone (hok hr)) hafter⟩

/-- What is done before a clear, if it clears nothing. -/
theorem ensures_beforehand {work : Attempt Cluster α} {next : α → Attempt Cluster γ}
    (h : Keeps (Steady Assigned) work.run)
    (hnext : ∀ a s, Ensures (next a).run s fun r _ s' => Works c l s r s') (s : Scene Cluster) :
    Ensures (work >>= next).run s fun r _ s' => Works c l s r s' := by
  refine .attempt ((h s).mono fun r es s₁ hfirst => ?_)
  cases r with
  | error e => exact .failed hfirst e
  | ok a => exact (hnext a s₁).mono fun _ _ _ hworks => hworks.after hfirst

end

/-! ### The steps of a clear -/

theorem turns_lock {name : String} {wait lease : Option Nat} {answer : Except LockError Unit}
    (h : lock l name wait lease c = some (answer, c')) : c.Turns Still c' := by
  obtain ⟨grantor, rfl⟩ := grantor_of_lock h
  exact .of_shares transit_still rfl rfl rfl rfl

theorem turns_unlock (name : String) (c : Cluster) : c.Turns Still (unlock l name c).2 := by
  obtain ⟨grantor, hc'⟩ := grantor_of_unlock l name c
  rw [hc']
  exact .of_shares transit_still rfl rfl rfl rfl

theorem steady_acquireLock (c : Cluster) (l name : String) :
    Keeps (Steady Still) (acquireLock (c.surroundings l) name).run := by
  have hR := chained_steady transit_still
  refine .get_attempt fun s => .attempt hR (.sure (steady_consult fun o a o' _ h => turns_lock h))
    fun answer => ?_
  split
  next => exact .done hR _
  next => exact .thrown hR _
  next => exact .thrown hR _

theorem steady_releaseLock (c : Cluster) (l name : String) :
    Keeps (Steady Still) (releaseLock (c.surroundings l) name).run :=
  steady_tryTo fun o _ => turns_unlock name o

theorem steady_askWriter (c : Cluster) (l : String) (event : RegionEvent) :
    Keeps (Steady Still) (Coordinator.askWriter (c.surroundings l) event).run :=
  steady_tryTo fun o _ => by
    have hsame : ((c.surroundings l).askWriter event o).2 = o := askWriter_same l event o
    rw [hsame]
    exact .refl transit_still o

theorem steady_obtainAll (c : Cluster) (l : String) (event : RegionEvent) :
    Keeps (Steady Still) (obtainAll (c.surroundings l) event).run := by
  have hR := chained_steady transit_still
  exact .get_attempt fun _ => .attempt hR (.sure (steady_obtainLocal _)) fun _ =>
    .attempt hR ((allows_sending c l .lock).send event) fun _ => .done hR _

theorem steady_releaseAll (c : Cluster) (l : String) (event : RegionEvent) :
    Keeps (Steady Still) (releaseAll (c.surroundings l) event).run := by
  have hR := chained_steady transit_still
  exact .attempt hR (.sure steady_releaseLocal) fun _ =>
    .attempt hR ((allows_sending c l .unlock).send event) fun _ => .done hR _

theorem steady_assignPrimaries (c : Cluster) (l : String) :
    Keeps (Steady Assigned) (assignPrimaries (c.surroundings l)).run :=
  steady_tryTo fun _ _ => turns_modifyShare transit_assigned fun s _ => s.turns_assignPrimaries

theorem steady_advanceIf (b : Bool) (next : ClearPhase) :
    Keeps (Steady Still) (if b then sure (advance next) else pure () : Attempt Cluster Unit).run := by
  cases b with
  | true => exact .sure (steady_advance transit_still next)
  | false => exact .done (chained_steady transit_still) _

/-- Where buckets stay as they are, they may also change. -/
theorem keeps_assigned {α : Type} {work : Act Cluster α} (h : Keeps (Steady Still) work) :
    Keeps (Steady Assigned) work := h.mono fun hs => hs.mono Bucket.Still.assigned

theorem keeps_cleansed {α : Type} {work : Act Cluster α} (h : Keeps (Steady Still) work) :
    Keeps (Steady Cleansed) work := h.mono fun hs => hs.mono Bucket.Still.cleansed

/-! ### From the lock of the region to its release -/

theorem works_assignAndClear (c : Cluster) (l : String) (rounds : Nat) (event : RegionEvent)
    (s : Scene Cluster) :
    Ensures (assignAndClear (c.surroundings l) rounds event).run s fun r _ s' =>
      Works c l s r s' := by
  refine ensures_beforehand (steady_assignPrimaries c l) (fun _ => ensures_beforehand
    (.sure (steady_advance transit_assigned _)) fun _ s => ?_) s
  exact (attains_clearEverywhere c l rounds event s).mono fun r es s' ⟨h, hdone⟩ =>
    ⟨s, (chained_steady transit_assigned).refl s, h, hdone⟩

theorem works_clearWhileLocked (c : Cluster) (l : String) (rounds : Nat) (event : RegionEvent)
    (cacheWrite : Bool) (s : Scene Cluster) :
    Ensures (clearWhileLocked (c.surroundings l) rounds event cacheWrite).run s fun r _ s' =>
      Works c l s r s' := by
  have hR := chained_steady transit_cleansed
  have hasked : Keeps (Steady Still)
      (if cacheWrite then Coordinator.askWriter (c.surroundings l) event else pure () : Attempt Cluster Unit).run := by
    cases cacheWrite with
    | true => exact steady_askWriter c l event
    | false => exact .done (chained_steady transit_still) _
  unfold clearWhileLocked
  refine .optional (ensures_beforehand (keeps_assigned hasked) (fun _ s => .get_attempt ?_) s)
  split
  next =>
    -- the gates are opened again however the clear ends, and a failure of either is a failure
    refine ensures_afterwards (ensures_beforehand (keeps_assigned (steady_obtainAll c l event)) (fun _ =>
      works_assignAndClear c l rounds event) s) fun cleared => .after hR (lasting_const _)
        (.outcome (keeps_cleansed (steady_releaseAll c l event))) fun released => ?_
    have hanswer : ∀ ids, Keeps (Steady Cleansed)
        (do MonadExcept.ofExcept released; return ids : Attempt Cluster (List Nat)).run := fun ids =>
      .attempt hR (.ofExcept hR _) fun _ => .done hR _
    cases cleared with
    | error e => exact .before hR (lasting_const _) (.thrown hR e) hanswer
    | ok ids => exact (hanswer ids).attains fun _ _ => rfl
  next => exact works_assignAndClear c l rounds event s

/-- However a clear ends. -/
theorem works_doClear (c : Cluster) (l : String) (rounds : Nat) (event : RegionEvent)
    (cacheWrite : Bool) (s : Scene Cluster) :
    Ensures (doClear (c.surroundings l) rounds event cacheWrite).run s fun r _ s' =>
      Works c l s r s' := by
  have hR := chained_steady transit_cleansed
  have hadvance : ∀ next, Keeps (Steady Still) (sure (advance next) : Attempt Cluster Unit).run :=
    fun next => .sure (steady_advance transit_still next)
  unfold doClear
  refine ensures_beforehand (keeps_assigned (hadvance .idle)) (fun _ => ensures_beforehand
    (keeps_assigned (steady_acquireLock c l _)) fun _ => ensures_beforehand (keeps_assigned (hadvance .lockAcquired))
      fun _ s => ensures_afterwards (works_clearWhileLocked c l rounds event cacheWrite s)
        fun cleared => ?_) s
  have hlasting : Lasting (Steady Cleansed) fun _ _ => cleared.toBool = true := lasting_const _
  refine .get_attempt fun _ => .optional (.after hR hlasting (keeps_cleansed (steady_advanceIf _ _)) fun _ =>
    .after hR hlasting (.outcome (keeps_cleansed (steady_releaseLock c l _))) fun released =>
      .get_attempt fun _ => .optional (.after hR hlasting (keeps_cleansed (steady_advanceIf _ _)) fun _ => ?_))
  have hend : ∀ next, Keeps (Steady Cleansed) (sure (advance next) : Attempt Cluster Unit).run :=
    fun next => keeps_cleansed (hadvance next)
  have hfailed : ∀ e, Attains (Steady Cleansed) (fun _ _ => cleared.toBool = true)
      (do sure (advance .partialFailure); throw e : Attempt Cluster (List Nat)) := fun e =>
    .after hR hlasting (hend _) fun _ => .thrown hR e
  cases cleared with
  | error e => exact hfailed e
  | ok ids =>
    cases released with
    | error e => exact hfailed e
    | ok _ =>
      cases hcover : coversRegion (c.surroundings l) ids with
      | true =>
        simp only [hcover, if_true]
        exact .after hR hlasting (hend _) fun _ => (Keeps.done hR ids).attains fun _ _ => rfl
      | false =>
        simp only [hcover, Bool.false_eq_true, if_false]
        exact hfailed _

/-- A clear, however it ends: buckets may have got a primary first, then some were emptied. If it
succeeds, it has emptied all buckets whose primary is a member that it was to reach. -/
theorem clear_works (hc : c.Staffed Share.Aware) {argument : Option String} {cacheWrite : Bool}
    {r : Except ClearError (List Nat)} (hrun : c.clearWith l argument cacheWrite = some (r, c')) :
    ∃ s o, c.share? l = some s ∧ c.Turns Assigned o ∧ o.Turns Cleansed c' ∧
      (r.toBool = true → ∀ l' ∈ l :: c.labelsOf (c.others s), c'.Cleared l') := by
  obtain ⟨⟨event, c₁⟩, hevent, hrun⟩ := Option.bind_eq_some_iff.1 hrun
  obtain ⟨s, hs, hevent⟩ := Option.bind_eq_some_iff.1 hevent
  cases hevent
  have hid : c.Turns Assigned c.newId.2 := .of_shares transit_assigned rfl rfl rfl rfl
  obtain ⟨es, s', ⟨s₁, hassigned, hcleansed, hdone⟩, hleft⟩ :=
    coordinate_ensures (c := c.newId.2) (s := s) hs (works_doClear _ l rounds _ cacheWrite _) hrun
  have hc₀ := hid.staffed transit_assigned hc
  obtain ⟨hmember, hfirst⟩ := hassigned hc₀
  have hc₁ := hfirst.staffed transit_assigned hc₀
  obtain ⟨hmember', hrest⟩ := hcleansed hc₁
  have hlast := (hleft (hmember'.trans hmember)
    ((hrest.owners l).trans (hfirst.owners l))).mono Bucket.Still.cleansed
  refine ⟨s, s₁.outside, hs, hid.trans transit_assigned hfirst, hrest.trans transit_cleansed hlast,
    fun hr l' hl' => ?_⟩
  have hlabels : reachedLabels c.newId.2 l s₁ = l :: c.labelsOf (c.others s) := by
    rw [reachedLabels, askedLabels_turns hmember hfirst]
    rfl
  rw [← hlabels] at hl'
  exact (hdone hr hc₁ l' hl').turns hlast

end Cluster
end DataGrid
