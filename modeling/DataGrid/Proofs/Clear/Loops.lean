import DataGrid.Proofs.Clear.Ensures

/-
The loops of a coordinator keep every relation that their single steps keep: to
wait for primaries, to clear until nobody leaves, and to send until every
recipient replies. What the steps are is said by `Site.Allows` and
`Surroundings.Allows`. What the steps attain the loops attain (`Attains`).
-/

namespace DataGrid

open Coordinator

variable {σ β τ : Type} {R : Scene σ → List Effect → Scene σ → Prop}

/-! ## The clear lock of the member -/

section

variable {site : Site σ β} (hR : Chained R)

include hR

theorem Keeps.obtainLocal {m : Member}
    (htakes : Keeps R (alter fun k => { k with lock := k.lock.lockFor m } : Act σ Unit))
    (hlocks : ∀ b, Keeps R (call (.bucketLocked (site.bucketId b) m) fun s =>
      (site.lockBucket b m s).map ((), ·))) : Keeps R (Coordinator.obtainLocal site m) := by
  refine .get_bind fun s => .ite (fun _ => .bind hR htakes fun _ => ?_) fun _ => .pure hR _
  cases site.buckets s.outside with
  | none => exact .pure hR _
  | some buckets => exact .forM hR _ fun b _ => hlocks b

theorem Keeps.releaseLocal
    (hfrees : Keeps R (alter fun k => { k with lock := k.lock.unlock.2 } : Act σ Unit))
    (hreleases : ∀ b, Keeps R (perform (.bucketReleased (site.bucketId b)) (site.releaseBucket b))) :
    Keeps R (Coordinator.releaseLocal site) := by
  refine .get_bind fun s => .ite (fun _ => ?_) fun _ => .pure hR _
  cases site.buckets s.outside with
  | none => exact hfrees
  | some buckets => exact .bind hR (.forM hR _ fun b _ => hreleases b) fun _ => hfrees

theorem Keeps.memberDeparted {m : Member} (hnotes : Keeps R (note (.memberLeft m) : Act σ Unit))
    (hchanges : Keeps R (alter fun k => { k with membershipChanged := true } : Act σ Unit))
    (hreleases : Keeps R (Coordinator.releaseLocal site)) :
    Keeps R (Coordinator.memberDeparted site m) :=
  .bind hR hnotes fun _ => .bind hR hchanges fun _ =>
    .get_bind fun _ => .ite (fun _ => hreleases) fun _ => .pure hR _

end

/-! ## What the steps are -/

/-- The steps of making passes over the local buckets keep the relation. -/
structure Site.Sweeps (site : Site σ β) (R : Scene σ → List Effect → Scene σ → Prop) : Prop where
  chained : Chained R
  polls : ∀ b, Keeps R
    (consult site (.bucketPolled (site.bucketId b)) fun s => some (site.hasPrimary b s))
  clears : Keeps R (clearPrimaries site).run
  looksAway : Keeps R (alter ({ · with membershipChanged := false }) : Act σ Unit)

/-- The steps of a local clear keep the relation. -/
structure Site.Allows (site : Site σ β) (R : Scene σ → List Effect → Scene σ → Prop) : Prop
    extends site.Sweeps R where
  tellsClients : ∀ e, Keeps R
    (consult site (.clientsTold e) fun s => some ((), site.tellClients e s))
  tellsListeners : ∀ e, Keeps R
    (consult site (.listenersTold e) fun s => some ((), site.tellListeners e s))

/-- The steps of sending a message that asks for something keep the relation. -/
structure Surroundings.Allows (sur : Surroundings σ β) (operation : ClearOperation)
    (R : Scene σ → List Effect → Scene σ → Prop) : Prop where
  chained : Chained R
  takesId : ∀ s, R s [] { s with outside := (sur.newId s.outside).2 }
  sends : ∀ message members, message.operation = operation → Keeps R
    (tryTo sur.toSite (.sent message members) (sur.send message members)).run

namespace Site.Sweeps

variable {site : Site σ β} (h : site.Sweeps R)

include h

theorem allHavePrimary : ∀ l, Keeps R (allHavePrimary site l)
  | [] => .pure h.chained true
  | b :: r => by
    refine .bind h.chained (h.polls b) fun found => ?_
    cases found with
    | true => exact allHavePrimary r
    | false => exact .pure h.chained false

theorem awaitPrimaries (timer : RetryTimer τ) :
    ∀ rounds t, Keeps R (awaitPrimaries site timer rounds t)
  | 0, _ => .failure
  | rounds + 1, t => by
    refine .get_bind fun s => ?_
    cases site.buckets s.outside with
    | none => exact .pure h.chained _
    | some buckets =>
      refine .bind h.chained (h.allHavePrimary buckets.all) fun found => ?_
      cases found with
      | true => exact .pure h.chained _
      | false =>
        simp only [Bool.false_eq_true, if_false]
        split
        · exact .pure h.chained _
        · exact awaitPrimaries timer rounds (timer.pause t)

theorem waitForPrimaries (timer : RetryTimer τ) (rounds : Nat) (t : τ) :
    Keeps R (waitForPrimaries site timer rounds t).run := by
  refine .attempt h.chained (.sure (h.awaitPrimaries timer rounds t)) fun r => ?_
  obtain ⟨found, t'⟩ := r
  cases found with
  | true => exact .done h.chained t'
  | false => exact .thrown h.chained _

theorem clearPass (rounds : Nat) : Keeps R (clearPass site rounds).run :=
  .get_attempt fun _ => .attempt h.chained (h.waitForPrimaries _ _ _) fun _ => h.clears

theorem takeMembershipChange : Keeps R (takeMembershipChange : Act σ Bool) :=
  .get_bind fun _ => .bind h.chained h.looksAway fun _ => .pure h.chained _

theorem clearUntilStable (rounds : Nat) :
    ∀ passes, Keeps R (clearUntilStable site rounds passes).run
  | 0 => .sure .failure
  | passes + 1 => by
    refine .attempt h.chained (h.clearPass rounds) fun ids =>
      .attempt h.chained (.sure h.takeMembershipChange) fun changed => ?_
    cases changed with
    | true => exact .attempt h.chained (clearUntilStable rounds passes) fun _ => .done h.chained _
    | false => exact .done h.chained _

end Site.Sweeps

namespace Site.Allows

variable {site : Site σ β} (h : site.Allows R)

include h

theorem tellAfterClear (event : RegionEvent) : Keeps R (tellAfterClear site event) := by
  have hlisteners : Keeps R (do
      if site.hasListener (← get).outside then
        consult site (.listenersTold event) fun s => some ((), site.tellListeners event s)) :=
    .get_bind fun _ => .ite (fun _ => h.tellsListeners event) fun _ => .pure h.chained _
  exact .get_bind fun _ => .ite
    (fun _ => .bind h.chained (h.tellsClients _) fun _ => hlisteners) fun _ => hlisteners

section

variable {P : Scene σ → Scene σ → Prop} (hP : Lasting R P) (hclears : Attains R P (clearPrimaries site))

include hP hclears

theorem attains_clearPass (rounds : Nat) : Attains R P (Coordinator.clearPass site rounds) :=
  .get_attempt fun _ => .after h.chained hP (h.waitForPrimaries _ _ _) fun _ => hclears

/-- What the first pass attains lasts. -/
theorem attains_clearUntilStable (rounds : Nat) :
    ∀ passes, Attains R P (Coordinator.clearUntilStable site rounds passes)
  | 0 => .failure
  | passes + 1 => by
    refine .before h.chained hP (h.attains_clearPass hP hclears rounds) fun ids =>
      .attempt h.chained (.sure h.takeMembershipChange) fun changed => ?_
    cases changed with
    | true => exact .attempt h.chained (h.clearUntilStable rounds passes) fun _ => .done h.chained _
    | false => exact .done h.chained _

theorem attains_clearLocal (hnone : ∀ s, site.buckets s.outside = none → P s s)
    (hlock : Keeps R (consult site .creationLocked fun s => (site.lockCreation s).map ((), ·)))
    (hunlock : Keeps R (consult site .creationUnlocked fun s => some ((), site.unlockCreation s)))
    (rounds : Nat) (event : RegionEvent) : Attains R P (clearLocal site rounds event) := by
  have htell := h.tellAfterClear event
  refine .after h.chained hP (.sure h.looksAway) fun _ s => .get_attempt ?_
  cases hbuckets : site.buckets s.outside with
  | none =>
    refine (Keeps.attempt h.chained (.sure htell) (fun _ => .done h.chained _) s).mono ?_
    exact fun _ _ _ hR => ⟨hR, fun _ => hP.before (h.chained.refl s) (hnone s hbuckets) hR⟩
  | some buckets =>
    have hcleared : Attains R P (do
        let cleared ← (Coordinator.clearUntilStable site rounds rounds).outcome
        sure (consult site .creationUnlocked fun s => some ((), site.unlockCreation s))
        let ids ← MonadExcept.ofExcept cleared
        sure (Coordinator.tellAfterClear site event)
        return ids) := fun s => by
      refine .attempt (.outcome ((h.attains_clearUntilStable hP hclears rounds rounds s).mono
        fun cleared es s₁ ⟨hR, hdone⟩ => ?_))
      refine .attempt (.sure ((hunlock s₁).mono fun _ es' s₂ hR' => ?_))
      cases cleared with
      | error e => exact .attempt (.thrown e ⟨by simpa using h.chained.trans hR hR', nofun⟩)
      | ok ids =>
        refine (Keeps.attempt h.chained (.sure htell) (fun _ => .done h.chained ids) s₂).mono
          fun _ es'' s₃ hR'' => ?_
        have hrest := h.chained.trans hR' hR''
        exact ⟨h.chained.trans hR hrest, fun _ => hP.before hR (hdone rfl) hrest⟩
    exact Attains.after h.chained hP (.sure hlock) (fun _ => hcleared) s

end

end Site.Allows

/-- A broadcast, with what to do when a recipient leaves before it replies. -/
def Coordinator.broadcastElse (sur : Surroundings σ β) (event : RegionEvent)
    (operation : ClearOperation) (whenDeparted : Member → Attempt σ (List Nat)) :
    Attempt σ (List Nat) := do
  match ← Coordinator.broadcast sur event operation with
  | .replied ids => return ids
  | .departed first => whenDeparted first

section

variable {sur : Surroundings σ β} {operation : ClearOperation} {event : RegionEvent}
  (hR : Chained R) (hbroadcast : Keeps R (broadcast sur event operation).run)

include hR hbroadcast

theorem keeps_sendOnce {whenDeparted : Member → Attempt σ (List Nat)}
    (hdeparted : ∀ m, Keeps R (whenDeparted m).run) :
    Keeps R (sendOnce sur event operation whenDeparted).run := by
  have hsend : Keeps R (broadcastElse sur event operation whenDeparted).run := by
    refine .attempt hR hbroadcast fun answer => ?_
    cases answer with
    | replied ids => exact .done hR ids
    | departed first => exact hdeparted first
  refine .get_attempt fun s => ?_
  cases sur.isCancelled s.outside with
  | true => exact .attempt hR (.thrown hR _) fun _ => hsend
  | false => exact hsend

theorem keeps_sendRepeatedly :
    ∀ further, Keeps R (sendRepeatedly sur event operation further).run
  | 0 => keeps_sendOnce hR hbroadcast fun _ => .thrown hR _
  | further + 1 => keeps_sendOnce hR hbroadcast fun _ => keeps_sendRepeatedly further

/-- However often a message is sent, it is broadcast. -/
theorem keeps_send : Keeps R (send sur event operation).run :=
  .get_attempt fun _ => keeps_sendRepeatedly hR hbroadcast _

end

/-- A broadcast keeps what is kept by its sending to whoever is asked. -/
theorem keeps_broadcast {sur : Surroundings σ β} {operation : ClearOperation} {event : RegionEvent}
    (hR : Chained R)
    (hsend : ∀ (s : Scene σ) (message : ClearMessage), message.operation = operation →
      Ensures (tryTo sur.toSite (.sent message (recipients sur s))
          (sur.send message (recipients sur s))).run
        { s with outside := (sur.newId s.outside).2 } fun _ es s' => R s es s') :
    Keeps R (broadcast sur event operation).run := fun s => by
  have hasked := hsend s
  refine .get_attempt ?_
  cases hto : recipients sur s with
  | nil => exact .done _ (hR.refl s)
  | cons m members =>
    rw [hto] at hasked
    refine .attempt (.sure ((Ensures.outside _).mono ?_))
    rintro - _ _ ⟨rfl, rfl⟩
    refine .attempt ((hasked _ rfl).mono fun r es s₁ hes => ?_)
    cases r with
    | error e => exact hes
    | ok collector =>
      refine .chain hR hes (Keeps.attempt hR (.ofExcept hR _) (fun outcome => ?_) s₁)
      cases outcome.departed with
      | nil => exact .attempt hR (.ofExcept hR _) fun _ => .done hR _
      | cons first rest => exact .done hR _

namespace Surroundings.Allows

variable {sur : Surroundings σ β} {operation : ClearOperation} (h : sur.Allows operation R)

include h

theorem broadcast (event : RegionEvent) : Keeps R (broadcast sur event operation).run :=
  keeps_broadcast h.chained fun s message hop =>
    (h.sends message _ hop _).mono fun _ _ _ hes => h.chained.trans (h.takesId s) hes

theorem send (event : RegionEvent) :
    Keeps R (Coordinator.send sur event operation).run :=
  keeps_send h.chained (h.broadcast event)

section

variable {P : Scene σ → Scene σ → Prop} (hP : Lasting R P) {event : RegionEvent}
  (hreplied : ∀ s, Ensures (Coordinator.broadcast sur event operation).run s fun r es s' =>
    R s es s' ∧ ∀ ids, r = .ok (.replied ids) → P s s')

include hP hreplied

theorem attains_sendOnce {whenDeparted : Member → Attempt σ (List Nat)}
    (hdeparted : ∀ m, Attains R P (whenDeparted m)) :
    Attains R P (Coordinator.sendOnce sur event operation whenDeparted) := by
  have hsend : Attains R P (Coordinator.broadcastElse sur event operation whenDeparted) :=
    fun s => by
    refine .attempt ((hreplied s).mono fun r es s₁ hanswer => ?_)
    obtain ⟨hR, hdone⟩ := hanswer
    cases r with
    | error e => exact ⟨hR, fun hr => by cases hr⟩
    | ok answer =>
      cases answer with
      | replied ids => exact .done ids ⟨by simpa using hR, fun _ => hdone ids rfl⟩
      | departed first =>
        exact (hdeparted first s₁).mono fun _ _ _ hrest =>
          ⟨h.chained.trans hR hrest.1, fun hr => hP.after hR (hrest.2 hr)⟩
  refine .get_attempt fun s => ?_
  cases sur.isCancelled s.outside with
  | true => exact .before h.chained hP (.thrown h.chained _) fun _ => hsend.keeps
  | false => exact hsend

theorem attains_sendRepeatedly :
    ∀ further, Attains R P (Coordinator.sendRepeatedly sur event operation further)
  | 0 => h.attains_sendOnce hP hreplied fun _ => .thrown h.chained _
  | further + 1 => h.attains_sendOnce hP hreplied fun _ => attains_sendRepeatedly further

/-- What is attained whenever all reply is attained by sending again and again. -/
theorem attains_send : Attains R P (Coordinator.send sur event operation) :=
  .get_attempt fun _ => h.attains_sendRepeatedly hP hreplied _

end

end Surroundings.Allows
end DataGrid
