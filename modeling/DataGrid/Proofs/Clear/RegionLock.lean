import DataGrid.Clear.Rehearsal
import DataGrid.Proofs.Clear.Custody
import DataGrid.Proofs.Clear.Kinds
import DataGrid.Proofs.Clear.Release

/-
A clear of the whole region asks for the lock of the region first. Without it
nothing is done. With it the lock is given up once, and last, however the clear
ends. The clear lock of the member itself is free again too, and the buckets
that its store goes on listing are released. A bucket that the store ceases to
list stays locked, and so does another member once the channel is cancelled.
-/

namespace DataGrid.Coordinator

variable {σ β : Type} {sur : Surroundings σ β} {s s₁ s' : Scene σ} {es : List Effect}

/-- The failure of a clear that did not get the lock of the region. -/
def lockFailure : LockError → ClearError
  | .timeout name => .lockTimeout name
  | e => .membership e

/-- The answer of the lock service for the lock of the region, were it asked now. -/
def lockAnswer (sur : Surroundings σ β) (s : Scene σ) : Option (Except LockError Unit × σ) :=
  let config := s.coordinator.config
  sur.lock (lockName sur.region) config.lockWaitMs config.lockLeaseMs s.outside

/-- The request for the lock of the region. -/
def lockRequest (sur : Surroundings σ β) (s : Scene σ) : Effect :=
  .lockAsked (lockName sur.region) s.coordinator.config.lockWaitMs s.coordinator.config.lockLeaseMs

/-- Nothing that is asked of anyone else. -/
def IsInternal : Effect → Prop
  | .advanced .. | .memberLeft _ | .bucketReleased _ => True
  | _ => False

theorem internal_of_reaction {e : Effect} (h : e.isReaction = true) : IsInternal e := by
  cases e <;> trivial

theorem plain_of_internal {e : Effect} (h : IsInternal e) : e.isLocking = false := by
  cases e <;> first | rfl | exact h.elim

/-! ## Taking and giving up the lock of the region -/

theorem ensures_acquireLock (s : Scene σ) :
    Ensures (acquireLock sur (lockName sur.region)).run s fun r es s' => ∃ answer o es',
      lockAnswer sur s = some (answer, o) ∧ r = answer.mapError lockFailure ∧
        es = lockRequest sur s :: es' ∧ Orderly sur (·.isReaction = true) s es' s' := by
  refine .get_attempt (.attempt (.sure ((ensures_consult fun b P hr o _ o' hP hf => ?_).mono ?_)))
  · exact hr.lock _ _ _ o _ o' hP hf
  · rintro answer _ s₁ ⟨⟨o, hans⟩, es', rfl, h⟩
    cases answer with
    | ok _ => exact .done _ ⟨_, o, es', hans, rfl, by simp; rfl, h⟩
    | error e =>
      cases e with
      | timeout name => exact .thrown _ ⟨_, o, es', hans, rfl, by simp; rfl, h⟩
      | _ => exact .thrown _ ⟨_, o, es', hans, rfl, by simp; rfl, h⟩

theorem comes_acquireLock {answer : Except LockError Unit} {o : σ}
    (h : lockAnswer sur s = some (answer, o)) :
    Comes (acquireLock sur (lockName sur.region)).run s fun r _ _ =>
      r = answer.mapError lockFailure := by
  refine .get_attempt (.attempt (.sure ((comes_consult h).mono ?_)))
  intro a _ s₁ ha
  subst ha
  cases a with
  | ok _ => exact .done _ rfl
  | error e =>
    cases e with
    | timeout name => exact .thrown _ rfl
    | _ => exact .thrown _ rfl

theorem comes_releaseLock (name : String) (s : Scene σ) :
    Comes (releaseLock sur name).run s fun _ es s' => ∃ es', es = .unlocked name :: es' ∧
      Orderly sur (·.isReaction = true) s es' s' := by
  refine ((comes_consult rfl).ensured (ensures_consult fun b P hr o r o' hP hf => ?_)).mono
    fun _ _ _ h => h.2.2
  have ho : (sur.unlock name o).2 = o' := congrArg Prod.snd (Option.some.inj hf)
  exact ho ▸ hr.unlock name o hP

/-! ## The whole clear -/

variable (sur) in
theorem comes_advanceIf (b : Bool) (next : ClearPhase) (s : Scene σ) :
    Comes (if b then sure (advance next) else pure () : Attempt σ Unit).run s fun r es s' =>
      r = .ok () ∧ Orderly sur IsInternal s es s' := by
  cases b with
  | false => exact .done _ ⟨rfl, .refl s⟩
  | true =>
    refine .sure ((comes_advance next).mono ?_)
    rintro - _ _ ⟨rfl, rfl⟩
    exact ⟨rfl, orderly_advanced s fun _ => trivial⟩

variable (sur) in
/-- A clear ends with a phase, and an answer or a failure. -/
theorem comes_conclude (next : ClearPhase) (r : Except ClearError (List Nat)) (s : Scene σ) :
    Comes (do sure (advance next); MonadExcept.ofExcept r : Attempt σ (List Nat)).run s
      fun r' es s' => r' = r ∧ Orderly sur IsInternal s es s' := by
  refine .attempt (.sure ((comes_advance next).mono ?_))
  rintro - _ _ ⟨rfl, rfl⟩
  have hend : Orderly sur IsInternal s [.advanced s.coordinator.phase next] (advanced s next) :=
    orderly_advanced s fun _ => trivial
  cases r with
  | ok ids => exact .done ids ⟨rfl, hend⟩
  | error e => exact .thrown e ⟨rfl, hend⟩

/-- The lock of the region is given up once, after whatever was done under it, and nothing is
asked of anyone after that. -/
def Closes (sur : Surroundings σ β) (s : Scene σ) (es : List Effect) (s' : Scene σ) : Prop :=
  ∃ before after s₁, es = before ++ .unlocked (lockName sur.region) :: after ∧
    Held sur s before s₁ ∧ Orderly sur IsInternal s₁ after s'

variable (sur) in
theorem ensures_doClear (rounds : Nat) (event : RegionEvent) (cacheWrite : Bool) (s : Scene σ) :
    Ensures (doClear sur rounds event cacheWrite).run s fun r es s' =>
      (∃ e o, lockAnswer sur s = some (.error e, o) ∧ r = .error (lockFailure e) ∧
        Orderly sur (fun x => IsInternal x ∨ x = lockRequest sur s) s es s') ∨
      ∃ o, lockAnswer sur s = some (.ok (), o) ∧ Closes sur s es s' := by
  unfold doClear
  refine .attempt (.sure ((comes_advance .idle).ensures.mono ?_))
  rintro - _ _ ⟨rfl, rfl⟩
  refine .attempt ((ensures_acquireLock _).mono ?_)
  rintro _ _ s₁ ⟨answer, o, es₁, hans, rfl, rfl, h₁⟩
  have hfirst : ∀ {kind : Effect → Prop}, (∀ e, IsInternal e → kind e) →
      kind (lockRequest sur s) → Orderly sur kind s
        (.advanced s.coordinator.phase .idle :: lockRequest sur s :: es₁) s₁ := fun hk hr =>
    (orderly_advanced s fun _ => hk _ trivial).trans
      ((h₁.mono fun e he => hk e (internal_of_reaction he)).cons hr nofun)
  cases answer with
  | error e =>
    exact .inl ⟨e, o, hans, rfl, hfirst (fun _ => .inl) (.inr rfl)⟩
  | ok _ =>
    refine Ensures.mono (Q := fun _ es s' => Closes sur s₁ es s') ?_ fun r es s' h => ?_
    · refine .attempt (.sure ((comes_advance .lockAcquired).ensures.mono ?_))
      rintro - _ _ ⟨rfl, rfl⟩
      refine .attempt (.outcome ((ensures_clearWhileLocked rounds event cacheWrite _).mono
        fun cleared es₂ s₂ h₂ => ?_))
      refine .get_attempt (.optional (.attempt ((comes_advanceIf sur _ _ s₂).ensures.mono ?_)))
      rintro _ es₃ s₃ ⟨rfl, h₃⟩
      have hheld := (h₂.before (h₃.mono fun _ => plain_of_internal)).after
        (orderly_advanced s₁ fun _ => rfl)
      refine .attempt (.outcome ((comes_releaseLock _ s₃).ensures.mono ?_))
      rintro released _ s₄ ⟨es₄, rfl, h₄⟩
      refine Ensures.mono (Q := fun _ es s' => Orderly sur IsInternal s₄ es s') ?_
        fun _ es₅ s₅ h₅ => ⟨_, es₄ ++ es₅, s₃, by simp, hheld,
          (h₄.mono fun _ => internal_of_reaction).trans h₅⟩
      refine .get_attempt (.optional (.attempt ((comes_advanceIf sur _ _ s₄).ensures.mono ?_)))
      rintro _ es₅ s₅ ⟨rfl, h₅⟩
      refine .chain Orderly.chained h₅ ?_
      have hend : ∀ next r, Ensures (do
          sure (advance next); MonadExcept.ofExcept r : Attempt σ (List Nat)).run s₅
            fun _ es s' => Orderly sur IsInternal s₅ es s' := fun next r =>
        (comes_conclude sur next r s₅).ensures.mono fun _ _ _ h => h.2
      cases cleared with
      | error e => exact hend .partialFailure (.error e)
      | ok ids =>
        cases released with
        | error e => exact hend .partialFailure (.error e)
        | ok _ =>
          cases hcover : coversRegion sur ids with
          | true =>
            simp only [hcover, if_true]
            exact hend .done (.ok ids)
          | false =>
            simp only [hcover, Bool.false_eq_true, if_false]
            exact hend .partialFailure (.error _)
    · obtain ⟨before, after, s₂, rfl, hheld, hafter⟩ := h
      refine .inr ⟨o, hans, _ :: lockRequest sur s :: es₁ ++ before, after, s₂, by simp; rfl,
        .after (hfirst (fun _ => plain_of_internal) rfl) hheld, hafter⟩

theorem comes_doClear_refused {e : LockError} {o : σ} (rounds : Nat) (event : RegionEvent)
    (cacheWrite : Bool) (h : lockAnswer sur s = some (.error e, o)) :
    Comes (doClear sur rounds event cacheWrite).run s fun r _ _ => r = .error (lockFailure e) := by
  unfold doClear
  refine .attempt (.sure ((comes_advance .idle).mono ?_))
  rintro - _ _ ⟨rfl, rfl⟩
  have hacquired : Comes (acquireLock sur (lockName sur.region)).run (advanced s .idle)
      fun r _ _ => r = .error (lockFailure e) := comes_acquireLock (s := advanced s .idle) h
  refine .attempt (hacquired.mono ?_)
  rintro _ _ _ rfl
  rfl

/-! ## A veto -/

/-- No bucket is cleared, and nothing is sent. -/
def Spares : Effect → Prop
  | .bucketCleared _ | .sent .. => False
  | _ => True

theorem spares_of_internal {e : Effect} (h : IsInternal e) : Spares e := by
  cases e <;> trivial

/-- What a clear does until it holds the lock of the region. -/
def takeRegionLock (sur : Surroundings σ β) : Attempt σ Unit := do
  sure (advance .idle)
  acquireLock sur (lockName sur.region)
  sure (advance .lockAcquired)

theorem comes_clearWhileLocked_vetoed {e : ClearError} (rounds : Nat) (event : RegionEvent)
    (h : (sur.askWriter event s.outside).1 = .error e) :
    Comes (clearWhileLocked sur rounds event true).run s fun r es s' =>
      r = .error e ∧ Orderly sur Spares s es s' := by
  have hasked : Comes (askWriter sur event).run s fun r _ _ =>
      r = (sur.askWriter event s.outside).1 := comes_consult rfl
  have hspared : Keeps (Orderly sur Spares) (askWriter sur event).run :=
    keeps_consult trivial nofun (fun _ h => spares_of_internal (internal_of_reaction h))
      fun b P hr o _ o' hP hf => by
        have ho : (sur.askWriter event o).2 = o' := congrArg Prod.snd (Option.some.inj hf)
        exact ho ▸ hr.askWriter event o hP
  unfold clearWhileLocked
  refine .attempt ((hasked.ensured (hspared s)).mono ?_)
  rintro _ es s' ⟨rfl, hes⟩
  rw [h]
  exact ⟨rfl, hes⟩

theorem comes_doClear_vetoed {e : ClearError} (rounds : Nat) (event : RegionEvent)
    (hlocked : (takeRegionLock sur).run.run s = some (.ok (), s₁))
    (h : (sur.askWriter event s₁.outside).1 = .error e) :
    Comes (doClear sur rounds event true).run s fun r es s' =>
      r = .error e ∧ Orderly sur Spares s es s' := by
  have hadvance : ∀ next, Keeps (Orderly sur Spares) (sure (advance next) : Attempt σ Unit).run :=
    fun next => .sure (keeps_advance fun _ => trivial)
  have hreaction : ∀ e : Effect, e.isReaction = true → Spares e := fun _ h =>
    spares_of_internal (internal_of_reaction h)
  obtain ⟨_, sa, hidle, hlocked⟩ := Attempt.run_bind_ok hlocked
  obtain ⟨_, sb, hacquired, hlocked⟩ := Attempt.run_bind_ok hlocked
  unfold doClear
  refine .attempt ((Comes.of_run hidle (hadvance _ s)).mono ?_)
  rintro _ es₀ s₀ ⟨rfl, rfl, h₀⟩
  refine .attempt ((Comes.of_run hacquired (ensures_acquireLock _)).mono ?_)
  rintro _ _ s₂ ⟨rfl, rfl, answer, o, es₁, -, -, rfl, h₁⟩
  refine .attempt ((Comes.of_run hlocked (hadvance _ _)).mono ?_)
  rintro _ es₂ s₃ ⟨rfl, rfl, h₂⟩
  refine .attempt (.outcome ((comes_clearWhileLocked_vetoed rounds event h).mono ?_))
  rintro _ es₃ s₄ ⟨rfl, h₃⟩
  refine .get_attempt (.optional (.attempt ((comes_advanceIf sur _ _ s₄).mono ?_)))
  rintro _ es₄ s₅ ⟨rfl, h₄⟩
  refine .attempt (.outcome ((comes_releaseLock _ s₅).mono ?_))
  rintro released _ s₆ ⟨es₅, rfl, h₅⟩
  refine .get_attempt (.optional (.attempt ((comes_advanceIf sur _ _ s₆).mono ?_)))
  rintro _ es₆ s₇ ⟨rfl, h₆⟩
  refine (comes_conclude sur .partialFailure (.error e) s₇).mono ?_
  rintro _ es₇ s' ⟨rfl, h₇⟩
  have hlock : Orderly sur Spares s₀ (lockRequest sur s₀ :: es₁) s₂ :=
    (h₁.mono hreaction).cons trivial nofun
  have hunlock : Orderly sur Spares s₅ (.unlocked (lockName sur.region) :: es₅) s₆ :=
    (h₅.mono hreaction).cons trivial nofun
  have hend : Orderly sur Spares s₆ (es₆ ++ es₇) s' :=
    (h₆.trans h₇).mono fun _ => spares_of_internal
  have hfailed : Orderly sur Spares s₄ es₄ s₅ := h₄.mono fun _ => spares_of_internal
  exact ⟨rfl, h₀.trans (hlock.trans (h₂.trans (h₃.trans (hfailed.trans (hunlock.trans hend)))))⟩

/-! ## No lock is left behind -/

theorem Closes.balanced (h : Closes sur s es s') : Balanced es := by
  obtain ⟨before, after, s₁, rfl, hheld, hafter⟩ := h
  have hnone : (.unlocked (lockName sur.region) :: after).filter Effect.isCreation = [] := by
    have hplain : ∀ e ∈ after, e.isLocking = false :=
      fun e he => plain_of_internal (hafter.only e he)
    rw [List.filter_cons_of_neg (by exact Bool.false_ne_true), creation_plain hplain]
  simpa only [Balanced, List.filter_append, hnone, List.append_nil] using hheld.balanced

theorem Closes.frees (h : Closes sur s es s') (hfree : s.coordinator.lock = {}) :
    s'.coordinator.lock = {} ∧
      ∀ b P, sur.Retains b P → P s.outside → ReleasedAfter (sur.bucketId b) es := by
  obtain ⟨before, after, s₁, rfl, hheld, hafter⟩ := h
  obtain ⟨hmid, hreleased⟩ := hheld.frees hfree
  refine ⟨(hafter.free hmid).1, fun b P hr hP => .append (hreleased b P hr hP)
    (.of_unlocked fun m hm => ?_)⟩
  rcases List.mem_cons.1 hm with he | hm
  · cases he
  · exact hafter.only _ hm

/-- A clear that did not get the lock of the region says why, and has done nothing. One that got
it gives it up once, when all else is done. One that the cache writer does not let pass clears no
bucket and sends nothing. In any case the creation of buckets is unlocked as often as it is locked,
and a clear lock that was free before is free again, with every local bucket locked for it
released that the member goes on listing. -/
theorem doClear_releases (sur : Surroundings σ β) (rounds : Nat) (event : RegionEvent)
    (cacheWrite : Bool) (start : Scene σ) :
    (∀ e o, lockAnswer sur start = some (.error e, o) →
      Comes (doClear sur rounds event cacheWrite).run start fun r es _ =>
        r = .error (lockFailure e) ∧ ∀ x ∈ es, IsInternal x ∨ x = lockRequest sur start) ∧
    (∀ o, lockAnswer sur start = some (.ok (), o) →
      Ensures (doClear sur rounds event cacheWrite).run start fun _ es _ => ∃ before after,
        es = before ++ .unlocked (lockName sur.region) :: after ∧
          (∀ name, .unlocked name ∉ before) ∧ (∀ x ∈ after, IsInternal x) ∧
            (start.coordinator.lock = {} → ∀ id, .bucketReleased id ∉ after)) ∧
    (∀ e s, cacheWrite = true → (takeRegionLock sur).run.run start = some (.ok (), s) →
      (sur.askWriter event s.outside).1 = .error e →
      Comes (doClear sur rounds event cacheWrite).run start fun r es _ =>
        r = .error e ∧ ∀ x ∈ es, Spares x) ∧
    Ensures (doClear sur rounds event cacheWrite).run start fun _ es stop =>
      Balanced es ∧ (start.coordinator.lock = {} → stop.coordinator.lock = {} ∧
        ∀ b P, sur.Retains b P → P start.outside → ReleasedAfter (sur.bucketId b) es) := by
  have hdone := ensures_doClear sur rounds event cacheWrite start
  refine ⟨fun e o hans => ?refused, fun o hans => ?granted, fun e s hwrite hlocked hveto => ?vetoed,
    ?released⟩
  case refused =>
    refine ((comes_doClear_refused rounds event cacheWrite hans).ensured hdone).mono ?_
    rintro _ es s' ⟨rfl, ⟨e', o', hans', -, h⟩ | ⟨o', hans', -⟩⟩
    · exact ⟨rfl, h.only⟩
    · rw [hans] at hans'
      cases hans'
  case granted =>
    refine hdone.mono ?_
    rintro _ es s' (⟨e', o', hans', -⟩ | ⟨o', -, before, after, s₁, hes, hheld, hafter⟩)
    · rw [hans] at hans'
      cases hans'
    · exact ⟨before, after, hes, hheld.keeps, hafter.only, fun hfree =>
        (hafter.free (hheld.frees hfree).1).2⟩
  case vetoed =>
    subst hwrite
    refine (comes_doClear_vetoed rounds event hlocked hveto).mono ?_
    rintro _ es s' ⟨rfl, h⟩
    exact ⟨rfl, h.only⟩
  case released =>
    -- without the lock nothing was locked, and with it all was released before it was given up
    refine hdone.mono ?_
    rintro _ es s' (⟨e', o', -, -, h⟩ | ⟨o', -, h⟩)
    · have hplain : ∀ x ∈ es, x.isLocking = false := fun x hx => by
        rcases h.only x hx with hi | rfl
        · exact plain_of_internal hi
        · rfl
      refine ⟨.inl (creation_plain hplain), fun hfree => ⟨(h.free hfree).1, fun _ _ _ _ =>
        .of_unlocked fun m hm => ?_⟩⟩
      cases hplain _ hm
    · exact ⟨h.balanced, h.frees⟩

end DataGrid.Coordinator

/-! ## Rehearsals -/

namespace DataGrid.Rehearsal

open Coordinator

/-- How many buckets are local, if the member stores data. -/
def count (r : Rehearsal) : Option Nat := r.buckets.map List.length

@[simp] theorem count_modifyBucket (r : Rehearsal) (i : Nat)
    (f : RehearsedBucket → RehearsedBucket) : (r.modifyBucket i f).count = r.count := by
  cases hb : r.buckets <;> simp [count, modifyBucket, hb]

@[simp] theorem count_depart (r : Rehearsal) (m : Member) : (r.depart m).count = r.count := rfl

theorem count_poll (r : Rehearsal) (i : Nat) : (r.poll i).2.count = r.count := by
  unfold poll
  split
  · rfl
  · simp

theorem count_clearBucket (r : Rehearsal) (i : Nat) : (r.clearBucket i).count = r.count := by
  unfold clearBucket
  split
  · rfl
  · split <;> simp

theorem count_takeReply (r : Rehearsal) (m : Member) : (r.takeReply m).2.count = r.count := by
  unfold takeReply
  split <;> rfl

theorem count_deliver (message : ClearMessage) (acc : Collector × Rehearsal) (m : Member) :
    (deliver message acc m).2.count = acc.2.count := by
  obtain ⟨c, r⟩ := acc
  have htaken := count_takeReply r m
  simp only [deliver]
  split <;> rename_i h <;> rw [h] at htaken <;> exact htaken

theorem count_send (message : ClearMessage) (recipients : List Member) (r : Rehearsal) :
    (r.send message recipients).2.count = r.count := by
  have hall : ∀ (l : List Member) acc, (l.foldl (deliver message) acc).2.count = acc.2.count := by
    intro l
    induction l with
    | nil => exact fun _ => rfl
    | cons m l ih => exact fun acc => (ih _).trans (count_deliver message acc m)
  unfold send
  split
  · rfl
  · exact hall recipients _

/-- A local bucket of a rehearsal stays local. -/
theorem retains (start : Rehearsal) (i : Nat) :
    start.surroundings.Retains i fun r => ∃ n, r.count = some n ∧ i < n where
  listed r hr := by
    obtain ⟨n, hn, hi⟩ := hr
    obtain ⟨l, hl, rfl⟩ := Option.map_eq_some_iff.1 hn
    refine ⟨⟨numbers l fun _ => true, numbers l (·.isPrimary)⟩, ?_, ?_⟩
    · simp only [surroundings, localBuckets, hl, Option.map_some]
    · exact List.mem_map.2 ⟨(l[i], i), List.mem_filter.2
        ⟨List.mem_zipIdx_iff_getElem?.2 (List.getElem?_eq_getElem hi), rfl⟩, rfl⟩
  hasPrimary i r hr := by simpa only [surroundings, count_poll] using hr
  clearBucket i r hr := by simpa only [surroundings, count_clearBucket] using hr
  lockBucket i m r r' hr h := by
    cases h
    simpa using hr
  releaseBucket i r hr := by simpa [surroundings] using hr
  lockCreation r r' hr h := by
    cases h
    exact hr
  unlockCreation _ hr := hr
  tellListeners _ _ hr := hr
  tellClients _ _ hr := hr
  departures _ hr := hr
  lock name wait lease r a r' hr h := by
    cases h
    exact hr
  unlock _ _ hr := hr
  askWriter _ _ hr := hr
  assignPrimaries _ hr := hr
  newId _ hr := hr
  send message members r hr := by simpa only [surroundings, count_send] using hr

/-- A member alone, with one bucket and a listener, whose primaries cannot be assigned. -/
def unassigned : Scene Rehearsal :=
  let member : Member := { address := .localhost, port := 1 }
  { coordinator := { member, config := {} }
    outside :=
      { region := "/orders"
        totalBuckets := 1
        current := .ofList [member]
        buckets := some [{ id := 7 }]
        hasListener := true
        assignError := some .cancelled } }

def clearUnassigned : Act Rehearsal (Except ClearError (List Nat)) :=
  (doClear unassigned.outside.surroundings 1
    (.clear ⟨0⟩ "/orders" unassigned.coordinator.member none) true).run

/-- The clear fails when it has locked the bucket. -/
theorem doClear_releases_unassigned :
    ∃ stop, clearUnassigned.run unassigned = some (.error .cancelled, stop) ∧
      .bucketLocked 7 unassigned.coordinator.member ∈ stop.effects ∧
        ReleasedAfter 7 stop.effects ∧ stop.coordinator.lock = {} := by
  have hend : (clearUnassigned.run unassigned).any (fun p =>
      (match p.1 with
        | .error e => e == .cancelled
        | .ok _ => false) && p.2.effects.any fun x => match x with
        | .bucketLocked id m => id == 7 && m == unassigned.coordinator.member
        | _ => false) = true := by decide +kernel
  obtain ⟨-, -, -, hreleased⟩ := doClear_releases unassigned.outside.surroundings 1
    (.clear ⟨0⟩ "/orders" unassigned.coordinator.member none) true unassigned
  cases hrun : clearUnassigned.run unassigned with
  | none =>
    rw [hrun] at hend
    cases hend
  | some p =>
    obtain ⟨r, stop⟩ := p
    obtain ⟨es, hes, -, hfrees⟩ := hreleased r stop hrun
    obtain ⟨hfree, hbuckets⟩ := hfrees rfl
    obtain rfl : stop.effects = es := hes
    rw [hrun, Option.any_some, Bool.and_eq_true] at hend
    obtain ⟨hr, hlocked⟩ := hend
    refine ⟨stop, ?_, ?_, hbuckets 0 _ (retains unassigned.outside 0) ⟨1, rfl, by decide⟩, hfree⟩
    · split at hr
      next e he =>
        obtain rfl : r = .error e := he
        rw [beq_iff_eq.1 hr]
      next => cases hr
    · obtain ⟨x, hx, hm⟩ := List.any_eq_true.1 hlocked
      split at hm
      next id m =>
        rw [Bool.and_eq_true, beq_iff_eq, beq_iff_eq] at hm
        obtain ⟨rfl, rfl⟩ := hm
        exact hx
      next => cases hm

/-- The local bucket that is locked, with `true`, or released. -/
def bucketLocking : Effect → Option (Nat × Bool)
  | .bucketLocked id _ => some (id, true)
  | .bucketReleased id => some (id, false)
  | _ => none

/-- The member no longer has the bucket when primaries are to be assigned. -/
def forgetting : Surroundings Rehearsal Nat :=
  { unassigned.outside.surroundings with
    assignPrimaries := fun r => (.error .cancelled, { r with buckets := some [] }) }

/-- Three members, of which the first has a listener. It begins to shut down while the third is to
lock its buckets. -/
def shuttingDown : Scene Rehearsal :=
  { oneOfThree with
    outside :=
      { oneOfThree.outside with
        nodes := .ofList [nth 1, nth 2, nth 3]
        hasListener := true
        script := [((nth 3).text, [.cancels])] } }

/-- A bucket that the member ceases to have while it is locked for a clear is not released, though
the clear lock is free in the end. And a member that begins to shut down when it has asked others
for their clear locks does not ask for these to be given up. -/
theorem locks_left_behind :
    ((doClear forgetting 1 (.clear ⟨0⟩ "/orders" unassigned.coordinator.member none)
      true).run.run unassigned).map (fun p =>
        (p.1.toBool, p.2.effects.filterMap bucketLocking, p.2.coordinator.lock.requester)) =
          some (false, [(7, true)], none) ∧
      ((doClear shuttingDown.outside.surroundings 1 (.clear ⟨0⟩ "pr" (nth 1) none)
        true).run.run shuttingDown).map (fun p =>
          (p.1.toBool, p.2.effects.filterMap Effect.sentTo)) =
            some (false, [(.lock, [nth 2, nth 3])]) := by
  decide +kernel

end DataGrid.Rehearsal
