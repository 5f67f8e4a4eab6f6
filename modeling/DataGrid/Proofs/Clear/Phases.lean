import DataGrid.Proofs.Clear.Kinds
import DataGrid.Proofs.Clear.RegionLock

/-
The phases of the clears of one coordinator. Whatever the surroundings answer,
a clear that may begin goes only from phases to their successors, and ends where
the next may begin: done if it cleared the region, idle if it did not get the
lock of the region, and with a partial failure otherwise (`Ends`).
-/

namespace DataGrid

open Coordinator

variable {σ β : Type} {sur : Surroundings σ β}

namespace ClearPhase

/-- The phase stays, or goes on to one that may follow. -/
def MayBecome (p q : ClearPhase) : Prop := p = q ∨ p.canAdvanceTo q = true

instance (p q : ClearPhase) : Decidable (p.MayBecome q) := inferInstanceAs (Decidable (_ ∨ _))

/-- From phase `p` to phase `q` by the changes that were recorded, each from the phase that the one
before it led to and to one that may follow. -/
inductive Passes : ClearPhase → List Effect → ClearPhase → Prop
  | stays (p : ClearPhase) : Passes p [] p
  | change {p q r : ClearPhase} {es : List Effect} :
      p.MayBecome q → Passes q es r → Passes p (.advanced p q :: es) r
  | apart {p q : ClearPhase} {e : Effect} {es : List Effect} :
      e.isAdvance = false → Passes p es q → Passes p (e :: es) q

namespace Passes

variable {p q r : ClearPhase} {es es' : List Effect}

theorem trans (h : Passes p es q) (h' : Passes q es' r) : Passes p (es ++ es') r := by
  induction h with
  | stays => exact h'
  | change hmay _ ih => exact .change hmay (ih h')
  | apart he _ ih => exact .apart he (ih h')

theorem of_apart (p : ClearPhase) (h : ∀ e ∈ es, e.isAdvance = false) : Passes p es p := by
  induction es with
  | nil => exact .stays p
  | cons e es ih =>
    exact .apart (h e List.mem_cons_self) (ih fun x hx => h x (List.mem_cons_of_mem _ hx))

end Passes
end ClearPhase

namespace Coordinator

open ClearPhase

/-- The phase changed only as it may, and every change was recorded. -/
def Traced (s : Scene σ) (es : List Effect) (s' : Scene σ) : Prop :=
  Passes s.coordinator.phase es s'.coordinator.phase

/-- What is done between two changes of the phase. -/
abbrev Between : Scene σ → List Effect → Scene σ → Prop := Within fun e => e.isAdvance = false

theorem Between.traced {s s' : Scene σ} {es : List Effect} (h : Between s es s') : Traced s es s' := by
  rw [Traced, h.phase]
  exact .of_apart _ h.only

theorem traced_advanced {s : Scene σ} {next : ClearPhase} (h : s.coordinator.phase.MayBecome next) :
    Traced s [.advanced s.coordinator.phase next] (advanced s next) := .change h (.stays _)

theorem grants_between (sur : Surroundings σ β) : sur.Grants Between := Within.grants fun _ h => h

/-! ## Under the lock -/

/-- While the lock of the region is held the clear went on to the phase of clearing, or it failed
before that. -/
structure UnderLock (r : Except ClearError (List Nat)) (s : Scene σ) (es : List Effect)
    (s' : Scene σ) : Prop where
  traced : Traced s es s'
  phase : s'.coordinator.phase = .clearing ∨ s'.coordinator.phase = .lockAcquired ∧ r.toBool = false

variable {r r' : Except ClearError (List Nat)} {s s₁ s' : Scene σ} {es es' : List Effect}

theorem UnderLock.after (h : Between s es s₁) (h' : UnderLock r s₁ es' s') :
    UnderLock r s (es ++ es') s' := ⟨h.traced.trans h'.traced, h'.phase⟩

theorem UnderLock.before (h : UnderLock r s es s₁) (hfails : r.toBool = false → r'.toBool = false)
    (h' : Between s₁ es' s') : UnderLock r' s (es ++ es') s' where
  traced := h.traced.trans h'.traced
  phase := by
    rw [h'.phase]
    exact h.phase.imp_right fun ⟨hphase, hr⟩ => ⟨hphase, hfails hr⟩

/-- A failure before the clear went on. -/
theorem UnderLock.failed (hs : s.coordinator.phase = .lockAcquired) (e : ClearError)
    (h : Between s es s') : UnderLock (.error e) s es s' :=
  ⟨h.traced, .inr ⟨h.phase.trans hs, rfl⟩⟩

theorem underLock_assignAndClear (sur : Surroundings σ β) (rounds : Nat) (event : RegionEvent)
    (hs : s.coordinator.phase = .lockAcquired) :
    Ensures (assignAndClear sur rounds event).run s fun r es s' => UnderLock r s es s' := by
  have hgrants := grants_between sur
  refine .attempt ((hgrants.assigns s).mono fun r es₁ s₁ h₁ => ?_)
  cases r with
  | error e => exact .failed hs e h₁
  | ok _ =>
    refine .attempt (.sure ((comes_advance .clearing).ensures.mono ?_))
    rintro - _ _ ⟨rfl, rfl⟩
    refine (hgrants.clearEverywhere rounds event _).mono fun r es₂ s₂ h₂ => ?_
    have hadvanced : Traced s₁ [.advanced s₁.coordinator.phase .clearing] (advanced s₁ .clearing) :=
      traced_advanced (by rw [h₁.phase, hs]; exact .inr rfl)
    exact .after h₁ ⟨hadvanced.trans h₂.traced, .inl h₂.phase⟩

theorem underLock_lockAndClear (sur : Surroundings σ β) (rounds : Nat) (event : RegionEvent)
    (hs : s.coordinator.phase = .lockAcquired) :
    Ensures (do obtainAll sur event; assignAndClear sur rounds event : Attempt σ (List Nat)).run s
      fun r es s' => UnderLock r s es s' := by
  refine .attempt (((grants_between sur).obtainAll event s).mono fun r es₁ s₁ h₁ => ?_)
  cases r with
  | error e => exact .failed hs e h₁
  | ok _ =>
    exact (underLock_assignAndClear sur rounds event (h₁.phase.trans hs)).mono fun _ _ _ => .after h₁

theorem underLock_clearWhileLocked (sur : Surroundings σ β) (rounds : Nat) (event : RegionEvent)
    (cacheWrite : Bool) (hs : s.coordinator.phase = .lockAcquired) :
    Ensures (clearWhileLocked sur rounds event cacheWrite).run s
      fun r es s' => UnderLock r s es s' := by
  have hgrants := grants_between sur
  unfold clearWhileLocked
  refine .optional (.attempt ((hgrants.asksWriterIf cacheWrite event s).mono fun r es₁ s₁ h₁ => ?_))
  cases r with
  | error e => exact .failed hs e h₁
  | ok _ =>
    have hs₁ : s₁.coordinator.phase = .lockAcquired := h₁.phase.trans hs
    refine Ensures.mono (Q := fun r es s' => UnderLock r s₁ es s') ?_ fun _ _ _ h => .after h₁ h
    refine .get_attempt ?_
    cases mustTell sur s₁.outside with
    | false =>
      simp only [Bool.false_eq_true, if_false]
      exact underLock_assignAndClear sur rounds event hs₁
    | true =>
      simp only [if_true]
      refine .attempt (.outcome ((underLock_lockAndClear sur rounds event hs₁).mono
        fun cleared es₂ s₂ h₂ => ?_))
      refine .attempt (.outcome ((hgrants.releaseAll event s₂).mono fun released es₃ s₃ h₃ => ?_))
      -- with both at an end, all that is left is to report a failure
      have hreport {r' : Except ClearError (List Nat)}
          (hfails : cleared.toBool = false → r'.toBool = false) :
          UnderLock r' s₁ (es₂ ++ (es₃ ++ [])) s₃ := by
        rw [List.append_nil]
        exact h₂.before hfails h₃
      cases cleared with
      | error e => exact .attempt (.thrown e (hreport fun _ => rfl))
      | ok ids =>
        refine .attempt (.done ids ?_)
        cases released with
        | error e => exact .attempt (.thrown e (hreport nofun))
        | ok _ => exact .attempt (.done () (.done ids (hreport nofun)))

/-! ## The whole clear -/

/-- The phase in which a clear that held the lock of the region ends. -/
def endPhase (r : Except ClearError (List Nat)) : ClearPhase :=
  if r.toBool then .done else .partialFailure

theorem traced_advanceIf {b : Bool} {next : ClearPhase}
    (h : b = true → s.coordinator.phase.MayBecome next) :
    Ensures (if b then sure (advance next) else pure () : Attempt σ Unit).run s fun r es s' =>
      r = .ok () ∧ Traced s es s' ∧
        s'.coordinator.phase = if b then next else s.coordinator.phase := by
  cases b with
  | false => exact .done _ ⟨rfl, .stays _, rfl⟩
  | true =>
    refine .sure ((comes_advance next).ensures.mono ?_)
    rintro - _ _ ⟨rfl, rfl⟩
    exact ⟨rfl, traced_advanced (h rfl), rfl⟩

theorem traced_conclude (r : Except ClearError (List Nat))
    (h : s.coordinator.phase.MayBecome (endPhase r)) :
    Ensures (do sure (advance (endPhase r)); MonadExcept.ofExcept r : Attempt σ (List Nat)).run s
      fun r es s' => Traced s es s' ∧ s'.coordinator.phase = endPhase r := by
  refine .attempt (.sure ((comes_advance (endPhase r)).ensures.mono ?_))
  rintro - _ _ ⟨rfl, rfl⟩
  exact .ofExcept r ⟨traced_advanced h, rfl⟩

theorem traced_endClear (sur : Surroundings σ β) (cleared : Except ClearError (List Nat))
    (hs : s.coordinator.phase = .clearing ∨
      s.coordinator.phase = .lockAcquired ∧ cleared.toBool = false) :
    Ensures (endClear sur cleared).run s fun r es s' =>
      Traced s es s' ∧ s'.coordinator.phase = endPhase r := by
  unfold endClear
  refine .get_attempt (.optional (.attempt ((traced_advanceIf fun h => ?failing).mono ?_)))
  case failing =>
    rw [Bool.and_eq_true, beq_iff_eq] at h
    rw [h.2]
    exact .inr rfl
  rintro _ es₁ s₁ ⟨rfl, h₁, hphase₁⟩
  refine .attempt (.outcome (((grants_between sur).unlocks _ s₁).mono fun released es₂ s₂ h₂ => ?_))
  -- it may still be locked, be clearing, or have failed while it was
  have hphase₂ : s₂.coordinator.phase = .partialFailure ∧ cleared.toBool = false ∨
      s₂.coordinator.phase = .clearing ∨ s₂.coordinator.phase = .lockAcquired := by
    rw [h₂.phase, hphase₁]
    rcases hs with hs | ⟨hs, -⟩
    · cases hc : cleared.toBool <;> simp [hs]
    · simp [hs]
  refine .get_attempt (.optional (.attempt ((traced_advanceIf fun h => ?unlocking).mono ?_)))
  case unlocking =>
    rcases hphase₂ with ⟨hp, -⟩ | hp | hp <;> rw [hp] at h ⊢
    · cases h
    · exact .inr rfl
    · exact .inr rfl
  rintro _ es₃ s₃ ⟨rfl, h₃, hphase₃⟩
  have hphase : s₃.coordinator.phase = .partialFailure ∧ cleared.toBool = false ∨
      s₃.coordinator.phase = .unlocked := by
    rw [hphase₃]
    rcases hphase₂ with ⟨hp, hfail⟩ | hp | hp <;> simp [*]
  have hend (r : Except ClearError (List Nat)) (hr : cleared.toBool = false → r.toBool = false) :
      Ensures (do sure (advance (endPhase r)); MonadExcept.ofExcept r : Attempt σ (List Nat)).run s₃
        fun r es s' => Traced s (es₁ ++ (es₂ ++ (es₃ ++ es))) s' ∧
          s'.coordinator.phase = endPhase r := by
    refine (traced_conclude r ?_).mono fun _ _ _ h =>
      ⟨h₁.trans (h₂.traced.trans (h₃.trans h.1)), h.2⟩
    rcases hphase with ⟨hp, hfail⟩ | hp <;> rw [hp, endPhase]
    · rw [hr hfail]
      exact .inl rfl
    · cases r.toBool <;> exact .inr rfl
  cases cleared with
  | error e => exact hend (.error e) fun _ => rfl
  | ok ids =>
    cases released with
    | error e => exact hend (.error e) nofun
    | ok _ =>
      cases hcover : coversRegion sur ids with
      | true =>
        simp only [hcover, if_true]
        exact hend (.ok ids) nofun
      | false =>
        simp only [hcover, Bool.false_eq_true, if_false]
        exact hend (.error _) nofun

/-- The answer of a clear, the phase it ends in, and whether it held the lock of the region. -/
inductive Ends (sur : Surroundings σ β) (start : Scene σ) (r : Except ClearError (List Nat))
    (last : ClearPhase) : Prop
  | unlocked (e : LockError) (o : σ) : lockAnswer sur start = some (.error e, o) →
      r.toBool = false → last = .idle → Ends sur start r last
  | locked (o : σ) : lockAnswer sur start = some (.ok (), o) → last = endPhase r →
      Ends sur start r last

theorem traced_doClear (sur : Surroundings σ β) (rounds : Nat) (event : RegionEvent)
    (cacheWrite : Bool) (s : Scene σ) (hs : s.coordinator.phase.MayBecome .idle) :
    Ensures (doClear sur rounds event cacheWrite).run s fun r es s' =>
      Traced s es s' ∧ Ends sur s r s'.coordinator.phase := by
  have hgrants := grants_between sur
  unfold doClear
  refine .attempt (.sure ((comes_advance .idle).ensures.mono ?_))
  rintro - _ _ ⟨rfl, rfl⟩
  have hidle : Traced s [.advanced s.coordinator.phase .idle] (advanced s .idle) :=
    traced_advanced hs
  refine .attempt (((ensures_acquireLock _).and (hgrants.acquireLock _ _)).mono ?_)
  rintro _ es₁ s₁ ⟨⟨answer, o, -, hans, rfl, -, -⟩, h₁⟩
  cases answer with
  | error e => exact ⟨hidle.trans h₁.traced, .unlocked e o hans rfl h₁.phase⟩
  | ok _ =>
    suffices h : Ensures _ s₁ fun r es s' => Traced s₁ es s' ∧ s'.coordinator.phase = endPhase r from
      h.mono fun r es s' h => ⟨hidle.trans (h₁.traced.trans h.1), .locked o hans h.2⟩
    refine .attempt (.sure ((comes_advance .lockAcquired).ensures.mono ?_))
    rintro - _ _ ⟨rfl, rfl⟩
    have hlocked :
        Traced s₁ [.advanced s₁.coordinator.phase .lockAcquired] (advanced s₁ .lockAcquired) :=
      traced_advanced (by rw [h₁.phase]; exact .inr rfl)
    refine .attempt (.outcome ((underLock_clearWhileLocked sur rounds event cacheWrite rfl).mono
      fun cleared es₂ s₂ h₂ => ?_))
    have hfinish : Ensures (endClear sur cleared).run s₂ fun r es s' =>
        Traced s₂ es s' ∧ s'.coordinator.phase = endPhase r := traced_endClear sur cleared h₂.phase
    exact hfinish.mono fun r es₃ s' h₃ => ⟨hlocked.trans (h₂.traced.trans h₃.1), h₃.2⟩

/-! ## Clears one after another -/

/-- A clear that was asked for, and what came of it. -/
structure Clearing (σ : Type) where
  rounds : Nat
  event : RegionEvent
  cacheWrite : Bool
  start : Scene σ
  answer : Except ClearError (List Nat)
  stop : Scene σ

/-- Clears one after another, the first of which begins in a given phase. Only the phase is kept
from one to the next, anything else may have changed in the meantime. -/
def InTurn (sur : Surroundings σ β) : ClearPhase → List (Clearing σ) → Prop
  | _, [] => True
  | p, c :: rest => c.start.coordinator.phase = p ∧
    (doClear sur c.rounds c.event c.cacheWrite).run.run c.start = some (c.answer, c.stop) ∧
      InTurn sur c.stop.coordinator.phase rest

theorem Ends.mayBecome_idle {last : ClearPhase} (h : Ends sur s r last) : last.MayBecome .idle := by
  cases h with
  | unlocked _ _ _ _ hlast => exact .inl hlast
  | locked _ _ hlast =>
    rw [hlast, endPhase]
    cases r.toBool <;> exact .inr rfl

theorem traced_inTurn {cs : List (Clearing σ)} {p : ClearPhase} (hp : p.MayBecome .idle)
    (h : InTurn sur p cs) : ∀ c ∈ cs, ∃ es, c.stop.effects = c.start.effects ++ es ∧
      Traced c.start es c.stop ∧ Ends sur c.start c.answer c.stop.coordinator.phase := by
  induction cs generalizing p with
  | nil => exact List.forall_mem_nil _
  | cons c cs ih =>
    obtain ⟨rfl, hrun, hrest⟩ := h
    obtain ⟨es, hes, htraced, hends⟩ :=
      traced_doClear sur c.rounds c.event c.cacheWrite c.start hp c.answer c.stop hrun
    exact List.forall_mem_cons.2 ⟨⟨es, hes, htraced, hends⟩, ih hends.mayBecome_idle hrest⟩

/--
The clears of a coordinator, one after another from the first on. In each of them the phase goes
only where it may go. It ends as done exactly if the answer is a success, as idle exactly if the
lock service refused the lock of the region, and as a partial failure in every other case.
-/
theorem clears_in_turn {cs : List (Clearing σ)} (h : InTurn sur .idle cs) : ∀ c ∈ cs,
    (∃ es, c.stop.effects = c.start.effects ++ es ∧
      Passes c.start.coordinator.phase es c.stop.coordinator.phase) ∧
    (c.stop.coordinator.phase = .done ↔ ∃ ids, c.answer = .ok ids) ∧
    (c.stop.coordinator.phase = .idle ↔ ∃ e o, lockAnswer sur c.start = some (.error e, o)) ∧
    (c.stop.coordinator.phase = .partialFailure ↔
      (∃ e, c.answer = .error e) ∧ ∃ o, lockAnswer sur c.start = some (.ok (), o)) := by
  intro c hc
  obtain ⟨es, hes, htraced, hends⟩ := traced_inTurn (.inl rfl) h c hc
  refine ⟨⟨es, hes, htraced⟩, ?_⟩
  cases hends with
  | unlocked e o hans hfail hlast =>
    rw [hlast, hans]
    cases hr : c.answer with
    | ok ids =>
      rw [hr] at hfail
      cases hfail
    | error e' => simp
  | locked o hans hlast =>
    rw [hlast, hans]
    cases c.answer <;> simp [endPhase, Except.toBool]

/-! ## A rehearsal of three clears -/

/-- A clear rehearsed, once the outside has changed. -/
def rehearse (change : Rehearsal → Rehearsal) (last : Scene Rehearsal) :
    Option (Clearing Rehearsal) :=
  let event := RegionEvent.clear ⟨0⟩ "/orders" last.coordinator.member none
  let start := { last with outside := change last.outside }
  ((doClear Rehearsal.unassigned.outside.surroundings 1 event true).run.run start).map fun p =>
    ⟨1, event, true, start, p.1, p.2⟩

/-- Primaries cannot be assigned at first, then the clear goes through, and then the lock service
lets the time run out. -/
def threeClears : Option (List (Clearing Rehearsal)) := do
  let failed ← rehearse id Rehearsal.unassigned
  let done ← rehearse ({ · with assignError := none }) failed.stop
  let refused ← rehearse ({ · with lockError := some .timeout }) done.stop
  return [failed, done, refused]

theorem inTurn_rehearse {change : Rehearsal → Rehearsal} {last : Scene Rehearsal}
    {c : Clearing Rehearsal} {rest : List (Clearing Rehearsal)} (h : rehearse change last = some c)
    (hrest : InTurn Rehearsal.unassigned.outside.surroundings c.stop.coordinator.phase rest) :
    InTurn Rehearsal.unassigned.outside.surroundings last.coordinator.phase (c :: rest) := by
  obtain ⟨p, hrun, rfl⟩ := Option.map_eq_some_iff.1 h
  exact ⟨rfl, hrun, hrest⟩

theorem clears_in_turn_rehearsed : ∃ cs, threeClears = some cs ∧
    InTurn Rehearsal.unassigned.outside.surroundings .idle cs ∧
    cs.map (·.stop.coordinator.phase) = [.partialFailure, .done, .idle] ∧
    ∀ c ∈ cs, ∃ es, c.stop.effects = c.start.effects ++ es ∧
      Passes c.start.coordinator.phase es c.stop.coordinator.phase := by
  have hphases : threeClears.map (·.map (·.stop.coordinator.phase)) =
      some [.partialFailure, .done, .idle] := by decide +kernel
  obtain ⟨cs, hcs, hlast⟩ := Option.map_eq_some_iff.1 hphases
  have hturn : InTurn Rehearsal.unassigned.outside.surroundings .idle cs := by
    simp only [threeClears, Option.bind_eq_bind, Option.bind_eq_some_iff, Option.pure_def,
      Option.some.injEq] at hcs
    obtain ⟨failed, hfailed, done, hdone, refused, hrefused, rfl⟩ := hcs
    exact inTurn_rehearse hfailed (inTurn_rehearse hdone (inTurn_rehearse hrefused trivial))
  exact ⟨cs, hcs, hturn, hlast, fun c hc => (clears_in_turn hturn c hc).1⟩

end Coordinator
end DataGrid
