import DataGrid.Proofs.Clear.Kinds

/-
How often a clear is announced, whatever the surroundings answer: how often a
coordinator tells its listeners and its clients, and how often it asks the others
to clear (`Tally`).

A local clear makes as many passes as it takes, and tells of them once, after the
last. A message is sent again when a recipient leaves, to all that are left, so
that the others are asked once for each attempt.
-/

namespace DataGrid

open Coordinator

variable {σ β α γ : Type}

namespace Effect

def isListenersTold : Effect → Bool
  | .listenersTold _ => true
  | _ => false

def isClientsTold : Effect → Bool
  | .clientsTold _ => true
  | _ => false

/-- The others are asked to clear. -/
def isClearSent : Effect → Bool
  | .sent message _ => message.operation = .clear
  | _ => false

/-- It is none of the three. -/
def isQuiet (e : Effect) : Bool := !(e.isListenersTold || e.isClientsTold || e.isClearSent)

theorem isQuiet_of_own {e : Effect} (h : e.isOwn = true) : e.isQuiet = true := by
  cases e <;> first | rfl | cases h

theorem isQuiet_sent {message : ClearMessage} {members : List Member}
    (hop : message.operation ≠ .clear) : (sent message members).isQuiet = true := by
  simp [isQuiet, isListenersTold, isClientsTold, isClearSent, hop]

theorem isQuiet_of_reaction {e : Effect} (h : e.isReaction = true) : e.isQuiet = true :=
  isQuiet_of_own (isOwn_of_reaction h)

end Effect

/-- How often, at most, listeners and clients were told and the others asked to clear. -/
structure Tally (listeners clients sent : Nat) (es : List Effect) : Prop where
  listeners : es.countP Effect.isListenersTold ≤ listeners
  clients : es.countP Effect.isClientsTold ≤ clients
  sent : es.countP Effect.isClearSent ≤ sent

namespace Tally

variable {l l' c c' n n' : Nat} {e : Effect} {es es' : List Effect}

theorem append (h : Tally l c n es) (h' : Tally l' c' n' es') :
    Tally (l + l') (c + c') (n + n') (es ++ es') := by
  refine ⟨?_, ?_, ?_⟩ <;> rw [List.countP_append]
  · exact Nat.add_le_add h.listeners h'.listeners
  · exact Nat.add_le_add h.clients h'.clients
  · exact Nat.add_le_add h.sent h'.sent

theorem mono (h : Tally l c n es) (hl : l ≤ l') (hc : c ≤ c') (hn : n ≤ n') : Tally l' c' n' es :=
  ⟨Nat.le_trans h.listeners hl, Nat.le_trans h.clients hc, Nat.le_trans h.sent hn⟩

theorem quiet (h : ∀ e ∈ es, e.isQuiet = true) : Tally 0 0 0 es := by
  have hnone (p : Effect → Bool) (hp : ∀ e : Effect, p e = true → e.isQuiet = false) :
      es.countP p ≤ 0 := by
    refine Nat.le_of_eq (List.countP_eq_zero.2 fun e he hpe => ?_)
    exact absurd (h e he) (by rw [hp e hpe]; decide)
  refine ⟨hnone _ fun e he => ?_, hnone _ fun e he => ?_, hnone _ fun e he => ?_⟩ <;>
    simp [Effect.isQuiet, he]

theorem of_listenersTold (event : RegionEvent) : Tally 1 0 0 [.listenersTold event] :=
  ⟨Nat.le_refl 1, Nat.le_refl 0, Nat.le_refl 0⟩

theorem of_clientsTold (event : RegionEvent) : Tally 0 1 0 [.clientsTold event] :=
  ⟨Nat.le_refl 0, Nat.le_refl 1, Nat.le_refl 0⟩

/-- A message that is sent may ask the others to clear. -/
theorem of_sent (message : ClearMessage) (members : List Member) :
    Tally 0 0 1 [.sent message members] :=
  ⟨Nat.le_refl 0, Nat.le_refl 0, List.countP_le_length⟩

end Tally

namespace Coordinator

variable {config : ClearConfig} {l l' c c' n n' : Nat}

/-- Nothing is announced, and the configuration of the coordinator stays. -/
structure Quietly (s : Scene σ) (es : List Effect) (s' : Scene σ) : Prop where
  only : ∀ e ∈ es, e.isQuiet = true
  config : s'.coordinator.config = s.coordinator.config

theorem quietly_chained : Chained (Quietly (σ := σ)) where
  refl _ := ⟨List.forall_mem_nil _, rfl⟩
  trans h h' :=
    ⟨fun e he => (List.mem_append.1 he).elim (h.only e) (h'.only e), h'.config.trans h.config⟩

theorem Quietly.of_within {s s' : Scene σ} {es : List Effect}
    (h : Within (fun e => e.isQuiet = true) s es s') : Quietly s es s' := ⟨h.only, h.same.config⟩

theorem quietly_advance (next : ClearPhase) : Keeps Quietly (advance next : Act σ Unit) := fun s => by
  refine (comes_advance next).ensures.mono ?_
  rintro - _ _ ⟨rfl, rfl⟩
  exact ⟨fun e he => by rw [List.mem_singleton.1 he]; rfl, rfl⟩

theorem quietly_consult {site : Site σ β} {e : Effect} {f : σ → Option (α × σ)}
    (he : e.isQuiet = true) : Keeps Quietly (consult site e f) :=
  (Within.consult (fun _ => Effect.isQuiet_of_reaction) he).mono .of_within

theorem quietly_send {sur : Surroundings σ β} (event : RegionEvent) {operation : ClearOperation}
    (hop : operation ≠ .clear) : Keeps Quietly (send sur event operation).run :=
  keeps_send quietly_chained ((Within.broadcast (fun _ => Effect.isQuiet_of_reaction) event
    fun message _ hmessage => Effect.isQuiet_sent (by rw [hmessage]; exact hop)).mono .of_within)

/-- The act of a coordinator announces no more than so much, and does not change its configuration. -/
def Announces (config : ClearConfig) (l c n : Nat) (work : Act σ α) : Prop :=
  ∀ s, s.coordinator.config = config → Ensures work s fun _ es s' =>
    Tally l c n es ∧ s'.coordinator.config = config

namespace Announces

theorem mono {work : Act σ α} (h : Announces config l c n work) (hl : l ≤ l') (hc : c ≤ c')
    (hn : n ≤ n') : Announces config l' c' n' work := fun s hs =>
  (h s hs).mono fun _ _ _ ⟨htally, hconfig⟩ => ⟨htally.mono hl hc hn, hconfig⟩

theorem of_quiet {work : Act σ α} (h : Keeps Quietly work) : Announces config l c n work :=
  fun s hs => (h s).mono fun _ _ _ hquiet =>
    ⟨(Tally.quiet hquiet.only).mono (Nat.zero_le _) (Nat.zero_le _) (Nat.zero_le _),
      hquiet.config.trans hs⟩

theorem bind {work : Act σ α} {next : α → Act σ γ} (h : Announces config l c n work)
    (hnext : ∀ a, Announces config l' c' n' (next a)) :
    Announces config (l + l') (c + c') (n + n') (work >>= next) := fun s hs =>
  .bind ((h s hs).mono fun a _ s₁ ⟨htally, hconfig⟩ => (hnext a s₁ hconfig).mono
    fun _ _ _ ⟨htally', hconfig'⟩ => ⟨htally.append htally', hconfig'⟩)

/-- What goes before is quiet. -/
theorem after {work : Act σ α} {next : α → Act σ γ} (h : Keeps Quietly work)
    (hnext : ∀ a, Announces config l c n (next a)) : Announces config l c n (work >>= next) := by
  have hboth : Announces config (0 + l) (0 + c) (0 + n) (work >>= next) := bind (of_quiet h) hnext
  rwa [Nat.zero_add, Nat.zero_add, Nat.zero_add] at hboth

/-- What follows is quiet. -/
theorem before {work : Act σ α} {next : α → Act σ γ} (h : Announces config l c n work)
    (hnext : ∀ a, Keeps Quietly (next a)) : Announces config l c n (work >>= next) :=
  bind h fun a => of_quiet (l := 0) (c := 0) (n := 0) (hnext a)

theorem get_bind {next : Scene σ → Act σ γ}
    (h : ∀ s, s.coordinator.config = config → Announces config l c n (next s)) :
    Announces config l c n (get >>= next) := fun s hs => .get_bind (h s hs s hs)

theorem ite {p : Prop} [Decidable p] {yes no : Act σ α} (hyes : Announces config l c n yes)
    (hno : Announces config l c n no) : Announces config l c n (if p then yes else no) := by
  split
  next => exact hyes
  next => exact hno

/-- A call announces what it is itself; members that leave meanwhile are not announced. -/
theorem consult {site : Site σ β} {e : Effect} {f : σ → Option (α × σ)} (h : Tally l c n [e]) :
    Announces config l c n (consult site e f) := by
  refine .before (fun s hs => ?_) fun a => .bind quietly_chained
    ((Within.hearDepartures fun _ => Effect.isQuiet_of_reaction).mono .of_within) fun _ =>
      .pure quietly_chained a
  refine (Ensures.call e f).mono ?_
  rintro _ _ s' ⟨rfl, -, hk⟩
  exact ⟨h, by rw [hk]; exact hs⟩

/-! ### Attempts -/

section

variable {work : Attempt σ α} {next : α → Attempt σ γ}

theorem get_attempt {next : Scene σ → Attempt σ γ}
    (h : ∀ s, s.coordinator.config = config → Announces config l c n (next s).run) :
    Announces config l c n (get >>= next).run := get_bind h

theorem attempt (h : Announces config l c n work.run)
    (hnext : ∀ a, Announces config l' c' n' (next a).run) :
    Announces config (l + l') (c + c') (n + n') (work >>= next).run := by
  rw [ExceptT.run_bind]
  refine bind h fun r => ?_
  cases r with
  | ok a => exact hnext a
  | error e => exact of_quiet (.pure quietly_chained _)

theorem afterAttempt (h : Keeps Quietly work.run) (hnext : ∀ a, Announces config l c n (next a).run) :
    Announces config l c n (work >>= next).run := by
  have hboth : Announces config (0 + l) (0 + c) (0 + n) (work >>= next).run :=
    attempt (of_quiet h) hnext
  rwa [Nat.zero_add, Nat.zero_add, Nat.zero_add] at hboth

theorem beforeAttempt (h : Announces config l c n work.run) (hnext : ∀ a, Keeps Quietly (next a).run) :
    Announces config l c n (work >>= next).run :=
  attempt h fun a => of_quiet (l := 0) (c := 0) (n := 0) (hnext a)

theorem optional {b : Bool} {a : α}
    (h : Announces config l c n ((if b then work else Pure.pure a) >>= next).run) :
    Announces config l c n (if b then work >>= next else next a).run := fun s hs => .optional (h s hs)

theorem sure {work : Act σ α} (h : Announces config l c n work) :
    Announces config l c n (DataGrid.sure work).run := fun s hs => .sure (h s hs)

theorem outcome (h : Announces config l c n work.run) :
    Announces config l c n (Attempt.outcome work).run := sure h

end

end Announces

/-! ## Local clears -/

section

variable {site : Site σ β} (event : RegionEvent)

theorem announces_tellAfterClear : Announces config 1 1 0 (tellAfterClear site event) := by
  have hlisteners : Announces config 1 0 0 (do
      if site.hasListener (← get).outside then
        consult site (.listenersTold event) fun s => some ((), site.tellListeners event s)) :=
    .get_bind fun _ _ =>
      .ite (.consult (.of_listenersTold event)) (.of_quiet (.pure quietly_chained ()))
  refine .get_bind fun s _ => .ite ?_ (hlisteners.mono (Nat.le_refl _) (Nat.zero_le _) (Nat.le_refl _))
  change Announces config (0 + 1) (1 + 0) (0 + 0) _
  exact .bind (.consult (.of_clientsTold _)) fun _ => hlisteners

/-- However many passes it takes, a local clear is announced once, or not at all if it fails. -/
theorem announces_clearLocal (rounds : Nat) :
    Announces config 1 1 0 (clearLocal site rounds event).run := by
  have hsweeps : site.Sweeps (Within fun e => e.isQuiet = true) :=
    Within.sweeps fun _ he => Effect.isQuiet_of_own (Effect.isOwn_of_sweep he)
  have htell {α : Type} (a : α) :
      Announces config 1 1 0 (do sure (tellAfterClear site event); pure a : Attempt σ α).run :=
    .beforeAttempt (.sure (announces_tellAfterClear event)) fun _ => .done quietly_chained _
  refine .afterAttempt (.sure (hsweeps.looksAway.mono .of_within)) fun _ => .get_attempt fun s _ => ?_
  cases site.buckets s.outside with
  | none => exact htell _
  | some buckets =>
    exact .afterAttempt (.sure (quietly_consult rfl)) fun _ =>
      .afterAttempt (.outcome ((hsweeps.clearUntilStable rounds rounds).mono .of_within)) fun cleared =>
        .afterAttempt (.sure (quietly_consult rfl)) fun _ =>
          .afterAttempt (.ofExcept quietly_chained cleared) fun ids => htell ids

/-- A member that does what a message asks tells of it once, if it was asked to clear. -/
theorem announces_process (rounds : Nat) (message : ClearMessage) :
    let told := if message.operation = .clear then 1 else 0
    Announces config told told 0 (process site rounds message) := by
  have hown : ∀ e : Effect, e.isOwn = true → e.isQuiet = true := fun _ => Effect.isQuiet_of_own
  have hdone {α : Type} (a : α) : Keeps Quietly (pure a : Act σ α) := .pure quietly_chained a
  refine .get_bind fun s _ => .ite (.of_quiet (hdone _)) ?_
  cases message.operation with
  | lock =>
    exact .of_quiet (.bind quietly_chained ((Within.obtainLocal hown _).mono .of_within) fun _ =>
      hdone _)
  | unlock =>
    exact .of_quiet (.bind quietly_chained
      ((Within.releaseLocal fun _ => Effect.isQuiet_of_reaction).mono .of_within) fun _ => hdone _)
  | clear =>
    refine .before (announces_clearLocal message.event rounds) fun answer => ?_
    cases answer with
    | ok ids => exact hdone _
    | error e => exact hdone _

end

/-! ## The whole clear -/

section

variable {sur : Surroundings σ β} (event : RegionEvent)

/-- A broadcast sends one message at most. -/
theorem announces_broadcast (operation : ClearOperation) :
    Announces config 0 0 1 (broadcast sur event operation).run := by
  have hsent {message : ClearMessage} {members : List Member}
      {f : σ → Except ClearError Collector × σ} :
      Announces config 0 0 1 (tryTo sur.toSite (.sent message members) f).run :=
    .consult (.of_sent message members)
  refine .get_attempt fun s _ => ?_
  cases recipients sur s with
  | nil => exact .of_quiet (.done quietly_chained _)
  | cons m members =>
    refine .afterAttempt (.sure fun s' => ?_) fun _ => .beforeAttempt hsent fun collector =>
      .attempt quietly_chained (.ofExcept quietly_chained _) fun outcome => ?_
    · refine (Ensures.outside _).mono ?_
      rintro - _ _ ⟨rfl, rfl⟩
      exact ⟨List.forall_mem_nil _, rfl⟩
    · cases outcome.departed with
      | nil =>
        exact .attempt quietly_chained (.ofExcept quietly_chained _) fun _ => .done quietly_chained _
      | cons first rest => exact .done quietly_chained _

theorem announces_sendOnce (operation : ClearOperation) {whenDeparted : Member → Attempt σ (List Nat)}
    (h : ∀ m, Announces config 0 0 n (whenDeparted m).run) :
    Announces config 0 0 (1 + n) (sendOnce sur event operation whenDeparted).run := by
  have hsend : Announces config (0 + 0) (0 + 0) (1 + n)
      (broadcastElse sur event operation whenDeparted).run := by
    refine .attempt (announces_broadcast event operation) fun answer => ?_
    cases answer with
    | replied ids => exact .of_quiet (.done quietly_chained ids)
    | departed first => exact h first
  refine .get_attempt fun s _ => ?_
  cases sur.isCancelled s.outside with
  | true => exact .afterAttempt (.thrown quietly_chained _) fun _ => hsend
  | false => exact hsend

/-- A message is sent once for each attempt. -/
theorem announces_sendRepeatedly (operation : ClearOperation) : ∀ further,
    Announces config 0 0 (1 + further) (sendRepeatedly sur event operation further).run
  | 0 => announces_sendOnce event operation fun _ => .of_quiet (.thrown quietly_chained _)
  | further + 1 => by
    have hfurther := announces_sendRepeatedly operation further
    rw [Nat.add_comm] at hfurther
    exact announces_sendOnce event operation fun _ => hfurther

theorem announces_send (operation : ClearOperation) :
    Announces config 0 0 config.sendAttempts (send sur event operation).run := by
  refine .get_attempt fun s hs => ?_
  have hall : 1 + (config.sendAttempts - 1) = config.sendAttempts :=
    Nat.add_sub_cancel' (Nat.le_max_left 1 _)
  rw [hs]
  exact (announces_sendRepeatedly event operation _).mono (Nat.le_refl _) (Nat.le_refl _)
    (Nat.le_of_eq hall)

theorem announces_assignAndClear (rounds : Nat) :
    Announces config 1 1 config.sendAttempts (assignAndClear sur rounds event).run := by
  have heverywhere : Announces config 1 1 config.sendAttempts
      (clearEverywhere sur rounds event).run := by
    have hboth : Announces config 1 1 (0 + config.sendAttempts)
        (clearEverywhere sur rounds event).run :=
      .attempt (announces_clearLocal event rounds) fun _ =>
        .beforeAttempt (announces_send event .clear) fun _ => .done quietly_chained _
    rwa [Nat.zero_add] at hboth
  exact .afterAttempt (quietly_consult rfl) fun _ => .afterAttempt (.sure (quietly_advance _)) fun _ =>
    heverywhere

theorem announces_clearWhileLocked (rounds : Nat) (cacheWrite : Bool) :
    Announces config 1 1 config.sendAttempts
      (clearWhileLocked sur rounds event cacheWrite).run := by
  have hclear : Announces config 1 1 config.sendAttempts (assignAndClear sur rounds event).run :=
    announces_assignAndClear event rounds
  have hown : ∀ e : Effect, e.isOwn = true → e.isQuiet = true := fun _ => Effect.isQuiet_of_own
  have hask : Keeps Quietly
      (if cacheWrite then askWriter sur event else pure () : Attempt σ Unit).run := by
    cases cacheWrite with
    | true => exact quietly_consult rfl
    | false => exact .done quietly_chained _
  have hobtain : Keeps Quietly (obtainAll sur event).run :=
    keeps_obtainAll quietly_chained (fun m => (Within.obtainLocal hown m).mono .of_within)
      (quietly_send event (by decide))
  have hrelease : Keeps Quietly (releaseAll sur event).run :=
    keeps_releaseAll quietly_chained
      ((Within.releaseLocal fun _ => Effect.isQuiet_of_reaction).mono .of_within)
      (quietly_send event (by decide))
  unfold clearWhileLocked
  refine .optional (.afterAttempt hask fun _ => .get_attempt fun s _ => ?_)
  split
  next =>
    exact .beforeAttempt (.outcome (.afterAttempt hobtain fun _ => hclear)) fun cleared =>
      .attempt quietly_chained (.outcome hrelease) fun released =>
        .attempt quietly_chained (.ofExcept quietly_chained _) fun _ =>
          .attempt quietly_chained (.ofExcept quietly_chained _) fun _ => .done quietly_chained _
  next => exact hclear

/-- A clear tells the listeners and the clients of its own member once at most, and the others once
for each attempt to ask them. -/
theorem announces_doClear (rounds : Nat) (cacheWrite : Bool) :
    Announces config 1 1 config.sendAttempts (doClear sur rounds event cacheWrite).run := by
  have hlock : Keeps Quietly (acquireLock sur (lockName sur.region)).run :=
    keeps_acquireLock quietly_chained fun _ _ => quietly_consult rfl
  unfold doClear
  exact .afterAttempt (.sure (quietly_advance _)) fun _ => .afterAttempt hlock fun _ =>
    .afterAttempt (.sure (quietly_advance _)) fun _ =>
      .beforeAttempt (.outcome (announces_clearWhileLocked event rounds cacheWrite)) fun cleared =>
        keeps_endClear quietly_chained quietly_advance (quietly_consult rfl) cleared

end
end Coordinator
end DataGrid
