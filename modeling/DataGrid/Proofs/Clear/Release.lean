import DataGrid.Proofs.Clear.Conduct

/-
A clear of the whole region leaves no lock behind, whatever its surroundings do
and wherever it fails.
-/

namespace DataGrid.Coordinator

variable {σ β : Type} {sur : Surroundings σ β} {s s₁ s' : Scene σ} {es es' : List Effect}

/-! ## What is taken and given up -/

/-- No new buckets were kept from being made, or that was begun and ended once. -/
def Balanced (es : List Effect) : Prop :=
  es.filter Effect.isCreation = [] ∨
    es.filter Effect.isCreation = [.creationLocked, .creationUnlocked]

/-- Each time that a bucket was locked it was released later. -/
def ReleasedAfter (id : Nat) (es : List Effect) : Prop :=
  ∀ before m after, es = before ++ .bucketLocked id m :: after → .bucketReleased id ∈ after

theorem not_creation {e : Effect} (h : e.isLocking = false) : e.isCreation = false := by
  cases e <;> first | rfl | cases h

theorem creation_plain (h : ∀ e ∈ es, e.isLocking = false) :
    es.filter Effect.isCreation = [] :=
  List.filter_eq_nil_iff.2 fun e he => by simp [not_creation (h e he)]

theorem Balanced.plain_append (h : ∀ e ∈ es, e.isLocking = false) (hb : Balanced es') :
    Balanced (es ++ es') := by
  simpa only [Balanced, List.filter_append, creation_plain h, List.nil_append] using hb

theorem Balanced.append_plain (hb : Balanced es) (h : ∀ e ∈ es', e.isLocking = false) :
    Balanced (es ++ es') := by
  simpa only [Balanced, List.filter_append, creation_plain h, List.append_nil] using hb

theorem ReleasedAfter.of_unlocked {id : Nat} (h : ∀ m, .bucketLocked id m ∉ es) :
    ReleasedAfter id es := fun before m after he => by
  refine absurd ?_ (h m)
  rw [he]
  simp

theorem ReleasedAfter.append {id : Nat} (h : ReleasedAfter id es) (h' : ReleasedAfter id es') :
    ReleasedAfter id (es ++ es') := fun before m after he => by
  rcases List.append_eq_append_iff.1 he with ⟨rest, rfl, hr⟩ | ⟨rest, hl, hr⟩
  · exact h' rest m after hr
  · cases rest with
    | nil => exact h' [] m after (by simpa using hr.symm)
    | cons e rest =>
      rw [List.cons_append, List.cons.injEq] at hr
      obtain ⟨rfl, rfl⟩ := hr
      exact List.mem_append_left _ (h before m rest hl)

/-- What is released at the end need not have been released before. -/
theorem ReleasedAfter.of_released {id : Nat} (h : .bucketReleased id ∈ es')
    (h' : ReleasedAfter id es') : ReleasedAfter id (es ++ es') := fun before m after he => by
  rcases List.append_eq_append_iff.1 he with ⟨rest, rfl, hr⟩ | ⟨rest, hl, hr⟩
  · exact h' rest m after hr
  · cases rest with
    | nil => exact h' [] m after (by simpa using hr.symm)
    | cons e rest =>
      rw [List.cons_append, List.cons.injEq] at hr
      obtain ⟨rfl, rfl⟩ := hr
      exact List.mem_append_right _ h

/-! ## The local clear -/

/-- Neither the lock of the region is given up, nor a bucket locked. -/
def Inner : Effect → Prop
  | .unlocked _ | .bucketLocked .. => False
  | _ => True

theorem inner_of_plain {e : Effect} (h : e.isLocking = false) : Inner e := by
  cases e <;> trivial

theorem plain_of_reaction {e : Effect} (h : e.isReaction = true) : e.isLocking = false := by
  cases e <;> first | rfl | cases h

/-- What the region is cleared by while no clear lock is taken. -/
structure Clears (sur : Surroundings σ β) (s : Scene σ) (es : List Effect) (s' : Scene σ) :
    Prop where
  orderly : Orderly sur Inner s es s'
  balanced : Balanced es

theorem Clears.of_plain (h : Orderly sur (·.isLocking = false) s es s') : Clears sur s es s' :=
  ⟨h.mono fun _ => inner_of_plain, .inl (creation_plain h.only)⟩

theorem Clears.after (h : Orderly sur (·.isLocking = false) s es s₁) (h' : Clears sur s₁ es' s') :
    Clears sur s (es ++ es') s' :=
  ⟨(h.mono fun _ => inner_of_plain).trans h'.orderly, h'.balanced.plain_append h.only⟩

theorem Clears.before (h : Clears sur s es s₁) (h' : Orderly sur (·.isLocking = false) s₁ es' s') :
    Clears sur s (es ++ es') s' :=
  ⟨h.orderly.trans (h'.mono fun _ => inner_of_plain), h.balanced.append_plain h'.only⟩

/-- The creation of buckets is locked for some plain act, and unlocked. -/
theorem Clears.creation {s₂ s₃ : Scene σ} {r r' : List Effect}
    (hl : Orderly sur (·.isReaction = true) s r s₁)
    (hm : Orderly sur (·.isLocking = false) s₁ es s₂)
    (hu : Orderly sur (·.isReaction = true) s₂ r' s₃) :
    Clears sur s ((.creationLocked :: r) ++ (es ++ (.creationUnlocked :: r'))) s₃ := by
  have hplain : ∀ e : Effect, e.isReaction = true → Inner e := fun _ h =>
    inner_of_plain (plain_of_reaction h)
  have hlock : Orderly sur Inner s (.creationLocked :: r) s₁ :=
    (hl.mono hplain).cons trivial nofun
  have hunlock : Orderly sur Inner s₂ (.creationUnlocked :: r') s₃ :=
    (hu.mono hplain).cons trivial nofun
  refine ⟨hlock.trans ((hm.mono fun _ => inner_of_plain).trans hunlock), .inr ?_⟩
  simp only [List.filter_append, List.filter_cons, Effect.isCreation, if_true,
    creation_plain hm.only, creation_plain fun e he => plain_of_reaction (hl.only e he),
    creation_plain fun e he => plain_of_reaction (hu.only e he), List.nil_append]
  rfl

theorem ensures_clearLocal (rounds : Nat) (event : RegionEvent) (s : Scene σ) :
    Ensures (clearLocal sur.toSite rounds event).run s fun _ es s' => Clears sur s es s' := by
  have hallows : sur.toSite.Allows (Orderly sur (·.isLocking = false)) := allows_site fun _ h => h
  have htell := hallows.tellAfterClear event
  refine .attempt (.sure ((hallows.looksAway s).mono fun _ es₀ s₀ h₀ => ?_))
  refine Ensures.mono (Q := fun _ es s' => Clears sur s₀ es s') ?_ fun _ _ _ h => .after h₀ h
  refine .get_attempt ?_
  cases sur.buckets s₀.outside with
  | none =>
    refine (Keeps.attempt hallows.chained (.sure htell) (fun _ => .done hallows.chained _) s₀).mono ?_
    exact fun _ _ _ h => .of_plain h
  | some buckets =>
    refine .attempt (.sure ((ensures_consult fun b P hr o _ o' hP hf => ?_).mono ?_))
    · obtain ⟨o'', ho, rfl⟩ : ∃ o'', sur.lockCreation o = some o'' ∧ o'' = o' := by
        simpa using hf
      exact hr.lockCreation o _ hP ho
    rintro - _ s₁ ⟨-, r, rfl, hl⟩
    refine .attempt (.outcome ((hallows.clearUntilStable rounds rounds s₁).mono
      fun cleared es s₂ hm => ?_))
    refine .attempt (.sure ((ensures_consult fun b P hr o _ o' hP hf => ?_).mono ?_))
    · cases hf
      exact hr.unlockCreation o hP
    rintro - _ s₃ ⟨-, r', rfl, hu⟩
    refine (Keeps.attempt hallows.chained (.ofExcept hallows.chained cleared) (fun ids =>
      .attempt hallows.chained (.sure htell) fun _ => .done hallows.chained _) s₃).mono
      fun _ es' s' h => ?_
    have hwhole := (Clears.creation hl hm hu).before h
    simpa only [List.append_assoc] using hwhole

theorem plain_send (event : RegionEvent) (operation : ClearOperation) :
    Keeps (Orderly sur (·.isLocking = false)) (Coordinator.send sur event operation).run :=
  (allows_sur (fun _ h => h) operation).send event

theorem ensures_assignAndClear (rounds : Nat) (event : RegionEvent) (s : Scene σ) :
    Ensures (assignAndClear sur rounds event).run s fun _ es s' => Clears sur s es s' := by
  have hassign : Keeps (Orderly sur (·.isLocking = false)) (assignPrimaries sur).run :=
    keeps_tryTo (fun _ h => h) rfl nofun fun b P hr o hP => hr.assignPrimaries o hP
  refine .attempt ((hassign s).mono fun r es s₁ h => ?_)
  cases r with
  | error e => exact .of_plain h
  | ok _ =>
    have hadvance : Keeps (Orderly sur (·.isLocking = false)) (advance .clearing) :=
      keeps_advance fun _ => rfl
    refine .attempt (.sure ((hadvance s₁).mono fun _ es' s₂ h' => ?_))
    refine .attempt ((ensures_clearLocal rounds event s₂).mono fun r es'' s₃ h'' => ?_)
    cases r with
    | error e => exact .after h (.after h' h'')
    | ok ids =>
      refine .attempt ((plain_send event .clear s₃).mono fun r es₄ s₄ h₄ => ?_)
      cases r with
      | error e => exact .after h (.after h' (h''.before h₄))
      | ok more =>
        refine .done _ ?_
        rw [List.append_nil]
        exact .after h (.after h' (h''.before h₄))

/-! ## The clear lock -/

/-- What taking the clear lock here comes to: it is held, or it was refused and nothing was
done. -/
structure Locks (sur : Surroundings σ β) (s : Scene σ) (es : List Effect) (s' : Scene σ) :
    Prop where
  only : ∀ e ∈ es, ∃ id m, e = .bucketLocked id m
  retained : ∀ b P, sur.Retains b P → P s.outside → P s'.outside
  lock : s'.coordinator.lock.isLocked = true ∨
    s'.coordinator.lock = s.coordinator.lock ∧ es = []

theorem ensures_obtainLocal (requester : Member) (s : Scene σ) :
    Ensures (obtainLocal sur.toSite requester) s fun _ es s' => Locks sur s es s' := by
  refine .get_bind ?_
  cases hcur : sur.isCurrent s.outside requester with
  | false =>
    simp only [hcur, Bool.false_eq_true, if_false]
    exact .pure _ ⟨by simp, fun _ _ _ hP => hP, .inr ⟨rfl, rfl⟩⟩
  | true =>
    simp only [hcur, if_true]
    refine .bind ((Ensures.alter _).mono ?_)
    rintro - _ _ ⟨rfl, rfl⟩
    cases sur.buckets s.outside with
    | none => exact .pure _ ⟨by simp, fun _ _ _ hP => hP, .inl rfl⟩
    | some buckets =>
      refine (ensures_each _ _ buckets.primaries _).mono ?_
      rintro - _ s' ⟨rfl, hc, hkept⟩
      rw [List.nil_append]
      refine ⟨fun e he => ?_, fun b P hr hP => hkept P (fun b' o o' hPo hf => ?_) hP,
        .inl (by rw [hc]; rfl)⟩
      · obtain ⟨b, -, rfl⟩ := List.mem_map.1 he
        exact ⟨_, _, rfl⟩
      · obtain ⟨o'', ho, rfl⟩ : ∃ o'', sur.lockBucket b' requester o = some o'' ∧ o'' = o' := by
          simpa using hf
        exact hr.lockBucket b' requester o _ hPo ho

/-- What is done while the lock of the region is held. -/
structure Held (sur : Surroundings σ β) (s : Scene σ) (es : List Effect) (s' : Scene σ) :
    Prop where
  keeps : ∀ name, .unlocked name ∉ es
  balanced : Balanced es
  frees : s.coordinator.lock = {} → s'.coordinator.lock = {} ∧
    ∀ b P, sur.Retains b P → P s.outside → ReleasedAfter (sur.bucketId b) es

theorem not_unlocked (h : ∀ e ∈ es, Inner e) (name : String) : .unlocked name ∉ es := fun hm =>
  h _ hm

theorem not_bucketLocked (h : ∀ e ∈ es, Inner e) (id : Nat) (m : Member) :
    .bucketLocked id m ∉ es := fun hm => h _ hm

theorem Held.of_clears (h : Clears sur s es s') : Held sur s es s' where
  keeps := not_unlocked h.orderly.only
  balanced := h.balanced
  frees hfree := ⟨(h.orderly.free hfree).1, fun _ _ _ _ =>
    .of_unlocked (not_bucketLocked h.orderly.only _)⟩

theorem Held.after (h : Orderly sur (·.isLocking = false) s es s₁) (h' : Held sur s₁ es' s') :
    Held sur s (es ++ es') s' where
  keeps name hm := by
    rcases List.mem_append.1 hm with hm | hm
    · cases h.only _ hm
    · exact h'.keeps name hm
  balanced := h'.balanced.plain_append h.only
  frees hfree := by
    obtain ⟨hend, hreleased⟩ := h'.frees (h.free hfree).1
    refine ⟨hend, fun b P hr hP => .append (.of_unlocked fun m hm => ?_)
      (hreleased b P hr (h.retained b P hr hP))⟩
    cases h.only _ hm

theorem Held.before (h : Held sur s es s₁) (h' : Orderly sur (·.isLocking = false) s₁ es' s') :
    Held sur s (es ++ es') s' where
  keeps name hm := by
    rcases List.mem_append.1 hm with hm | hm
    · exact h.keeps name hm
    · cases h'.only _ hm
  balanced := h.balanced.append_plain h'.only
  frees hfree := by
    obtain ⟨hmid, hreleased⟩ := h.frees hfree
    refine ⟨(h'.free hmid).1, fun b P hr hP => .append (hreleased b P hr hP)
      (.of_unlocked fun m hm => ?_)⟩
    cases h'.only _ hm

/-- If the clear lock is free in the end, then whatever was locked for it was released. -/
theorem Held.of_locks (h : Locks sur s es s₁) (h' : Clears sur s₁ es' s')
    (hend : s'.coordinator.lock = {}) : Held sur s (es ++ es') s' where
  keeps name hm := by
    rcases List.mem_append.1 hm with hm | hm
    · obtain ⟨_, _, he⟩ := h.only _ hm
      cases he
    · exact not_unlocked h'.orderly.only name hm
  balanced := by
    refine Or.imp (fun hb => ?_) (fun hb => ?_) h'.balanced <;>
    · rw [List.filter_append, hb]
      rw [List.filter_eq_nil_iff.2 fun e he => ?_, List.nil_append]
      obtain ⟨_, _, rfl⟩ := h.only e he
      simp [Effect.isCreation]
  frees _ := by
    have hlater : ∀ id, ReleasedAfter id es' := fun id =>
      .of_unlocked (not_bucketLocked h'.orderly.only id)
    refine ⟨hend, fun b P hr hP => ?_⟩
    rcases h.lock with hlocked | ⟨-, rfl⟩
    · rcases h'.orderly.lock with ⟨hsame, -⟩ | ⟨-, -, hreleased⟩
      · rw [hsame.symm.trans hend] at hlocked
        cases hlocked
      · exact .of_released (hreleased b P hr (h.retained b P hr hP)) (hlater _)
    · exact hlater _

/-- The clear lock is taken, then the region is cleared. -/
theorem ensures_lockAndClear (rounds : Nat) (event : RegionEvent) (s : Scene σ) :
    Ensures (do obtainAll sur event; assignAndClear sur rounds event : Attempt σ (List Nat)).run s
      fun _ es s' => ∃ es₁ es₂ s₁, es = es₁ ++ es₂ ∧ Locks sur s es₁ s₁ ∧
        Clears sur s₁ es₂ s' := by
  have hobtain : Ensures (obtainAll sur event).run s fun _ es s' => ∃ es₁ es₂ s₁,
      es = es₁ ++ es₂ ∧ Locks sur s es₁ s₁ ∧ Orderly sur (·.isLocking = false) s₁ es₂ s' := by
    refine .get_attempt (.attempt (.sure ((ensures_obtainLocal _ s).mono ?_)))
    intro _ es₁ s₁ h₁
    have hsend : Keeps (Orderly sur (·.isLocking = false))
        (do let _ ← Coordinator.send sur event .lock; return () : Attempt σ Unit).run :=
      .attempt Orderly.chained (plain_send event .lock) fun _ => .done Orderly.chained _
    exact (hsend s₁).mono fun _ es₂ s₂ h₂ => ⟨es₁, es₂, s₁, rfl, h₁, h₂⟩
  refine .attempt (hobtain.mono ?_)
  rintro r _ s₂ ⟨es₁, es₂, s₁, rfl, h₁, h₂⟩
  cases r with
  | error e => exact ⟨es₁, es₂, s₁, rfl, h₁, .of_plain h₂⟩
  | ok _ =>
    refine (ensures_assignAndClear rounds event s₂).mono fun _ es₃ s₃ h₃ => ?_
    exact ⟨es₁, es₂ ++ es₃, s₁, List.append_assoc .., h₁, .after h₂ h₃⟩

/-- Even if no other member hears of it, the clear lock is given up here. -/
theorem ensures_releaseAll (event : RegionEvent) (s : Scene σ) :
    Ensures (releaseAll sur event).run s fun _ es s' =>
      Orderly sur (·.isLocking = false) s es s' ∧ s'.coordinator.lock = {} := by
  have hrelease : Ensures (releaseLocal sur.toSite) s fun _ es s' =>
      Orderly sur (·.isLocking = false) s es s' ∧ s'.coordinator.lock = {} :=
    ensures_releaseLocal fun _ => plain_of_reaction
  have hsend : Keeps (Orderly sur (·.isLocking = false))
      (do let _ ← Coordinator.send sur event .unlock; return () : Attempt σ Unit).run :=
    .attempt Orderly.chained (plain_send event .unlock) fun _ => .done Orderly.chained _
  refine .attempt (.sure (hrelease.mono fun _ es₁ s₁ h₁ => ?_))
  refine (hsend s₁).mono fun _ es₂ s₂ h₂ => ?_
  exact ⟨h₁.1.trans h₂, (h₂.free h₁.2).1⟩

theorem ensures_clearWhileLocked (rounds : Nat) (event : RegionEvent) (cacheWrite : Bool)
    (s : Scene σ) :
    Ensures (clearWhileLocked sur rounds event cacheWrite).run s fun _ es s' =>
      Held sur s es s' := by
  have hasked : Keeps (Orderly sur (·.isLocking = false))
      (if cacheWrite then askWriter sur event else pure () : Attempt σ Unit).run := by
    cases cacheWrite with
    | false => exact .done Orderly.chained _
    | true => exact keeps_tryTo (fun _ h => h) rfl nofun fun b P hr o hP => hr.askWriter event o hP
  unfold clearWhileLocked
  refine .optional (.attempt ((hasked s).mono fun r es₁ s₁ h₁ => ?_))
  cases r with
  | error e => exact .of_clears (.of_plain h₁)
  | ok _ =>
    refine Ensures.mono (Q := fun _ es s' => Held sur s₁ es s') ?_ fun _ _ _ h => .after h₁ h
    refine .get_attempt ?_
    cases mustTell sur s₁.outside with
    | false =>
      simp only [Bool.false_eq_true, if_false]
      exact (ensures_assignAndClear rounds event s₁).mono fun _ _ _ h => .of_clears h
    | true =>
      simp only [if_true]
      refine .attempt (.outcome ((ensures_lockAndClear rounds event s₁).mono ?_))
      rintro cleared _ s₃ ⟨es₂, es₃, s₂, rfl, h₂, h₃⟩
      refine .attempt (.outcome ((ensures_releaseAll event s₃).mono ?_))
      rintro released es₄ s₄ ⟨h₄, hfree⟩
      -- nothing is done once both have ended, whichever failed
      have hanswer : Keeps (Orderly sur (·.isLocking = false)) (do
          let ids ← MonadExcept.ofExcept cleared
          MonadExcept.ofExcept released
          return ids : Attempt σ (List Nat)).run :=
        .attempt Orderly.chained (.ofExcept Orderly.chained _) fun _ =>
          .attempt Orderly.chained (.ofExcept Orderly.chained _) fun _ =>
            .done Orderly.chained _
      refine (hanswer s₄).mono fun _ es₅ s₅ h₅ => ?_
      have hheld := Held.of_locks h₂ ((h₃.before h₄).before h₅) (h₅.free hfree).1
      simpa only [List.append_assoc] using hheld

end DataGrid.Coordinator
