import DataGrid.Clear.Surroundings

/-
What a coordinator's acts come to: the answer, and the coordinator and the
outside as they are left. What was done before makes no difference to an act,
so the record of it is not spoken of (`Yields`). The rules follow the way acts
are put together, and cover members that nobody leaves meanwhile (`Settled`).
-/

namespace DataGrid

variable {σ β α γ : Type} {k k' k'' : Coordinator} {o o' o'' : σ}

/-- The act ends with the answer `a` and leaves the coordinator `k'` and the outside `o'`. -/
def Yields (work : Act σ α) (k : Coordinator) (o : σ) (a : α) (k' : Coordinator) (o' : σ) : Prop :=
  ∀ effects, ∃ effects', work.run ⟨k, o, effects⟩ = some (a, ⟨k', o', effects'⟩)

namespace Yields

theorem pure (a : α) : Yields (Pure.pure a) k o a k o := fun effects => ⟨effects, rfl⟩

theorem bind {work : Act σ α} {next : α → Act σ γ} {a : α} {c : γ}
    (h : Yields work k o a k' o') (hnext : Yields (next a) k' o' c k'' o'') :
    Yields (work >>= next) k o c k'' o'' := fun effects => by
  obtain ⟨effects', hw⟩ := h effects
  obtain ⟨effects'', hn⟩ := hnext effects'
  exact ⟨effects'', by rw [StateT.run_bind, hw]; exact hn⟩

/-- What an act looks at is the coordinator and the outside. -/
theorem get_bind {next : Scene σ → Act σ γ} {c : γ}
    (h : ∀ effects, Yields (next ⟨k, o, effects⟩) k o c k' o') :
    Yields (get >>= next) k o c k' o' := fun effects => h effects effects

theorem map {work : Act σ α} {a : α} (f : α → γ) (h : Yields work k o a k' o') :
    Yields (f <$> work) k o (f a) k' o' := fun effects => by
  obtain ⟨effects', hw⟩ := h effects
  exact ⟨effects', by rw [StateT.run_map, hw]; rfl⟩

theorem ite {p : Prop} [Decidable p] {yes no : Act σ α} {a : α}
    (hyes : p → Yields yes k o a k' o') (hno : ¬ p → Yields no k o a k' o') :
    Yields (if p then yes else no) k o a k' o' := by
  split
  next hp => exact hyes hp
  next hp => exact hno hp

theorem note (e : Effect) : Yields (Coordinator.note e) k o () k o :=
  fun effects => ⟨effects ++ [e], rfl⟩

theorem alter (f : Coordinator → Coordinator) : Yields (Coordinator.alter f) k o () (f k) o :=
  fun effects => ⟨effects, rfl⟩

theorem advance (next : ClearPhase) :
    Yields (Coordinator.advance next) k o () { k with phase := next } o :=
  fun effects => ⟨effects ++ [.advanced k.phase next], rfl⟩

theorem outside (o' : σ) :
    Yields (modify fun s : Scene σ => { s with outside := o' }) k o () k o' :=
  fun effects => ⟨effects, rfl⟩

theorem call (e : Effect) {f : σ → Option (α × σ)} {a : α} (h : f o = some (a, o')) :
    Yields (Coordinator.call e f) k o a k o' := by
  refine get_bind fun effects => ?_
  have hanswer : Yields (liftM (f o)) k o (a, o') k o := fun effects => ⟨effects, by rw [h]; rfl⟩
  exact bind hanswer (bind (outside o') (bind (note e) (pure a)))

theorem perform (e : Effect) (f : σ → σ) : Yields (Coordinator.perform e f) k o () k (f o) :=
  call e rfl

/-! ## Attempts -/

section

variable {work : Attempt σ α} {next : α → Attempt σ γ}

theorem attempt {a : α} {c : Except ClearError γ} (h : Yields work.run k o (.ok a) k' o')
    (hnext : Yields (next a).run k' o' c k'' o'') : Yields (work >>= next).run k o c k'' o'' := by
  rw [ExceptT.run_bind]
  exact bind h hnext

/-- A failure ends a larger attempt. -/
theorem fail {e : ClearError} (h : Yields work.run k o (.error e) k' o') :
    Yields (work >>= next).run k o (.error e) k' o' := by
  rw [ExceptT.run_bind]
  exact bind h (pure _)

theorem done (a : α) : Yields (Pure.pure a : Attempt σ α).run k o (.ok a) k o := pure _

theorem thrown (e : ClearError) : Yields (throw e : Attempt σ α).run k o (.error e) k o := pure _

theorem ofExcept (r : Except ClearError α) :
    Yields (MonadExcept.ofExcept r : Attempt σ α).run k o r k o := by
  cases r with
  | ok a => exact done a
  | error e => exact thrown e

theorem get_attempt {next : Scene σ → Attempt σ γ} {c : Except ClearError γ}
    (h : ∀ effects, Yields (next ⟨k, o, effects⟩).run k o c k' o') :
    Yields (get >>= next).run k o c k' o' := fun effects => h effects effects

theorem sure {work : Act σ α} {a : α} (h : Yields work k o a k' o') :
    Yields (DataGrid.sure work).run k o (.ok a) k' o' := by
  rw [DataGrid.sure, ExceptT.run_lift]
  exact map _ h

theorem outcome {r : Except ClearError α} (h : Yields work.run k o r k' o') :
    Yields (Attempt.outcome work).run k o (.ok r) k' o' := sure h

end

end Yields

/-! ## Where nobody leaves -/

/-- No member ever leaves. -/
def Site.Settled (site : Site σ β) : Prop := ∀ o, site.departures o = ([], o)

section

variable {site : Site σ β} (hsite : site.Settled)

include hsite

theorem Yields.hearDepartures : Yields (Coordinator.hearDepartures site) k o () k o := by
  have hnone : ∀ o, site.departures o = ([], o) := hsite
  refine get_bind fun effects => ?_
  simp only [hnone]
  exact bind (outside o) (pure ())

theorem Yields.consult (e : Effect) {f : σ → Option (α × σ)} {a : α} (h : f o = some (a, o')) :
    Yields (Coordinator.consult site e f) k o a k o' :=
  bind (call e h) (bind (hearDepartures hsite) (pure a))

theorem Yields.tryTo (e : Effect) {f : σ → Except ClearError α × σ} {a : Except ClearError α}
    (h : f o = (a, o')) : Yields (Coordinator.tryTo site e f).run k o a k o' :=
  consult hsite e (congrArg some h)

end

/-- The answer of a call that may not end, and says nothing if it does. -/
theorem some_of_map_unit {σ : Type} {x : Option σ} {o : σ} {u : Unit}
    (h : x.map ((), ·) = some (u, o)) : x = some o := by
  obtain ⟨o', hx, heq⟩ := Option.map_eq_some_iff.1 h
  cases heq
  exact hx

end DataGrid
