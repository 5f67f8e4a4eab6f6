import DataGrid.Clear.Region

/-
What an act ensures however the outside answers: if it ends, its answer, what
it did and the scene it leaves are as said (`Ensures`). Unlike `Yields` this
speaks of what was done, and assumes nothing of members staying.

A relation between the scenes before and after and what was done between them
that may be chained (`Chained`) is kept by an act if its parts keep it
(`Keeps`); such are the rules for whole loops. What an attempt comes to if it
succeeds besides, whatever else is done around it, it `Attains`.
-/

namespace DataGrid

variable {σ β α γ : Type}

/-- If the act ends, then `Q` holds of its answer, of what it did and of the scene it leaves. -/
def Ensures (work : Act σ α) (s : Scene σ) (Q : α → List Effect → Scene σ → Prop) : Prop :=
  ∀ a s', work.run s = some (a, s') → ∃ es, s'.effects = s.effects ++ es ∧ Q a es s'

/-- The act ends, and `Q` holds. -/
def Comes (work : Act σ α) (s : Scene σ) (Q : α → List Effect → Scene σ → Prop) : Prop :=
  ∃ a s' es, work.run s = some (a, s') ∧ s'.effects = s.effects ++ es ∧ Q a es s'

theorem eq_ok_of_toOption {ε : Type} {r : Except ε α} {a : α} (h : r.toOption = some a) :
    r = .ok a := by
  cases r with
  | error e => cases h
  | ok a' => exact congrArg Except.ok (Option.some.inj h)

theorem Act.run_bind_eq {work : Act σ α} {next : α → Act σ γ} {s s' : Scene σ} {c : γ}
    (h : (work >>= next).run s = some (c, s')) :
    ∃ a s₁, work.run s = some (a, s₁) ∧ (next a).run s₁ = some (c, s') := by
  rw [StateT.run_bind] at h
  obtain ⟨⟨a, s₁⟩, hw, hn⟩ := Option.bind_eq_some_iff.1 h
  exact ⟨a, s₁, hw, hn⟩

/-- An attempt that succeeds does so part by part. -/
theorem Attempt.run_bind_ok {work : Attempt σ α} {next : α → Attempt σ γ} {s s' : Scene σ} {c : γ}
    (h : (work >>= next).run.run s = some (.ok c, s')) :
    ∃ a s₁, work.run.run s = some (.ok a, s₁) ∧ (next a).run.run s₁ = some (.ok c, s') := by
  rw [ExceptT.run_bind] at h
  obtain ⟨r, s₁, hw, hn⟩ := Act.run_bind_eq h
  cases r with
  | ok a => exact ⟨a, s₁, hw, hn⟩
  | error e => cases hn

theorem Attempt.run_get_bind {next : Scene σ → Attempt σ γ} (s : Scene σ) :
    (get >>= next).run.run s = (next s).run.run s := rfl

/-- What is sure to succeed, and the rest of an attempt. -/
theorem Attempt.run_sure_bind {work : Act σ α} {next : α → Attempt σ γ} {s s' : Scene σ}
    {r : Except ClearError γ} (h : (sure work >>= next).run.run s = some (r, s')) :
    ∃ a s₁, work.run s = some (a, s₁) ∧ (next a).run.run s₁ = some (r, s') := by
  rw [sure, ExceptT.run_bind, ExceptT.run_lift, bind_map_left] at h
  exact Act.run_bind_eq h

namespace Ensures

variable {work : Act σ α} {next : α → Act σ γ} {s : Scene σ}
  {Q Q' : α → List Effect → Scene σ → Prop} {Q₂ : γ → List Effect → Scene σ → Prop}

theorem mono (h : Ensures work s Q) (hq : ∀ a es s', Q a es s' → Q' a es s') :
    Ensures work s Q' := fun a s' hw => by
  obtain ⟨es, he, hQ⟩ := h a s' hw
  exact ⟨es, he, hq a es s' hQ⟩

theorem and (h : Ensures work s Q) (h' : Ensures work s Q') :
    Ensures work s fun a es s' => Q a es s' ∧ Q' a es s' := fun a s' hw => by
  obtain ⟨es, he, hQ⟩ := h a s' hw
  obtain ⟨es', he', hQ'⟩ := h' a s' hw
  obtain rfl : es = es' := List.append_cancel_left (he.symm.trans he')
  exact ⟨es, he, hQ, hQ'⟩

theorem pure (a : α) (h : Q a [] s) : Ensures (Pure.pure a) s Q := fun a' s' hw => by
  cases hw
  exact ⟨[], (List.append_nil _).symm, h⟩

theorem bind (h : Ensures work s fun a es s₁ =>
      Ensures (next a) s₁ fun c es' s₂ => Q₂ c (es ++ es') s₂) :
    Ensures (work >>= next) s Q₂ := fun c s₂ hw => by
  obtain ⟨a, s₁, hwork, hnext⟩ := Act.run_bind_eq hw
  obtain ⟨es, he, hrest⟩ := h a s₁ hwork
  obtain ⟨es', he', hQ⟩ := hrest c s₂ hnext
  exact ⟨es ++ es', by rw [he', he, List.append_assoc], hQ⟩

theorem get_bind {next : Scene σ → Act σ γ} (h : Ensures (next s) s Q₂) :
    Ensures (get >>= next) s Q₂ := h

theorem map (f : α → γ) (h : Ensures work s fun a es s' => Q₂ (f a) es s') :
    Ensures (f <$> work) s Q₂ := by
  rw [map_eq_pure_bind]
  exact bind (h.mono fun a es s' hQ => pure (f a) (by rw [List.append_nil]; exact hQ))

theorem failure : Ensures (failure : Act σ α) s Q := fun _ _ hw => by cases hw

theorem note (e : Effect) :
    Ensures (Coordinator.note e) s fun _ es s' =>
      es = [e] ∧ s' = { s with effects := s.effects ++ [e] } := fun _ s' hw => by
  cases hw
  exact ⟨[e], rfl, rfl, rfl⟩

theorem alter (f : Coordinator → Coordinator) :
    Ensures (Coordinator.alter f) s fun _ es s' =>
      es = [] ∧ s' = { s with coordinator := f s.coordinator } := fun _ s' hw => by
  cases hw
  exact ⟨[], (List.append_nil _).symm, rfl, rfl⟩

theorem outside (o : σ) :
    Ensures (modify fun s : Scene σ => { s with outside := o }) s fun _ es s' =>
      es = [] ∧ s' = { s with outside := o } := fun _ s' hw => by
  cases hw
  exact ⟨[], (List.append_nil _).symm, rfl, rfl⟩

theorem lift (x : Option α) :
    Ensures (liftM x : Act σ α) s fun a es s' => x = some a ∧ es = [] ∧ s' = s := fun a s' hw => by
  cases x with
  | none => cases hw
  | some b =>
    cases hw
    exact ⟨[], (List.append_nil _).symm, rfl, rfl, rfl⟩

/-- A call does one thing, and leaves the outside as the call does. -/
theorem call (e : Effect) (f : σ → Option (α × σ)) :
    Ensures (Coordinator.call e f) s fun a es s' =>
      es = [e] ∧ f s.outside = some (a, s'.outside) ∧ s'.coordinator = s.coordinator := by
  refine get_bind (bind ((lift (f s.outside)).mono ?_))
  rintro ⟨a, o⟩ _ _ ⟨hf, rfl, rfl⟩
  refine bind ((outside o).mono ?_)
  rintro - _ _ ⟨rfl, rfl⟩
  refine bind ((note e).mono ?_)
  rintro - _ _ ⟨rfl, rfl⟩
  exact pure a ⟨rfl, hf, rfl⟩

/-! ## Attempts -/

section

variable {work : Attempt σ α} {next : α → Attempt σ γ}
  {Q₂ : Except ClearError γ → List Effect → Scene σ → Prop}

/-- What follows on an answer, and what a failure comes to. -/
theorem attempt (h : Ensures work.run s fun r es s₁ =>
      match r with
      | .ok a => Ensures (next a).run s₁ fun c es' s₂ => Q₂ c (es ++ es') s₂
      | .error e => Q₂ (.error e) es s₁) : Ensures (work >>= next).run s Q₂ := by
  rw [ExceptT.run_bind]
  refine bind (h.mono fun r es s₁ hr => ?_)
  cases r with
  | ok a => exact hr
  | error e => exact pure _ (by rw [List.append_nil]; exact hr)

/-- What is done first only if it is to be done. -/
theorem optional {b : Bool} {a : α}
    (h : Ensures ((if b then work else Pure.pure a) >>= next).run s Q₂) :
    Ensures (if b then work >>= next else next a).run s Q₂ := by
  cases b <;> exact h

theorem get_attempt {next : Scene σ → Attempt σ γ} (h : Ensures (next s).run s Q₂) :
    Ensures (get >>= next).run s Q₂ := h

theorem done (c : γ) (h : Q₂ (.ok c) [] s) : Ensures (Pure.pure c : Attempt σ γ).run s Q₂ :=
  pure _ h

theorem thrown (e : ClearError) (h : Q₂ (.error e) [] s) :
    Ensures (throw e : Attempt σ γ).run s Q₂ := pure _ h

theorem ofExcept (r : Except ClearError γ) (h : Q₂ r [] s) :
    Ensures (MonadExcept.ofExcept r : Attempt σ γ).run s Q₂ := by
  cases r with
  | ok a => exact done a h
  | error e => exact thrown e h

theorem sure {work : Act σ γ} (h : Ensures work s fun a es s' => Q₂ (.ok a) es s') :
    Ensures (DataGrid.sure work).run s Q₂ := by
  rw [DataGrid.sure, ExceptT.run_lift]
  exact map _ h

theorem outcome {Q₂ : Except ClearError (Except ClearError α) → List Effect → Scene σ → Prop}
    (h : Ensures work.run s fun r es s' => Q₂ (.ok r) es s') :
    Ensures (Attempt.outcome work).run s Q₂ := sure h

end

end Ensures

/-! ## What is kept by all parts of an act -/

/-- A relation between two scenes and what was done between them that holds if nothing was done,
and of two acts one after the other. -/
structure Chained (R : Scene σ → List Effect → Scene σ → Prop) : Prop where
  refl : ∀ s, R s [] s
  trans : ∀ {s s₁ s₂ es es'}, R s es s₁ → R s₁ es' s₂ → R s (es ++ es') s₂

/-- What was done before, and what is ensured of the rest. -/
theorem Ensures.chain {R : Scene σ → List Effect → Scene σ → Prop} (hR : Chained R)
    {work : Act σ α} {s s₁ : Scene σ} {es : List Effect} (h : R s es s₁)
    (hw : Ensures work s₁ fun _ es' s' => R s₁ es' s') :
    Ensures work s₁ fun _ es' s' => R s (es ++ es') s' := hw.mono fun _ _ _ h' => hR.trans h h'

/-- Whenever the act ends, the relation holds. -/
def Keeps (R : Scene σ → List Effect → Scene σ → Prop) (work : Act σ α) : Prop :=
  ∀ s, Ensures work s fun _ es s' => R s es s'

namespace Keeps

variable {R R' : Scene σ → List Effect → Scene σ → Prop}

theorem mono {work : Act σ α} (h : Keeps R work) (hr : ∀ {s es s'}, R s es s' → R' s es s') :
    Keeps R' work := fun s => (h s).mono fun _ _ _ => hr

theorem failure : Keeps R (failure : Act σ α) := fun _ => .failure

theorem get_bind {next : Scene σ → Act σ γ} (h : ∀ s, Keeps R (next s)) :
    Keeps R (get >>= next) := fun s => h s s

theorem ite {p : Prop} [Decidable p] {yes no : Act σ α} (hyes : p → Keeps R yes)
    (hno : ¬ p → Keeps R no) : Keeps R (if p then yes else no) := by
  split
  next hp => exact hyes hp
  next hp => exact hno hp

theorem get_attempt {next : Scene σ → Attempt σ γ} (h : ∀ s, Keeps R (next s).run) :
    Keeps R (get >>= next).run := fun s => h s s

theorem optional {work : Attempt σ α} {next : α → Attempt σ γ} {b : Bool} {a : α}
    (h : Keeps R ((if b then work else Pure.pure a) >>= next).run) :
    Keeps R (if b then work >>= next else next a).run := fun s => .optional (h s)

theorem sure {work : Act σ α} (h : Keeps R work) : Keeps R (DataGrid.sure work).run := fun s =>
  .sure (h s)

theorem outcome {work : Attempt σ α} (h : Keeps R work.run) :
    Keeps R (Attempt.outcome work).run := sure h

section

variable (hR : Chained R)

include hR

theorem pure (a : α) : Keeps R (Pure.pure a : Act σ α) := fun s => .pure a (hR.refl s)

theorem bind {work : Act σ α} {next : α → Act σ γ} (h : Keeps R work)
    (hnext : ∀ a, Keeps R (next a)) : Keeps R (work >>= next) := fun s =>
  .bind ((h s).mono fun a _ s₁ hes => (hnext a s₁).mono fun _ _ _ hes' => hR.trans hes hes')

theorem forM {act : α → Act σ PUnit} : ∀ (l : List α), (∀ a ∈ l, Keeps R (act a)) →
    Keeps R (l.forM act)
  | [], _ => pure hR _
  | a :: l, h => bind hR (h a List.mem_cons_self) fun _ =>
      forM l fun b hb => h b (List.mem_cons_of_mem _ hb)

theorem attempt {work : Attempt σ α} {next : α → Attempt σ γ} (h : Keeps R work.run)
    (hnext : ∀ a, Keeps R (next a).run) : Keeps R (work >>= next).run := by
  rw [ExceptT.run_bind]
  refine bind hR h fun r => ?_
  cases r with
  | ok a => exact hnext a
  | error e => exact pure hR _

theorem done (a : α) : Keeps R (Pure.pure a : Attempt σ α).run := pure hR _

theorem thrown (e : ClearError) : Keeps R (throw e : Attempt σ α).run := pure hR _

theorem ofExcept (r : Except ClearError α) :
    Keeps R (MonadExcept.ofExcept r : Attempt σ α).run := fun s => .ofExcept r (hR.refl s)

theorem mapM {act : α → Attempt σ γ} : ∀ (l : List α), (∀ a ∈ l, Keeps R (act a).run) →
    Keeps R (l.mapM act).run
  | [], _ => done hR _
  | a :: l, h => by
    rw [List.mapM_cons]
    exact attempt hR (h a List.mem_cons_self) fun _ =>
      attempt hR (mapM l fun b hb => h b (List.mem_cons_of_mem _ hb)) fun _ => done hR _

end

end Keeps

/-! ## What an attempt attains -/

/-- The attempt keeps the relation `R`, and if it succeeds then `P` holds of the scenes before and
after. -/
def Attains (R : Scene σ → List Effect → Scene σ → Prop) (P : Scene σ → Scene σ → Prop)
    (work : Attempt σ α) : Prop :=
  ∀ s, Ensures work.run s fun r es s' => R s es s' ∧ (r.toBool = true → P s s')

/-- Acts that keep the relation make no difference to `P`, whether they come before or after. -/
structure Lasting (R : Scene σ → List Effect → Scene σ → Prop) (P : Scene σ → Scene σ → Prop) :
    Prop where
  after : ∀ {s s₁ s₂ es}, R s es s₁ → P s₁ s₂ → P s s₂
  before : ∀ {s s₁ s₂ es es'}, R s es s₁ → P s s₁ → R s₁ es' s₂ → P s s₂

theorem lasting_const {R : Scene σ → List Effect → Scene σ → Prop} (p : Prop) :
    Lasting R fun _ _ => p := ⟨fun _ h => h, fun _ h _ => h⟩

theorem Keeps.attains {R : Scene σ → List Effect → Scene σ → Prop} {P : Scene σ → Scene σ → Prop}
    {work : Attempt σ α} (h : Keeps R work.run) (hP : ∀ s s', P s s') : Attains R P work := fun s =>
  (h s).mono fun _ _ s' hR => ⟨hR, fun _ => hP s s'⟩

namespace Attains

variable {R : Scene σ → List Effect → Scene σ → Prop} {P Q : Scene σ → Scene σ → Prop}
  {work : Attempt σ α} {next : α → Attempt σ γ}

theorem keeps (h : Attains R P work) : Keeps R work.run := fun s =>
  (h s).mono fun _ _ _ hR => hR.1

theorem get_attempt {next : Scene σ → Attempt σ γ} (h : ∀ s, Attains R P (next s)) :
    Attains R P (get >>= next) := fun s => h s s

theorem failure : Attains R P (DataGrid.sure (failure : Act σ α)) := fun _ => .sure .failure

theorem optional {b : Bool} {a : α} (h : Attains R P ((if b then work else Pure.pure a) >>= next)) :
    Attains R P (if b then work >>= next else next a) := fun s => .optional (h s)

section

variable (hR : Chained R)

include hR

/-- A failure attains whatever is wanted. -/
theorem thrown (e : ClearError) : Attains R P (throw e : Attempt σ α) := fun s =>
  .thrown e ⟨hR.refl s, nofun⟩

theorem bind (hP : Lasting R P) (hQ : Lasting R Q) (h : Attains R P work)
    (hnext : ∀ a, Attains R Q (next a)) :
    Attains R (fun s s' => P s s' ∧ Q s s') (work >>= next) := fun s => by
  refine .attempt ((h s).mono fun r es s₁ ⟨hfirst, hdone⟩ => ?_)
  cases r with
  | error e => exact ⟨hfirst, nofun⟩
  | ok a =>
    refine (hnext a s₁).mono fun r es' s₂ ⟨hrest, hdone'⟩ => ⟨hR.trans hfirst hrest, fun hr => ?_⟩
    exact ⟨hP.before hfirst (hdone rfl) hrest, hQ.after hfirst (hdone' hr)⟩

theorem after (hP : Lasting R P) (h : Keeps R work.run) (hnext : ∀ a, Attains R P (next a)) :
    Attains R P (work >>= next) := fun s =>
  (bind hR (lasting_const True) hP (h.attains fun _ _ => trivial) hnext s).mono fun _ _ _ ⟨hR, hdone⟩ =>
    ⟨hR, fun hr => (hdone hr).2⟩

theorem before (hP : Lasting R P) (h : Attains R P work) (hnext : ∀ a, Keeps R (next a).run) :
    Attains R P (work >>= next) := fun s =>
  (bind hR hP (lasting_const True) h (fun a => (hnext a).attains fun _ _ => trivial) s).mono
    fun _ _ _ ⟨hR, hdone⟩ => ⟨hR, fun hr => (hdone hr).1⟩

end

end Attains

/-! ## Acts that end -/

namespace Comes

variable {work : Act σ α} {next : α → Act σ γ} {s : Scene σ}
  {Q Q' : α → List Effect → Scene σ → Prop} {Q₂ : γ → List Effect → Scene σ → Prop}

theorem mono (h : Comes work s Q) (hq : ∀ a es s', Q a es s' → Q' a es s') :
    Comes work s Q' := by
  obtain ⟨a, s', es, hw, he, hQ⟩ := h
  exact ⟨a, s', es, hw, he, hq a es s' hQ⟩

/-- An act that ends does what it ensures. -/
theorem ensured (h : Comes work s Q) (hq : Ensures work s Q') :
    Comes work s fun a es s' => Q a es s' ∧ Q' a es s' := by
  obtain ⟨a, s', es, hw, he, hQ⟩ := h
  obtain ⟨es', he', hQ'⟩ := hq a s' hw
  obtain rfl : es = es' := List.append_cancel_left (he.symm.trans he')
  exact ⟨a, s', es, hw, he, hQ, hQ'⟩

/-- Nothing else can come of an act. -/
theorem ensures (h : Comes work s Q) : Ensures work s Q := fun a s' hw => by
  obtain ⟨a', s'', es, hw', he, hQ⟩ := h
  rw [hw] at hw'
  cases hw'
  exact ⟨es, he, hQ⟩

/-- The run of an act that is known to end. -/
theorem of_run {a : α} {s' : Scene σ} (h : work.run s = some (a, s')) (hq : Ensures work s Q) :
    Comes work s fun a' es s'' => a' = a ∧ s'' = s' ∧ Q a' es s'' := by
  obtain ⟨es, he, hQ⟩ := hq a s' h
  exact ⟨a, s', es, h, he, rfl, rfl, hQ⟩

theorem pure (a : α) (h : Q a [] s) : Comes (Pure.pure a) s Q :=
  ⟨a, s, [], rfl, (List.append_nil _).symm, h⟩

theorem bind (h : Comes work s fun a es s₁ =>
      Comes (next a) s₁ fun c es' s₂ => Q₂ c (es ++ es') s₂) : Comes (work >>= next) s Q₂ := by
  obtain ⟨a, s₁, es, hw, he, c, s₂, es', hn, he', hQ⟩ := h
  exact ⟨c, s₂, es ++ es', by rw [StateT.run_bind, hw]; exact hn,
    by rw [he', he, List.append_assoc], hQ⟩

theorem get_bind {next : Scene σ → Act σ γ} (h : Comes (next s) s Q₂) :
    Comes (get >>= next) s Q₂ := h

theorem forM {act : α → Act σ PUnit} (h : ∀ a s, Comes (act a) s fun _ _ _ => True) :
    ∀ (l : List α) s, Comes (l.forM act) s fun _ _ _ => True
  | [], _ => pure _ trivial
  | a :: l, s => bind ((h a s).mono fun _ _ s₁ _ => forM h l s₁)

theorem alter (f : Coordinator → Coordinator) :
    Comes (Coordinator.alter f) s fun _ es s' =>
      es = [] ∧ s' = { s with coordinator := f s.coordinator } :=
  ⟨(), _, [], rfl, (List.append_nil _).symm, rfl, rfl⟩

theorem note (e : Effect) :
    Comes (Coordinator.note e) s fun _ es s' =>
      es = [e] ∧ s' = { s with effects := s.effects ++ [e] } :=
  ⟨(), _, [e], rfl, rfl, rfl, rfl⟩

theorem call (e : Effect) {f : σ → Option (α × σ)} {a : α} {o : σ}
    (h : f s.outside = some (a, o)) :
    Comes (Coordinator.call e f) s fun a' es s' =>
      a' = a ∧ es = [e] ∧ s' = { s with outside := o, effects := s.effects ++ [e] } := by
  have hlift : Comes (liftM (f s.outside) : Act σ (α × σ)) s fun p es s' =>
      p = (a, o) ∧ es = [] ∧ s' = s :=
    ⟨(a, o), s, [], by rw [h]; rfl, (List.append_nil _).symm, rfl, rfl, rfl⟩
  refine get_bind (bind (hlift.mono ?_))
  rintro _ _ _ ⟨rfl, rfl, rfl⟩
  exact ⟨a, _, [e], rfl, rfl, rfl, rfl, rfl⟩

/-! ## Attempts -/

section

variable {work : Attempt σ α} {next : α → Attempt σ γ}
  {Q₂ : Except ClearError γ → List Effect → Scene σ → Prop}

theorem attempt (h : Comes work.run s fun r es s₁ =>
      match r with
      | .ok a => Comes (next a).run s₁ fun c es' s₂ => Q₂ c (es ++ es') s₂
      | .error e => Q₂ (.error e) es s₁) : Comes (work >>= next).run s Q₂ := by
  rw [ExceptT.run_bind]
  refine bind (h.mono fun r es s₁ hr => ?_)
  cases r with
  | ok a => exact hr
  | error e => exact pure _ (by rw [List.append_nil]; exact hr)

theorem optional {b : Bool} {a : α}
    (h : Comes ((if b then work else Pure.pure a) >>= next).run s Q₂) :
    Comes (if b then work >>= next else next a).run s Q₂ := by
  cases b <;> exact h

theorem get_attempt {next : Scene σ → Attempt σ γ} (h : Comes (next s).run s Q₂) :
    Comes (get >>= next).run s Q₂ := h

theorem done (c : γ) (h : Q₂ (.ok c) [] s) : Comes (Pure.pure c : Attempt σ γ).run s Q₂ :=
  pure _ h

theorem thrown (e : ClearError) (h : Q₂ (.error e) [] s) :
    Comes (throw e : Attempt σ γ).run s Q₂ := pure _ h

theorem sure {work : Act σ γ} (h : Comes work s fun a es s' => Q₂ (.ok a) es s') :
    Comes (DataGrid.sure work).run s Q₂ := by
  rw [DataGrid.sure, ExceptT.run_lift, map_eq_pure_bind]
  exact bind (h.mono fun a es s' hQ => pure _ (by rw [List.append_nil]; exact hQ))

theorem outcome {Q₂ : Except ClearError (Except ClearError α) → List Effect → Scene σ → Prop}
    (h : Comes work.run s fun r es s' => Q₂ (.ok r) es s') :
    Comes (Attempt.outcome work).run s Q₂ := sure h

end

end Comes
end DataGrid
