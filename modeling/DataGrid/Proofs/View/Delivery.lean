import DataGrid.View.Listening
import DataGrid.Ordered.Lemmas

/-
Every change of a view is told to each listener there is, once, and to no other
(`WatchedView.run_delivers`), however deep the listeners call back.

A stretch of a run adds answers and notices to the record. The answers lead
from view to view (`Leads`), so a change that is made while another is being
told of has a larger id, and the notices of the two are told apart by their
cause. What a stretch tells of the change with some id is what its answers owe
(`Stretch.heard`). This is kept when stretches are put one after the other, and
the telling of a change adds to the stretches of the callbacks what that change
owes itself.
-/

namespace DataGrid

/-! ## Answers -/

/-- A change that makes a difference makes it for the member it names. -/
theorem View.of_change {v v' : View} {c : Change} (h : v.change? c = some v') :
    v'.id = v.id + 1 ∧ ∃ m, v.isCurrent m ≠ v'.isCurrent m := by
  cases c with
  | joined m =>
    simp only [change?] at h
    split at h <;> cases h
    next habsent => exact ⟨rfl, m, by simpa [isCurrent, OrdSet.contains_insert] using habsent⟩
  | departed m crashed =>
    simp only [change?] at h
    split at h <;> cases h
    next hpresent => exact ⟨rfl, m, by simpa [isCurrent] using hpresent⟩

/-- The answer tells a change that was made from one that was not. -/
structure Answer.Right (a : Answer) : Prop where
  id : a.after.id = a.before.id + a.made.toNat
  changed : a.made = true ↔ ∃ m, a.before.isCurrent m ≠ a.after.isCurrent m

theorem WatchedView.right_answerTo (w : WatchedView) (c : Change) : (w.answerTo c).Right := by
  cases h : w.view.change? c with
  | none => exact ⟨by simp [answerTo, h], by simp [answerTo, h]⟩
  | some v =>
    obtain ⟨hid, hchanged⟩ := View.of_change h
    exact ⟨by simp [answerTo, h, hid], by simpa [answerTo, h] using hchanged⟩

/-- Each answer is right and was given in the view that the one before it left. -/
inductive Leads : View → List Answer → View → Prop
  | nil (v : View) : Leads v [] v
  | cons {a : Answer} {as : List Answer} {v : View} (right : a.Right) (rest : Leads a.after as v) :
      Leads a.before (a :: as) v

namespace Leads

variable {v v' v'' : View} {as bs : List Answer}

theorem append (h : Leads v as v') (h' : Leads v' bs v'') : Leads v (as ++ bs) v'' := by
  induction h with
  | nil => exact h'
  | cons right _ ih => exact .cons right (ih h')

theorem right (h : Leads v as v') : ∀ a ∈ as, a.Right := by
  induction h with
  | nil => exact nofun
  | cons right _ ih => exact List.forall_mem_cons.2 ⟨right, ih⟩

theorem id_eq (h : Leads v as v') : v'.id = v.id + as.countP (·.made) := by
  induction h with
  | nil => rfl
  | @cons a as v' right _ ih =>
    rw [ih, right.id, List.countP_cons]
    cases a.made <;> simp +arith

theorem id_le (h : Leads v as v') : v.id ≤ v'.id := h.id_eq ▸ Nat.le_add_right ..

theorem id_lt (h : Leads v as v') : ∀ a ∈ as, a.made = true → v.id < a.after.id := by
  induction h with
  | nil => exact nofun
  | @cons a as v' right _ ih =>
    have hid := right.id
    refine List.forall_mem_cons.2 ⟨fun hmade => ?_, fun b hb hmade => ?_⟩
    · rw [hid, hmade]
      exact Nat.lt_succ_self _
    · exact Nat.lt_of_le_of_lt (hid ▸ Nat.le_add_right ..) (ih b hb hmade)

end Leads

/-! ## What answers owe and what was told -/

/-- To whom, and of what, notices are due to these listeners if the change made the id `k`. -/
def Answer.due (a : Answer) (ls : List Nat) (k : Nat) : List (Nat × Change) :=
  if a.after.id = k then ls.map (·, a.change) else []

theorem Answer.due_append (a : Answer) (ls ls' : List Nat) (k : Nat) :
    a.due (ls ++ ls') k = a.due ls k ++ a.due ls' k := by
  by_cases hk : a.after.id = k <;> simp [due, hk]

/-- The notices that an answer owes with the cause `k`. -/
def Answer.owed (k : Nat) (a : Answer) : List (Nat × Change) :=
  if a.made then a.due (List.range a.audience) k else []

theorem Answer.of_mem_owed {k : Nat} {a : Answer} {p : Nat × Change} (h : p ∈ a.owed k) :
    a.made = true ∧ a.after.id = k := by
  rw [owed] at h
  split at h
  next hmade =>
    rw [due] at h
    split at h
    next hid => exact ⟨hmade, hid⟩
    next => cases h
  next => cases h

theorem Answer.owed_eq_nil {k : Nat} {a : Answer} (h : a.made = true → a.after.id ≠ k) :
    a.owed k = [] :=
  List.eq_nil_iff_forall_not_mem.2 fun _ hp => h (of_mem_owed hp).1 (of_mem_owed hp).2

/-- To whom, and of what, notices with the cause `k` were given. -/
def noticesOf (k : Nat) (told : List Notice) : List (Nat × Change) :=
  (told.filter (·.cause == k)).map fun n => (n.listener, n.change)

theorem noticesOf_append (k : Nat) (told told' : List Notice) :
    noticesOf k (told ++ told') = noticesOf k told ++ noticesOf k told' := by
  rw [noticesOf, List.filter_append, List.map_append]
  rfl

namespace Leads

variable {v v' : View} {as : List Answer} {k : Nat}

/-- Nothing is owed for ids that the view has left behind. -/
theorem owed_eq_nil (h : Leads v as v') (hk : k ≤ v.id) : as.flatMap (·.owed k) = [] := by
  refine List.flatMap_eq_nil_iff.2 fun a ha => Answer.owed_eq_nil fun hmade => ?_
  exact Nat.ne_of_gt (Nat.lt_of_le_of_lt hk (h.id_lt a ha hmade))

/-- No two changes are owed for under the same id. -/
theorem owed_eq (h : Leads v as v') {a : Answer} (ha : a ∈ as) (hmade : a.made = true) :
    as.flatMap (·.owed a.after.id) = (List.range a.audience).map (·, a.change) := by
  induction h with
  | nil => cases ha
  | @cons b as v' right rest ih =>
    rw [List.flatMap_cons]
    rcases List.mem_cons.1 ha with rfl | ha
    · rw [rest.owed_eq_nil (Nat.le_refl _), List.append_nil]
      simp [Answer.owed, Answer.due, hmade]
    · have hother : b.owed a.after.id = [] :=
        Answer.owed_eq_nil fun _ => Nat.ne_of_lt (rest.id_lt a ha hmade)
      rw [hother, List.nil_append, ih ha]

end Leads

namespace WatchedView

variable {w w' w'' : WatchedView} {due due' : Nat → List (Nat × Change)} {as bs : List Answer}
  {ts us : List Notice}

/-- A stretch of a run from `w` to `w'`, in which notices `due` from before are given as well as
those that the stretch owes itself. -/
structure Stretch (due : Nat → List (Nat × Change)) (w w' : WatchedView) (as : List Answer)
    (ts : List Notice) : Prop where
  answers : w'.answers = w.answers ++ as
  told : w'.told = w.told ++ ts
  leads : Leads w.view as w'.view
  heard : ∀ k, noticesOf k ts = due k ++ as.flatMap (·.owed k)

theorem Stretch.refl (w : WatchedView) : Stretch (fun _ => []) w w [] [] :=
  ⟨(List.append_nil _).symm, (List.append_nil _).symm, .nil _, fun _ => rfl⟩

/-- What the second stretch finds due may not mix with what the first owes itself. -/
theorem Stretch.trans (h : Stretch due w w' as ts) (h' : Stretch due' w' w'' bs us)
    (hapart : ∀ k, as.flatMap (·.owed k) = [] ∨ due' k = []) :
    Stretch (fun k => due k ++ due' k) w w'' (as ++ bs) (ts ++ us) where
  answers := by rw [h'.answers, h.answers, List.append_assoc]
  told := by rw [h'.told, h.told, List.append_assoc]
  leads := h.leads.append h'.leads
  heard k := by
    rw [noticesOf_append, h.heard, h'.heard, List.flatMap_append]
    rcases hapart k with hnone | hnone <;> simp [hnone]

/-- Each request says of its change whether it was made, and starts a stretch that gives the
notices for it and for all that follows from it. -/
def Delivers (ask : Change → WatchedView → Option (Bool × WatchedView)) : Prop :=
  ∀ c w made w', ask c w = some (made, w') →
    made = (w.answerTo c).made ∧ ∃ as ts, Stretch (fun _ => []) w w' (w.answerTo c :: as) ts

variable {ask : Change → WatchedView → Option (Bool × WatchedView)}

theorem conduct_stretch (hask : Delivers ask) {calls : Calls} (h : conduct ask calls w = some w') :
    ∃ as ts, Stretch (fun _ => []) w w' as ts := by
  induction calls generalizing w with
  | done =>
    cases h
    exact ⟨[], [], .refl _⟩
  | ask c next ih =>
    obtain ⟨⟨made, w₁⟩, hfirst, hrest⟩ := Option.bind_eq_some_iff.1 h
    obtain ⟨_, as, ts, hstretch⟩ := hask c w made w₁ hfirst
    obtain ⟨bs, us, hstretch'⟩ := ih made w₁.view hrest
    exact ⟨_, _, hstretch.trans hstretch' fun _ => .inr rfl⟩
  | listen l next _ ih =>
    obtain ⟨as, ts, hstretch⟩ := ih h
    exact ⟨as, ts, { hstretch with }⟩

variable {a : Answer}

/-- To tell one listener gives the notice to it, and then those that its calls owe. -/
theorem tell_stretch (hask : Delivers ask) {l : Listener × Nat} (h : tell ask a w l = some w') :
    ∃ as ts, Stretch (a.due [l.2]) w w' as ts := by
  obtain ⟨as, ts, hstretch⟩ := conduct_stretch hask h
  refine ⟨as, ⟨l.2, a.change, a.after.id, w.view⟩ :: ts, {
    hstretch with
    told := by rw [hstretch.told, List.append_assoc]; rfl
    heard := fun k => ?_ }⟩
  have hrest := hstretch.heard k
  by_cases hk : a.after.id = k <;> simp_all [noticesOf, Answer.due]

/-- Listeners are told in their order. A callback finds the view at the id of the change or past
it, so what it owes is not taken for what the change owes. -/
theorem tellAll_stretch (hask : Delivers ask) {ls : List (Listener × Nat)}
    (hid : a.after.id ≤ w.view.id) (h : ls.foldlM (tell ask a) w = some w') :
    ∃ as ts, Stretch (a.due (ls.map (·.2))) w w' as ts := by
  induction ls generalizing w with
  | nil =>
    cases h
    exact ⟨[], [], { Stretch.refl _ with heard := fun k => by simp [noticesOf, Answer.due] }⟩
  | cons l ls ih =>
    rw [List.foldlM_cons] at h
    obtain ⟨w₁, hfirst, hrest⟩ := Option.bind_eq_some_iff.1 h
    obtain ⟨as, ts, hstretch⟩ := tell_stretch hask hfirst
    obtain ⟨bs, us, hstretch'⟩ := ih (Nat.le_trans hid hstretch.leads.id_le) hrest
    have hboth := hstretch.trans hstretch' fun k => by
      by_cases hk : a.after.id = k
      · exact .inl (hstretch.leads.owed_eq_nil (hk ▸ hid))
      · exact .inr (if_neg hk)
    exact ⟨as ++ bs, ts ++ us, { hboth with
      heard := fun k => (hboth.heard k).trans (by rw [← a.due_append]; rfl) }⟩

theorem request_delivers (depth : Nat) : Delivers (request depth) := by
  induction depth with
  | zero => exact nofun
  | succ depth ih =>
    intro c w made w' h
    have hfirst : Leads w.view [w.answerTo c] (w.answered (w.answerTo c)).view :=
      .cons (w.right_answerTo c) (.nil _)
    simp only [request] at h
    split at h
    next hmade =>
      obtain ⟨w₁, htold, heq⟩ := Option.map_eq_some_iff.1 h
      cases heq
      obtain ⟨as, ts, hstretch⟩ := tellAll_stretch ih (Nat.le_refl _) htold
      refine ⟨hmade.symm, as, ts, ?_, hstretch.told, hfirst.append hstretch.leads, fun k => ?_⟩
      · rw [hstretch.answers, answered, List.append_assoc]
        rfl
      · have hall : w.listeners.zipIdx.map (·.2) = List.range (w.answerTo c).audience := by
          rw [List.zipIdx_map_snd, ← List.range_eq_range']
          rfl
        rw [hstretch.heard, hall, List.nil_append, List.flatMap_cons, Answer.owed, if_pos hmade]
    next hmade =>
      cases h
      refine ⟨(Bool.eq_false_iff.2 hmade).symm, [], [], rfl, (List.append_nil _).symm, hfirst,
        fun k => ?_⟩
      simp [noticesOf, Answer.owed, hmade]

/-! ## Bounds on the nesting -/

variable {ask' : Change → WatchedView → Option (Bool × WatchedView)}

theorem conduct_more (hmore : ∀ c w r, ask c w = some r → ask' c w = some r) {calls : Calls}
    (h : conduct ask calls w = some w') : conduct ask' calls w = some w' := by
  induction calls generalizing w with
  | done => exact h
  | ask c next ih =>
    obtain ⟨⟨made, w₁⟩, hfirst, hrest⟩ := Option.bind_eq_some_iff.1 h
    exact Option.bind_eq_some_iff.2 ⟨(made, w₁), hmore c w _ hfirst, ih made w₁.view hrest⟩
  | listen l next _ ih => exact ih h

theorem tellAll_more (hmore : ∀ c w r, ask c w = some r → ask' c w = some r)
    {ls : List (Listener × Nat)} (h : ls.foldlM (tell ask a) w = some w') :
    ls.foldlM (tell ask' a) w = some w' := by
  induction ls generalizing w with
  | nil => exact h
  | cons l ls ih =>
    rw [List.foldlM_cons] at h ⊢
    obtain ⟨w₁, hfirst, hrest⟩ := Option.bind_eq_some_iff.1 h
    exact Option.bind_eq_some_iff.2 ⟨w₁, conduct_more hmore hfirst, ih hrest⟩

theorem request_succ {depth : Nat} (c : Change) (w : WatchedView) (r : Bool × WatchedView)
    (h : request depth c w = some r) : request (depth + 1) c w = some r := by
  induction depth generalizing c w r with
  | zero => cases h
  | succ depth ih =>
    rw [request] at h ⊢
    split at h
    next hmade =>
      obtain ⟨w₁, htold, heq⟩ := Option.map_eq_some_iff.1 h
      rw [if_pos hmade]
      exact Option.map_eq_some_iff.2 ⟨w₁, tellAll_more ih htold, heq⟩
    next hmade => rwa [if_neg hmade]

/-- A run that ends within a bound ends alike within any larger one. -/
theorem run_more {depth : Nat} {calls : Calls} (h : run depth calls w = some w') (more : Nat) :
    run (depth + more) calls w = some w' := by
  induction more with
  | zero => exact h
  | succ more ih => exact conduct_more request_succ ih

/-! ## Delivery -/

/-- What a run from `w` to `w'` adds to the record: the answers `as` and the notices `ts`. -/
structure Delivery (w w' : WatchedView) (as : List Answer) (ts : List Notice) : Prop where
  answers : w'.answers = w.answers ++ as
  told : w'.told = w.told ++ ts
  /-- each request was met in the view that the one before it left -/
  leads : Leads w.view as w'.view
  counted : w'.view.id = w.view.id + as.countP (·.made)
  changed : ∀ a ∈ as, a.made = true ↔ ∃ m, a.before.isCurrent m ≠ a.after.isCurrent m
  /-- of a change that was made each listener there was is told once -/
  heard : ∀ a ∈ as, a.made = true →
    noticesOf a.after.id ts = (List.range a.audience).map (·, a.change)
  /-- and no one is told of anything else -/
  caused : ∀ n ∈ ts, ∃ a ∈ as, a.made = true ∧ a.after.id = n.cause

theorem Stretch.delivery (h : Stretch (fun _ => []) w w' as ts) : Delivery w w' as ts where
  answers := h.answers
  told := h.told
  leads := h.leads
  counted := h.leads.id_eq
  changed a ha := (h.leads.right a ha).changed
  heard a ha hmade := (h.heard a.after.id).trans (h.leads.owed_eq ha hmade)
  caused n hn := by
    have hmem : (n.listener, n.change) ∈ noticesOf n.cause ts :=
      List.mem_map_of_mem (List.mem_filter.2 ⟨hn, beq_self_eq_true _⟩)
    rw [h.heard, List.nil_append, List.mem_flatMap] at hmem
    obtain ⟨a, ha, howed⟩ := hmem
    exact ⟨a, ha, Answer.of_mem_owed howed⟩

/-- A call gives back what is recorded of it, before all that it leads to. A run that ends, whatever
its bound, delivers every change that it makes once to each listener there is to hear of it. -/
theorem run_delivers :
    (∀ depth c w made w', request depth c w = some (made, w') → ∃ after as,
      w'.answers = w.answers ++ ⟨c, w.view, after, made, w.listeners.length⟩ :: as)
    ∧ ∀ depth calls w w', run depth calls w = some w' →
      (∀ more, run (depth + more) calls w = some w') ∧ ∃ as ts, Delivery w w' as ts := by
  refine ⟨fun depth c w made w' h => ?_, fun depth calls w w' h => ⟨run_more h, ?_⟩⟩
  · obtain ⟨rfl, as, ts, hstretch⟩ := request_delivers depth c w made w' h
    exact ⟨_, as, hstretch.answers⟩
  · obtain ⟨as, ts, hstretch⟩ := conduct_stretch (request_delivers depth) h
    exact ⟨as, ts, hstretch.delivery⟩

/-- The first listener registers a third one and turns away who joins. The second hears of that
before it hears of the joining, of which the third hears nothing. -/
theorem run_delivers_nested :
    let quiet : Listener := fun _ _ _ => .done
    let expel : Listener := fun _ _ c => match c with
      | .joined m => .listen quiet (.ask (.departed m false) fun _ _ => .done)
      | .departed _ _ => .done
    let m : Member := {
      address := .v4 10 0 0 1, port := 1, processId := 1, viewId := 0, name := none, tag := none }
    let w : WatchedView := { view := {}, listeners := [expel] }
    ∃ made w₁ w', request 2 (.joined m) (w.listen quiet) = some (made, w₁)
      ∧ run 2 (.listen quiet (.ask (.joined m) fun _ _ => .done)) w = some w'
      ∧ w'.told.map (fun n => (n.cause, n.listener)) = [(1, 0), (2, 0), (2, 1), (2, 2), (1, 1)]
      ∧ (∃ after as, w₁.answers = ⟨.joined m, {}, after, made, 2⟩ :: as)
      ∧ ∃ as ts, Delivery w w' as ts := by
  intro quiet expel m w
  obtain ⟨made, w₁, hrequest⟩ :
      ∃ made w₁, request 2 (.joined m) (w.listen quiet) = some (made, w₁) := ⟨_, _, rfl⟩
  obtain ⟨w', hrun, htold⟩ :
      ∃ w', run 2 (.listen quiet (.ask (.joined m) fun _ _ => .done)) w = some w'
        ∧ w'.told.map (fun n => (n.cause, n.listener)) =
          [(1, 0), (2, 0), (2, 1), (2, 2), (1, 1)] := ⟨_, rfl, rfl⟩
  exact ⟨made, w₁, w', hrequest, hrun, htold, run_delivers.1 2 _ _ made w₁ hrequest,
    (run_delivers.2 2 _ w w' hrun).2⟩

end WatchedView
end DataGrid
