import DataGrid.Proofs.View.Delivery

/-
In which order one listener hears of the changes. A listener that is called
back may make a change of its own, and those after it hear of that one first.
So of two notices of one listener either the later speaks of a change that was
made after the earlier was given, or of one that was made before what the
earlier speaks of, while it was being told of (`Notice.Before`).

As all notices are of this kind, those of one member are in the order of the
changes just when no change of that member was made between another and the
moment at which the listener heard of it. Only the callbacks of listeners
before it can do that.
-/

namespace DataGrid

namespace Change

def isJoin : Change → Bool
  | .joined _ => true
  | .departed .. => false

/-- The change is one of this member. -/
def concerns (m : Member) (c : Change) : Bool := m.same c.member

end Change

/-! ## What a view owes to the changes made -/

/-- The answer is that of the view. -/
structure Answer.Exact (a : Answer) : Prop where
  after : a.after = (a.before.change? a.change).getD a.before
  made : a.made = (a.before.change? a.change).isSome

theorem WatchedView.exact_answerTo (w : WatchedView) (c : Change) : (w.answerTo c).Exact := ⟨rfl, rfl⟩

/-- A change that is made decides whether its member is there, and nothing else does. -/
theorem View.isCurrent_of_change {v v' : View} {c : Change} (h : v.change? c = some v')
    (m : Member) : v'.isCurrent m = if c.concerns m then c.isJoin else v.isCurrent m := by
  cases c with
  | joined m' =>
    simp only [change?] at h
    split at h <;> cases h
    have hinsert : (v.members.insert m').contains m = (m.same m' || v.members.contains m) :=
      v.members.contains_insert m' m
    show (v.members.insert m').contains m = if m.same m' then true else v.members.contains m
    rw [hinsert]
    cases m.same m' <;> rfl
  | departed m' crashed =>
    simp only [change?] at h
    split at h <;> cases h
    show (v.members.erase m').contains m = if m.same m' then false else v.members.contains m
    cases hm : m.same m' with
    | true =>
      rw [(v.members.erase m').contains_congr (beq_iff_eq.1 hm)]
      exact v.members.contains_erase_self m'
    | false => exact v.members.contains_erase_other (beq_eq_false_iff_ne.1 hm)

theorem Answer.Exact.isCurrent {a : Answer} (h : a.Exact) (m : Member) :
    a.after.isCurrent m =
      if a.made && a.change.concerns m then a.change.isJoin else a.before.isCurrent m := by
  rw [h.after, h.made]
  cases hc : a.before.change? a.change with
  | none => rfl
  | some v => exact View.isCurrent_of_change hc m

/-- The changes that were made, by the ids that they gave to the view. -/
def madeBy (as : List Answer) : List (Nat × Change) :=
  (as.filter (·.made)).map fun a => (a.after.id, a.change)

theorem madeBy_append (as bs : List Answer) : madeBy (as ++ bs) = madeBy as ++ madeBy bs := by
  rw [madeBy, List.filter_append, List.map_append]
  rfl

theorem madeBy_cons (a : Answer) (as : List Answer) :
    madeBy (a :: as) = if a.made then (a.after.id, a.change) :: madeBy as else madeBy as := by
  rw [madeBy, List.filter_cons]
  split <;> rfl

/-- The changes of a member that were made. -/
def changesOf (m : Member) (as : List Answer) : List (Nat × Change) :=
  (madeBy as).filter fun p => p.2.concerns m

theorem Leads.of_mem_madeBy {v v' : View} {as : List Answer} (h : Leads v as v') {p : Nat × Change}
    (hp : p ∈ madeBy as) : v.id < p.1 := by
  obtain ⟨a, ha, rfl⟩ := List.mem_map.1 hp
  obtain ⟨ha, hmade⟩ := List.mem_filter.1 ha
  exact h.id_lt a ha hmade

/-- Each change gives the view a larger id than those before it. -/
theorem Leads.pairwise_madeBy {v v' : View} {as : List Answer} (h : Leads v as v') :
    (madeBy as).Pairwise fun p q => p.1 < q.1 := by
  induction h with
  | nil => exact .nil
  | @cons a as v' right rest ih =>
    rw [madeBy_cons]
    split
    · exact List.pairwise_cons.2 ⟨fun p hp => rest.of_mem_madeBy hp, ih⟩
    · exact ih

/-- Whether a member is there is told by the last change that it made. -/
theorem Leads.isCurrent {v v' : View} {as : List Answer} (h : Leads v as v')
    (hexact : ∀ a ∈ as, a.Exact) (m : Member) :
    v'.isCurrent m = ((changesOf m as).getLast?.map (·.2.isJoin)).getD (v.isCurrent m) := by
  induction h with
  | nil => rfl
  | @cons a as v' right rest ih =>
    obtain ⟨ha, hrest⟩ := List.forall_mem_cons.1 hexact
    rw [ih hrest, ha.isCurrent, changesOf, changesOf, madeBy_cons]
    cases a.made with
    | false => rfl
    | true =>
      simp only [Bool.true_and, if_true, List.filter_cons]
      cases a.change.concerns m with
      | false => rfl
      | true =>
        simp only [if_true, List.getLast?_cons]
        cases ((madeBy as).filter fun p => p.2.concerns m).getLast? <;> rfl

/-! ## What one listener hears -/

/-- The later of two notices speaks of a change made after the earlier was given, or of an earlier
change that was being told of when the other was made. -/
def Notice.Before (n n' : Notice) : Prop :=
  n.seen.id < n'.cause ∨ n'.cause < n.cause ∧ n.cause ≤ n'.seen.id

/-- The change that a notice speaks of. -/
def Notice.about (n : Notice) : Nat × Change := (n.cause, n.change)

/-- The notices that a listener is given. -/
def heardBy (i : Nat) (ts : List Notice) : List Notice := ts.filter (·.listener == i)

theorem heardBy_append (i : Nat) (ts us : List Notice) :
    heardBy i (ts ++ us) = heardBy i ts ++ heardBy i us := List.filter_append ..

/-- No changes are asked for. -/
def Calls.Silent : Calls → Prop
  | .done => True
  | .ask .. => False
  | .listen _ next => next.Silent

namespace WatchedView

/-- The listeners before this one ask for no changes when they are called back. -/
def SilentBefore (w : WatchedView) (i : Nat) : Prop :=
  ∀ l ∈ w.listeners.take i, ∀ told v c, (l told v c).Silent

/-- A stretch of a run from `w` to `w'`, as listener `i` hears it. -/
structure Heard (i : Nat) (w w' : WatchedView) (as : List Answer) (ts : List Notice) : Prop where
  answers : w'.answers = w.answers ++ as
  told : w'.told = w.told ++ ts
  listeners : w.listeners <+: w'.listeners
  leads : Leads w.view as w'.view
  exact : ∀ a ∈ as, a.Exact
  all : ((heardBy i ts).map Notice.about).Perm (madeBy as)
  within : ∀ n ∈ heardBy i ts, w.view.id < n.cause ∧ n.cause ≤ n.seen.id ∧ n.seen.id ≤ w'.view.id
  before : (heardBy i ts).Pairwise Notice.Before
  prompt : w.SilentBefore i → ∀ n ∈ heardBy i ts, n.seen.id = n.cause

variable {i : Nat} {w w' w'' : WatchedView} {as bs : List Answer} {ts us : List Notice}

theorem SilentBefore.grow (h : w.SilentBefore i) (hl : w.listeners <+: w'.listeners)
    (hi : i ≤ w.listeners.length) : w'.SilentBefore i := by
  obtain ⟨more, hmore⟩ := hl
  rw [SilentBefore, ← hmore, List.take_append_of_le_length hi]
  exact h

theorem Heard.refl (w : WatchedView) : Heard i w w [] [] where
  answers := (List.append_nil _).symm
  told := (List.append_nil _).symm
  listeners := List.prefix_refl _
  leads := .nil _
  exact := nofun
  all := .nil
  within := nofun
  before := .nil
  prompt _ := nofun

theorem Heard.trans (hi : i ≤ w.listeners.length) (h : Heard i w w' as ts) (h' : Heard i w' w'' bs us) :
    Heard i w w'' (as ++ bs) (ts ++ us) where
  answers := by rw [h'.answers, h.answers, List.append_assoc]
  told := by rw [h'.told, h.told, List.append_assoc]
  listeners := h.listeners.trans h'.listeners
  leads := h.leads.append h'.leads
  exact a ha := (List.mem_append.1 ha).elim (h.exact a) (h'.exact a)
  all := by
    rw [heardBy_append, List.map_append, madeBy_append]
    exact h.all.append h'.all
  within n hn := by
    have hle := h.leads.id_le
    have hle' := h'.leads.id_le
    rw [heardBy_append, List.mem_append] at hn
    rcases hn with hn | hn
    · have := h.within n hn
      omega
    · have := h'.within n hn
      omega
  before := by
    rw [heardBy_append, List.pairwise_append]
    refine ⟨h.before, h'.before, fun n hn n' hn' => .inl ?_⟩
    have := h.within n hn
    have := h'.within n' hn'
    omega
  prompt hs n hn := by
    rw [heardBy_append, List.mem_append] at hn
    exact hn.elim (h.prompt hs n) (h'.prompt (hs.grow h.listeners hi) n)

/-! ## Calls and callbacks -/

/-- A notice is given. -/
def give (w : WatchedView) (n : Notice) : WatchedView := { w with told := w.told ++ [n] }

/-- Each request starts a stretch in which the listener hears what it must. -/
def Hears (i : Nat) (ask : Change → WatchedView → Option (Bool × WatchedView)) : Prop :=
  ∀ c w made w', i < w.listeners.length → ask c w = some (made, w') →
    ∃ as ts, Heard i w w' (w.answerTo c :: as) ts

variable {ask : Change → WatchedView → Option (Bool × WatchedView)} {a : Answer}

theorem conduct_heard (hask : Hears i ask) {calls : Calls} (hi : i < w.listeners.length)
    (h : conduct ask calls w = some w') : ∃ as ts, Heard i w w' as ts := by
  induction calls generalizing w with
  | done =>
    cases h
    exact ⟨[], [], .refl _⟩
  | ask c next ih =>
    obtain ⟨⟨made, w₁⟩, hfirst, hrest⟩ := Option.bind_eq_some_iff.1 h
    obtain ⟨as, ts, hheard⟩ := hask c w made w₁ hi hfirst
    have hmore : w.listeners.length ≤ w₁.listeners.length := hheard.listeners.length_le
    obtain ⟨bs, us, hheard'⟩ := ih made w₁.view (Nat.lt_of_lt_of_le hi hmore) hrest
    exact ⟨_, _, hheard.trans (Nat.le_of_lt hi) hheard'⟩
  | listen l next _ ih =>
    have hgrown : w.listeners <+: (w.listen l).listeners := List.prefix_append ..
    have hmore : w.listeners.length ≤ (w.listen l).listeners.length := hgrown.length_le
    obtain ⟨as, ts, hheard⟩ := ih (Nat.lt_of_lt_of_le hi hmore) h
    exact ⟨as, ts, { hheard with
      listeners := hgrown.trans hheard.listeners
      prompt := fun hs => hheard.prompt (hs.grow hgrown (Nat.le_of_lt hi)) }⟩

theorem tellAll_heard (hask : Hears i ask) {ls : List (Listener × Nat)} (hne : ∀ l ∈ ls, l.2 ≠ i)
    (hi : i < w.listeners.length) (h : ls.foldlM (tell ask a) w = some w') :
    ∃ as ts, Heard i w w' as ts := by
  induction ls generalizing w with
  | nil =>
    cases h
    exact ⟨[], [], .refl _⟩
  | cons l ls ih =>
    rw [List.foldlM_cons] at h
    obtain ⟨w₁, hfirst, hrest⟩ := Option.bind_eq_some_iff.1 h
    obtain ⟨hother, hne⟩ := List.forall_mem_cons.1 hne
    have hcalls : conduct ask (l.1 w.told w.view a.change)
        (w.give ⟨l.2, a.change, a.after.id, w.view⟩) = some w₁ := hfirst
    have hi' : i < (w.give ⟨l.2, a.change, a.after.id, w.view⟩).listeners.length := hi
    obtain ⟨as, ts, hheard⟩ := conduct_heard hask hi' hcalls
    -- the notice is for another listener
    have hnotice : heardBy i (⟨l.2, a.change, a.after.id, w.view⟩ :: ts) = heardBy i ts :=
      List.filter_cons_of_neg (by simpa using hother)
    have hthis : Heard i w w₁ as (⟨l.2, a.change, a.after.id, w.view⟩ :: ts) := {
      hheard with
      told := by rw [hheard.told, give, List.append_assoc]; rfl
      all := hnotice ▸ hheard.all
      within := hnotice ▸ hheard.within
      before := hnotice ▸ hheard.before
      prompt := hnotice ▸ hheard.prompt }
    have hmore : w.listeners.length ≤ w₁.listeners.length := hheard.listeners.length_le
    obtain ⟨bs, us, hheard'⟩ := ih hne (Nat.lt_of_lt_of_le hi hmore) hrest
    exact ⟨_, _, hthis.trans (Nat.le_of_lt hi) hheard'⟩

theorem view_conduct {calls : Calls} (hs : calls.Silent) (h : conduct ask calls w = some w') :
    w'.view = w.view := by
  induction calls generalizing w with
  | done =>
    cases h
    rfl
  | ask => exact hs.elim
  | listen l next _ ih =>
    have hview : w'.view = (w.listen l).view := ih hs h
    exact hview

theorem view_tellAll {ls : List (Listener × Nat)}
    (hs : ∀ l ∈ ls, ∀ told v c, (l.1 told v c).Silent) (h : ls.foldlM (tell ask a) w = some w') :
    w'.view = w.view := by
  induction ls generalizing w with
  | nil =>
    cases h
    rfl
  | cons l ls ih =>
    rw [List.foldlM_cons] at h
    obtain ⟨w₁, hfirst, hrest⟩ := Option.bind_eq_some_iff.1 h
    obtain ⟨hfirst', hs⟩ := List.forall_mem_cons.1 hs
    have hcalls : conduct ask (l.1 w.told w.view a.change)
        (w.give ⟨l.2, a.change, a.after.id, w.view⟩) = some w₁ := hfirst
    have hview : w₁.view = (w.give _).view := view_conduct (hfirst' _ _ _) hcalls
    exact (ih hs hrest).trans hview

/-- A change is made, and the listener is told of it after those before it have been. -/
theorem Heard.told_of {n : Notice} {w₁ : WatchedView} {as₁ as₂ : List Answer} {ts₁ ts₂ : List Notice}
    (hexact : a.Exact) (hright : a.Right) (hmade : a.made = true) (hw : a.before = w.view)
    (hn : n = ⟨i, a.change, a.after.id, w₁.view⟩) (hi : i ≤ w.listeners.length)
    (h₁ : Heard i (w.answered a) w₁ as₁ ts₁)
    (h₂ : Heard i (w₁.give n) w' as₂ ts₂)
    (hsilent : w.SilentBefore i → w₁.view = a.after) :
    Heard i w w' (a :: (as₁ ++ as₂)) (ts₁ ++ n :: ts₂) := by
  have hself : heardBy i (ts₁ ++ n :: ts₂) = heardBy i ts₁ ++ n :: heardBy i ts₂ := by
    rw [heardBy_append, heardBy, heardBy, List.filter_cons_of_pos (by simp [hn])]
    rfl
  have hid : a.after.id = w.view.id + 1 := by rw [hright.id, hw, hmade]; rfl
  have hle : a.after.id ≤ w₁.view.id := h₁.leads.id_le
  have hle' : w₁.view.id ≤ w'.view.id := h₂.leads.id_le
  have hearlier : ∀ x ∈ heardBy i ts₁, a.after.id < x.cause ∧ x.cause ≤ x.seen.id ∧
      x.seen.id ≤ w₁.view.id := h₁.within
  have hlater : ∀ x ∈ heardBy i ts₂, w₁.view.id < x.cause ∧ x.cause ≤ x.seen.id ∧
      x.seen.id ≤ w'.view.id := h₂.within
  constructor
  case answers => rw [h₂.answers, give, h₁.answers, answered]; simp
  case told => rw [h₂.told, give, h₁.told, answered]; simp
  case listeners => exact h₁.listeners.trans h₂.listeners
  case leads => exact hw ▸ .cons hright (h₁.leads.append h₂.leads)
  case exact =>
    refine List.forall_mem_cons.2 ⟨hexact, fun b hb => ?_⟩
    exact (List.mem_append.1 hb).elim (h₁.exact b) (h₂.exact b)
  case all =>
    have hmadeBy : madeBy (a :: (as₁ ++ as₂)) = n.about :: (madeBy as₁ ++ madeBy as₂) := by
      rw [madeBy_cons, if_pos hmade, madeBy_append, hn]
      rfl
    rw [hself, hmadeBy, List.map_append, List.map_cons]
    exact List.perm_middle.trans ((h₁.all.append h₂.all).cons _)
  case within =>
    intro x hx
    rw [hself, List.mem_append, List.mem_cons] at hx
    rcases hx with hx | rfl | hx
    · have := hearlier x hx
      omega
    · rw [hn]
      exact ⟨hid ▸ Nat.lt_succ_self _, hle, hle'⟩
    · have := hlater x hx
      omega
  case before =>
    rw [hself, List.pairwise_append, List.pairwise_cons]
    refine ⟨h₁.before, ⟨fun y hy => .inl ?_, h₂.before⟩, fun x hx y hy => ?_⟩
    · rw [hn]
      exact (hlater y hy).1
    · obtain ⟨hcause, hseen, hview⟩ := hearlier x hx
      rcases List.mem_cons.1 hy with rfl | hy
      · rw [hn]
        exact .inr ⟨hcause, Nat.le_trans hseen hview⟩
      · exact .inl (Nat.lt_of_le_of_lt hview (hlater y hy).1)
  case prompt =>
    intro hs x hx
    have hs₁ : w₁.SilentBefore i := hs.grow h₁.listeners hi
    rw [hself, List.mem_append, List.mem_cons] at hx
    rcases hx with hx | rfl | hx
    · exact h₁.prompt hs x hx
    · rw [hn]
      exact congrArg View.id (hsilent hs)
    · exact h₂.prompt hs₁ x hx

/-- The listeners before one, that one, and those after it. -/
theorem zipIdx_around (ls : List Listener) (hi : i < ls.length) :
    ls.zipIdx = (ls.take i).zipIdx ++ (ls[i], i) :: (ls.drop (i + 1)).zipIdx (i + 1) := by
  have hsplit : ls = ls.take i ++ ls[i] :: ls.drop (i + 1) := by
    rw [← List.drop_eq_getElem_cons hi, List.take_append_drop]
  have hlength : (ls.take i).length = i := List.length_take_of_le (Nat.le_of_lt hi)
  conv => lhs; rw [hsplit]
  rw [List.zipIdx_append, List.zipIdx_cons, hlength, Nat.zero_add]

/-- A call that makes no difference is answered, and nobody is told. -/
theorem Heard.idle {c : Change} (hexact : (w.answerTo c).Exact) (hright : (w.answerTo c).Right)
    (hmade : (w.answerTo c).made = false) :
    Heard i w (w.answered (w.answerTo c)) [w.answerTo c] [] where
  answers := rfl
  told := (List.append_nil _).symm
  listeners := List.prefix_refl _
  leads := .cons hright (.nil _)
  exact := List.forall_mem_cons.2 ⟨hexact, List.forall_mem_nil _⟩
  all := by
    rw [madeBy_cons, hmade]
    exact .nil
  within := List.forall_mem_nil _
  before := .nil
  prompt _ := List.forall_mem_nil _

theorem request_hears (i depth : Nat) : Hears i (request depth) := by
  induction depth with
  | zero =>
    intro c w made w' hi h
    cases h
  | succ depth ih =>
    intro c w made w' hi h
    have hexact := w.exact_answerTo c
    have hright := w.right_answerTo c
    simp only [request] at h
    split at h
    next hmade =>
      obtain ⟨w₃, htold, heq⟩ := Option.map_eq_some_iff.1 h
      cases heq
      rw [zipIdx_around _ hi, List.foldlM_append] at htold
      obtain ⟨w₁, hbefore, htold⟩ := Option.bind_eq_some_iff.1 htold
      rw [List.foldlM_cons] at htold
      obtain ⟨w₂, hself, hafter⟩ := Option.bind_eq_some_iff.1 htold
      have hi₀ : i < (w.answered (w.answerTo c)).listeners.length := hi
      have hfirst : ∀ l ∈ (w.listeners.take i).zipIdx, l.2 ≠ i := fun l hl => by
        have hlt := List.snd_lt_of_mem_zipIdx hl
        rw [List.length_take_of_le (Nat.le_of_lt hi)] at hlt
        exact Nat.ne_of_lt hlt
      obtain ⟨as₁, ts₁, h₁⟩ := tellAll_heard ih hfirst hi₀ hbefore
      have hi₁ : i < w₁.listeners.length := Nat.lt_of_lt_of_le hi h₁.listeners.length_le
      let n : Notice := ⟨i, c, (w.answerTo c).after.id, w₁.view⟩
      have hcalls : conduct (request depth) (w.listeners[i] w₁.told w₁.view c) (w₁.give n) = some w₂ :=
        hself
      have hgiven : i < (w₁.give n).listeners.length := hi₁
      obtain ⟨as₂, ts₂, h₂⟩ := conduct_heard ih hgiven hcalls
      have hi₂ : i < w₂.listeners.length := Nat.lt_of_lt_of_le hi₁ h₂.listeners.length_le
      have hlast : ∀ l ∈ (w.listeners.drop (i + 1)).zipIdx (i + 1), l.2 ≠ i := fun l hl =>
        Nat.ne_of_gt (List.le_snd_of_mem_zipIdx hl)
      obtain ⟨as₃, ts₃, h₃⟩ := tellAll_heard ih hlast hi₂ hafter
      have hboth := h₂.trans (Nat.le_of_lt hgiven) h₃
      refine ⟨_, _, h₁.told_of hexact hright hmade rfl rfl (Nat.le_of_lt hi) hboth fun hs => ?_⟩
      have hview : w₁.view = (w.answered (w.answerTo c)).view :=
        view_tellAll (fun l hl => hs l.1 (List.fst_mem_of_mem_zipIdx hl)) hbefore
      exact hview
    next hmade =>
      cases h
      exact ⟨[], [], .idle hexact hright (Bool.eq_false_iff.2 hmade)⟩

/-! ## The order -/

/-- The notices of a member that a listener is given. -/
def heardOf (i : Nat) (m : Member) (ts : List Notice) : List Notice :=
  (heardBy i ts).filter fun n => n.change.concerns m

theorem Heard.allOf (h : Heard i w w' as ts) (m : Member) :
    ((heardOf i m ts).map Notice.about).Perm (changesOf m as) := by
  have hfilter : (heardOf i m ts).map Notice.about =
      ((heardBy i ts).map Notice.about).filter fun p => p.2.concerns m := by
    rw [List.filter_map]
    rfl
  rw [hfilter]
  exact h.all.filter _

/-- In their order are the notices whose causes ascend. -/
theorem Heard.inOrder_iff (h : Heard i w w' as ts) (m : Member) :
    (heardOf i m ts).map Notice.about = changesOf m as ↔
      (heardOf i m ts).Pairwise fun n n' => n.cause < n'.cause := by
  have hchanges : (changesOf m as).Pairwise fun p q => p.1 < q.1 := h.leads.pairwise_madeBy.filter _
  constructor
  · intro heq
    rw [← heq, List.pairwise_map] at hchanges
    exact hchanges
  · intro hpairwise
    refine (h.allOf m).eq_of_pairwise (fun p q _ _ hpq hqp => ?_) (List.pairwise_map.2 hpairwise)
      hchanges
    exact absurd hpq (Nat.lt_asymm hqp)

theorem Heard.ascends_iff (h : Heard i w w' as ts) (m : Member) :
    (heardOf i m ts).Pairwise (fun n n' => n.cause < n'.cause) ↔
      ∀ n ∈ heardOf i m ts, ∀ p ∈ changesOf m as, ¬ (n.cause < p.1 ∧ p.1 ≤ n.seen.id) := by
  have hbefore : (heardOf i m ts).Pairwise Notice.Before := h.before.filter _
  have hwithin : ∀ n ∈ heardOf i m ts, n.cause ≤ n.seen.id := fun n hn =>
    (h.within n (List.mem_filter.1 hn).1).2.1
  constructor
  · rintro hpairwise n hn p hp ⟨hafter, hseen⟩
    obtain ⟨n', hn', rfl⟩ := List.mem_map.1 ((h.allOf m).mem_iff.2 hp)
    obtain ⟨j, hj, rfl⟩ := List.getElem_of_mem hn
    obtain ⟨k, hk, rfl⟩ := List.getElem_of_mem hn'
    rcases Nat.lt_trichotomy j k with hjk | rfl | hkj
    · rcases List.pairwise_iff_getElem.1 hbefore j k hj hk hjk with hlater | ⟨hearlier, -⟩
      · exact absurd hlater (Nat.not_lt.2 hseen)
      · exact absurd hafter (Nat.lt_asymm hearlier)
    · exact absurd hafter (Nat.lt_irrefl _)
    · exact absurd hafter (Nat.lt_asymm (List.pairwise_iff_getElem.1 hpairwise k j hk hj hkj))
  · intro hnone
    refine hbefore.imp_of_mem fun {n n'} hn hn' hor => ?_
    rcases hor with hlater | ⟨hearlier, hseen⟩
    · exact Nat.lt_of_le_of_lt (hwithin n hn) hlater
    · have hp : n.about ∈ changesOf m as := (h.allOf m).mem_iff.1 (List.mem_map_of_mem hn)
      exact absurd ⟨hearlier, hseen⟩ (hnone n' hn' _ hp)

theorem Heard.ascends_of_silent (h : Heard i w w' as ts) (m : Member) (hs : w.SilentBefore i) :
    (heardOf i m ts).Pairwise fun n n' => n.cause < n'.cause := by
  refine (h.ascends_iff m).2 fun n hn p _ ⟨hafter, hseen⟩ => ?_
  rw [h.prompt hs n (List.mem_filter.1 hn).1] at hseen
  exact absurd hafter (Nat.not_lt.2 hseen)

/-- Who hears of the changes in their order knows in the end whether the member is there. -/
theorem Heard.last (h : Heard i w w' as ts) {m : Member}
    (horder : (heardOf i m ts).map Notice.about = changesOf m as) {n : Notice}
    (hn : (heardOf i m ts).getLast? = some n) : n.change.isJoin = w'.view.isCurrent m := by
  rw [h.leads.isCurrent h.exact m, ← horder, List.getLast?_map, hn]
  rfl

/-- How a listener heard of the changes of a member by the end of a run, in which the answers `as`
and the notices `ts` were given. -/
structure Hearing (i : Nat) (m : Member) (w w' : WatchedView) (as : List Answer)
    (ts : List Notice) : Prop where
  /-- of each change once -/
  all : ((heardOf i m ts).map Notice.about).Perm (changesOf m as)
  /-- in their order, just when none was made between another and the notice of it -/
  order : (heardOf i m ts).map Notice.about = changesOf m as ↔
    ∀ n ∈ heardOf i m ts, ∀ p ∈ changesOf m as, ¬ (n.cause < p.1 ∧ p.1 ≤ n.seen.id)
  /-- so if no listener before it asks for changes -/
  silent : w.SilentBefore i → (heardOf i m ts).map Notice.about = changesOf m as
  /-- and then the last notice tells whether the member is there -/
  last : (heardOf i m ts).map Notice.about = changesOf m as →
    ∀ n, (heardOf i m ts).getLast? = some n → n.change.isJoin = w'.view.isCurrent m

theorem Heard.hearing (h : Heard i w w' as ts) (m : Member) : Hearing i m w w' as ts where
  all := h.allOf m
  order := (h.inOrder_iff m).trans (h.ascends_iff m)
  silent hs := (h.inOrder_iff m).2 (h.ascends_of_silent m hs)
  last horder _ hn := h.last horder hn

/-- A listener that was there from the start hears once of each change that was made of a member.
It hears of them in their order if and only if no change of the member was made after another and
before it was told of that other, which the callbacks of the listeners before it can bring about and
nothing else. Then the last it heard agrees with the view. -/
theorem run_hearing {depth : Nat} {calls : Calls} (h : run depth calls w = some w') :
    ∃ as ts, w'.answers = w.answers ++ as ∧ w'.told = w.told ++ ts ∧
      ∀ i < w.listeners.length, ∀ m, Hearing i m w w' as ts := by
  obtain ⟨as, ts, hstretch⟩ := conduct_stretch (request_delivers depth) h
  refine ⟨as, ts, hstretch.answers, hstretch.told, fun i hi m => ?_⟩
  obtain ⟨as', ts', hheard⟩ := conduct_heard (request_hears i depth) hi h
  obtain rfl : as = as' := List.append_cancel_left (hstretch.answers.symm.trans hheard.answers)
  obtain rfl : ts = ts' := List.append_cancel_left (hstretch.told.symm.trans hheard.told)
  exact hheard.hearing m

/-! ## A listener that turns away who joins -/

def quiet : Listener := fun _ _ _ => .done

def expel : Listener := fun _ _ c => match c with
  | .joined m => .ask (.departed m false) fun _ _ => .done
  | .departed _ _ => .done

def newcomer : Member := { address := .v4 10 0 0 1, port := 1 }

def joining : Calls := .ask (.joined newcomer) fun _ _ => .done

/-- A listener before the one that turns the member away hears of both changes in their order. -/
theorem run_hearing_first : ∃ w' ts,
    run 2 joining { view := {}, listeners := [quiet, expel] } = some w' ∧ w'.told = ts ∧
      (heardOf 0 newcomer ts).map Notice.about =
        [(1, .joined newcomer), (2, .departed newcomer false)] ∧
      ∀ n, (heardOf 0 newcomer ts).getLast? = some n →
        n.change.isJoin = w'.view.isCurrent newcomer := by
  obtain ⟨w', hrun, hchanges⟩ :
      ∃ w', run 2 joining { view := {}, listeners := [quiet, expel] } = some w' ∧
        changesOf newcomer w'.answers = [(1, .joined newcomer), (2, .departed newcomer false)] :=
    ⟨_, rfl, rfl⟩
  obtain ⟨as, ts, hanswers, htold, hhearing⟩ := run_hearing hrun
  have hheard := hhearing 0 (by decide) newcomer
  have horder := hheard.silent nofun
  have has : w'.answers = as := hanswers
  exact ⟨w', ts, hrun, htold, by rw [horder, ← has, hchanges], hheard.last horder⟩

/-- A listener after it hears of the departure first, and last of all that the member joined, which
is not there. -/
theorem heard_out_of_order : ∃ w',
    run 2 joining { view := {}, listeners := [expel, quiet] } = some w' ∧
      changesOf newcomer w'.answers = [(1, .joined newcomer), (2, .departed newcomer false)] ∧
      (heardOf 1 newcomer w'.told).map Notice.about =
        [(2, .departed newcomer false), (1, .joined newcomer)] ∧
      w'.view.isCurrent newcomer = false := ⟨_, rfl, rfl, rfl, rfl⟩

end WatchedView
end DataGrid
