import DataGrid.Bucket.Advisor
import Mathlib.Logic.Relation

/-
What an advisor says of itself at every moment, a bid that is under way
included. Between bids its state is the one that goes with the primary that it
knows and with hosting. While it bids it may say that it volunteers, and then
knows no primary; whatever the delegate does brings the state in line again. A
closed advisor stays closed (`Advisor.Sound`).

The calls of the member and those of its delegate are the same functions, and
each of them keeps this. A bid is opened, then the delegate makes its calls, then
the bid is closed (`Advisor.Step`), and every call and every departure is a
course of such steps, the calls of the delegate being what they may. That is
shown once, of any relation that holds of the steps and composes
(`Advisor.Follows`).
-/

namespace DataGrid.Advisor

variable {a a' : Advisor} {b : Bool}

/-! ## What holds of an advisor -/

/-- What the state says, and what it keeps to once it is closed. -/
structure Sound (bidding : Bool) (a : Advisor) : Prop where
  settled : a.isClosed = false → a.state = a.settledState ∨
    bidding = true ∧ a.state = .volunteering ∧ a.primary = none
  closed : a.isClosed = true → a.hosting = false ∧ a.primaryIsSelf = false

/-- A change that leaves an advisor sound and does not open it again. -/
structure Kept (bidding : Bool) (a a' : Advisor) : Prop where
  sound : a'.Sound bidding
  closed : a.isClosed = true → a'.isClosed = true

theorem settledState_ne (a : Advisor) :
    a.settledState ≠ .volunteering ∧ a.settledState ≠ .closed := by
  unfold settledState
  split
  · split <;> exact ⟨nofun, nofun⟩
  all_goals exact ⟨nofun, nofun⟩

theorem isClosed_iff (a : Advisor) : a.isClosed = true ↔ a.state = .closed := by
  unfold isClosed
  exact beq_iff_eq

theorem Sound.kept_self (h : a.Sound b) : Kept b a a := ⟨h, id⟩

/-- Other fields than state, hosting, primary and member do not matter. -/
theorem Sound.congr (h : a.Sound b) (hstate : a'.state = a.state) (hhosting : a'.hosting = a.hosting)
    (hprimary : a'.primary = a.primary) (hmember : a'.member = a.member) : Kept b a a' := by
  have hclosed : a'.isClosed = a.isClosed := by simp only [isClosed, hstate]
  refine ⟨⟨fun ho => ?_, fun hc => ?_⟩, fun hc => hclosed.trans hc⟩
  · have hsettled : a'.settledState = a.settledState := by
      simp only [settledState, hhosting, hprimary, hmember]
    rw [hstate, hsettled, hprimary]
    exact h.settled (hclosed.symm.trans ho)
  · have hself : a'.primaryIsSelf = a.primaryIsSelf := by
      simp only [primaryIsSelf, hprimary, hmember]
    rw [hhosting, hself]
    exact h.closed (hclosed.symm.trans hc)

theorem settle_eq (h : a.isClosed = false) : a.settle = { a with state := a.settledState } := by
  unfold settle
  rw [if_neg (by rw [h]; nofun)]

theorem sound_settled (a : Advisor) : Sound b { a with state := a.settledState } := by
  refine ⟨fun _ => .inl rfl, fun hc => ?_⟩
  exact absurd ((isClosed_iff _).1 hc) a.settledState_ne.2

/-- Whatever else changed of an open advisor, settling it makes it sound. -/
theorem kept_settle (ho : a.isClosed = false) (hstate : a'.state = a.state) :
    Kept b a a'.settle := by
  have ho' : a'.isClosed = false := by
    rw [← ho]
    simp only [isClosed, hstate]
  rw [settle_eq ho']
  exact ⟨sound_settled a', fun hc => absurd hc (by rw [ho]; nofun)⟩

/-! ## Calls -/

theorem Sound.setHosting (h : a.Sound b) (on : Bool) : Kept b a (a.setHosting on) := by
  unfold Advisor.setHosting
  split
  · exact h.kept_self
  next ho => split <;> exact kept_settle (Bool.eq_false_iff.2 ho) rfl

theorem Sound.becomePrimary (h : a.Sound b) : Kept b a a.becomePrimary.2 := by
  unfold Advisor.becomePrimary
  split
  · exact h.kept_self
  next hmay =>
    rw [Bool.not_eq_true, Bool.or_eq_false_iff] at hmay
    split
    · exact h.kept_self
    · exact kept_settle hmay.1 rfl

theorem Sound.resignPrimary (h : a.Sound b) : Kept b a a.resignPrimary.2 := by
  unfold Advisor.resignPrimary
  split
  next hself =>
    have ho : a.isClosed = false :=
      Bool.eq_false_iff.2 fun hc => absurd hself (by rw [(h.closed hc).2]; nofun)
    exact kept_settle ho rfl
  · exact h.kept_self

theorem Sound.setPrimary (h : a.Sound b) (p : Option Member) : Kept b a (a.setPrimary p) := by
  unfold Advisor.setPrimary
  split
  · exact h.kept_self
  next ho => exact kept_settle (Bool.eq_false_iff.2 ho) rfl

theorem kept_close (a : Advisor) : Kept b a a.close := by
  refine ⟨⟨nofun, fun _ => ⟨rfl, ?_⟩⟩, fun _ => rfl⟩
  unfold primaryIsSelf close
  simp only
  split
  · rfl
  next hself => exact Bool.eq_false_iff.2 hself

/-- What is left of a member that leaves. -/
def forget (a : Advisor) (p : Member) : Advisor :=
  if a.isClosed then a
  else
    let a := { a with
      hostingMembers := a.hostingMembers.erase p
      elector := if Member.isNamed a.elector p then none else a.elector }
    if Member.isNamed a.primary p then { a with primary := none }.settle else a

theorem Sound.forget (h : a.Sound b) (p : Member) : Kept b a (a.forget p) := by
  unfold Advisor.forget
  split
  · exact h.kept_self
  next ho =>
    simp only
    split
    · exact kept_settle (Bool.eq_false_iff.2 ho) rfl
    · exact h.congr rfl rfl rfl rfl

section

variable {σ : Type} {hosts : Member → StateM σ Bool} {s s' : σ}

/-- At most another elector is expected to choose afterwards. -/
theorem deferToElector_run {deferred : Bool}
    (h : (deferToElector hosts a).run s = ((deferred, a'), s')) :
    ∃ elector, a' = { a with elector := elector } := by
  unfold deferToElector at h
  split at h
  · cases h
    exact ⟨a.elector, rfl⟩
  next e _ =>
    split at h
    · cases h
      exact ⟨none, rfl⟩
    · rw [StateT.run_bind] at h
      generalize (hosts e).run s = told at h
      obtain ⟨is, s₁⟩ := told
      cases is with
      | true =>
        cases h
        exact ⟨a.elector, rfl⟩
      | false =>
        cases h
        exact ⟨none, rfl⟩

theorem setElector_run {e : Option Member} (h : (setElector hosts a e).run s = (a', s')) :
    ∃ elector, a' = { a with elector := elector } := by
  cases e with
  | none =>
    cases h
    exact ⟨none, rfl⟩
  | some e =>
    unfold setElector at h
    rw [StateT.run_bind] at h
    generalize (hosts e).run s = told at h
    cases h
    exact ⟨_, rfl⟩

/-- A call that is not a bid asks nobody to bid. -/
theorem performThrough_ask {ask ask' : Advisor → StateM σ (Advisor × List DelegateReport)}
    {call : AdvisorCall} (hcall : call ≠ .volunteer) (a : Advisor) :
    performThrough hosts ask call a = performThrough hosts ask' call a := by
  cases call with
  | volunteer => exact absurd rfl hcall
  | _ => rfl

theorem Sound.performThrough (h : a.Sound b)
    {ask : Advisor → StateM σ (Advisor × List DelegateReport)} {call : AdvisorCall}
    (hcall : call ≠ .volunteer) {answer : AdvisorAnswer} {reports : List DelegateReport}
    (hrun : (performThrough hosts ask call a).run s = ((answer, a', reports), s')) :
    Kept b a a' := by
  cases call with
  | volunteer => exact absurd rfl hcall
  | openGate | addHosting | removeHosting =>
    cases hrun
    exact h.congr rfl rfl rfl rfl
  | awaitPrimary | observe =>
    cases hrun
    exact h.kept_self
  | setHosting on =>
    cases hrun
    exact h.setHosting on
  | setElector e =>
    simp only [Advisor.performThrough, StateT.run_bind] at hrun
    cases hset : (Advisor.setElector hosts a e).run s with
    | mk a₁ s₁ =>
      rw [hset] at hrun
      cases hrun
      obtain ⟨elector, rfl⟩ := setElector_run hset
      exact h.congr rfl rfl rfl rfl
  | becomePrimary =>
    cases hrun
    exact h.becomePrimary
  | resignPrimary =>
    cases hrun
    exact h.resignPrimary
  | setPrimary p =>
    cases hrun
    exact h.setPrimary p
  | close =>
    cases hrun
    exact kept_close a

end

/-! ## Bids -/

/-- An advisor at some moment, with the world that it asks about electors. -/
structure Moment (σ : Type) where
  advisor : Advisor
  /-- a bid is under way -/
  bidding : Bool
  world : σ

section

variable {σ : Type} (hosts : Member → StateM σ Bool)

/-- What may come next. -/
inductive Step : Moment σ → Moment σ → Prop
  /-- The member makes a call, or while it bids its delegate does. -/
  | call {a a' : Advisor} {b : Bool} {s s' : σ} (op : AdvisorCall) (hop : op ≠ .volunteer)
      {answer : AdvisorAnswer} {reports : List DelegateReport}
      (hrun : (performThrough hosts noteAskedAgain op a).run s = ((answer, a', reports), s')) :
      Step ⟨a, b, s⟩ ⟨a', b, s'⟩
  /-- It is up to another member to choose, or there is nothing to bid for. -/
  | hold {a a' : Advisor} {s s' : σ} {deferred : Bool}
      (hrun : (deferToElector hosts a).run s = ((deferred, a'), s'))
      (hnot : deferred = true ∨ a'.mayBid = false) : Step ⟨a, false, s⟩ ⟨a', false, s'⟩
  | bid {a a' : Advisor} {s s' : σ} (hgate : a.gateOpen = true)
      (hrun : (deferToElector hosts a).run s = ((false, a'), s')) (hmay : a'.mayBid = true) :
      Step ⟨a, false, s⟩ ⟨{ a' with state := .volunteering }, true, s'⟩
  | finish {a : Advisor} {s : σ} :
      Step ⟨a, true, s⟩ ⟨if a.state = .volunteering then a.settle else a, false, s⟩
  | depart {a : Advisor} {s : σ} (p : Member) : Step ⟨a, false, s⟩ ⟨a.forget p, false, s⟩
  /-- The delegate makes up its mind what to do. -/
  | appoint {a : Advisor} {b : Bool} {s : σ} (d : Delegate) :
      Step ⟨a, b, s⟩ ⟨{ a with delegate := d }, b, s⟩

variable {hosts} {m n : Moment σ}

/-- A bid begins only where the advisor knows no primary. -/
theorem kept_bid (h : a.mayBid = true) : Kept true a { a with state := .volunteering } := by
  simp only [mayBid, Bool.and_eq_true, Option.isNone_iff_eq_none, Bool.not_eq_true'] at h
  exact ⟨⟨fun _ => .inr ⟨rfl, rfl, h.1.1.2⟩, nofun⟩, fun hc => absurd (hc.symm.trans h.2) nofun⟩

/-- At its end a bid that came to nothing is settled, and one that came to something is already. -/
theorem Sound.finish (h : a.Sound true) :
    Kept false a (if a.state = .volunteering then a.settle else a) := by
  split
  next hvol =>
    have ho : a.isClosed = false := by
      simp only [isClosed, hvol]
      rfl
    exact kept_settle ho rfl
  next hvol =>
    refine ⟨⟨fun ho => ?_, h.closed⟩, id⟩
    exact .inl ((h.settled ho).resolve_right fun hbid => hvol hbid.2.1)

/-- One step keeps an advisor sound, and a closed one closed. -/
theorem Step.kept (h : Step hosts m n) (hm : m.advisor.Sound m.bidding) :
    Kept n.bidding m.advisor n.advisor := by
  cases h with
  | call op hop hrun => exact hm.performThrough hop hrun
  | @hold a _ _ _ _ hrun _ =>
    obtain ⟨elector, rfl⟩ := deferToElector_run hrun
    exact Sound.congr (a := a) hm rfl rfl rfl rfl
  | bid hgate hrun hmay =>
    obtain ⟨elector, rfl⟩ := deferToElector_run hrun
    have hbid := kept_bid hmay
    exact ⟨hbid.sound, hbid.closed⟩
  | finish => exact hm.finish
  | depart p => exact hm.forget p
  | @appoint a _ _ d => exact Sound.congr (a := a) hm rfl rfl rfl rfl

/-- What the steps of a course keep. -/
theorem kept_of_steps (h : Relation.ReflTransGen (Step hosts) m n)
    (hm : m.advisor.Sound m.bidding) : Kept n.bidding m.advisor n.advisor := by
  induction h with
  | refl => exact hm.kept_self
  | tail _ hstep ih =>
    have hnext := hstep.kept ih.sound
    exact ⟨hnext.sound, fun hc => hnext.closed (ih.closed hc)⟩

/-! ## Calls as courses of steps -/

/-- What happens at a bid besides the calls of the delegate. In the midst of a bid it may happen
once more, if `again`. -/
inductive Beside (hosts : Member → StateM σ Bool) (again : Prop) : Moment σ → Moment σ → Prop
  | hold {a a' : Advisor} {b : Bool} {s s' : σ} {deferred : Bool} (hb : b = true → again)
      (hrun : (deferToElector hosts a).run s = ((deferred, a'), s'))
      (hnot : deferred = true ∨ a'.mayBid = false) : Beside hosts again ⟨a, b, s⟩ ⟨a', b, s'⟩
  | bid {a a' : Advisor} {b : Bool} {s s' : σ} (hb : b = true → again) (hgate : a.gateOpen = true)
      (hrun : (deferToElector hosts a).run s = ((false, a'), s')) (hmay : a'.mayBid = true) :
      Beside hosts again ⟨a, b, s⟩ ⟨{ a' with state := .volunteering }, true, s'⟩
  | finish {a : Advisor} {b : Bool} {s : σ} (hb : b = true → again) :
      Beside hosts again ⟨a, true, s⟩ ⟨if a.state = .volunteering then a.settle else a, b, s⟩

theorem Beside.step (h : Beside hosts False m n) : Step hosts m n := by
  cases h with
  | hold hb hrun hnot =>
    obtain rfl := Bool.eq_false_iff.2 hb
    exact .hold hrun hnot
  | bid hb hgate hrun hmay =>
    obtain rfl := Bool.eq_false_iff.2 hb
    exact .bid hgate hrun hmay
  | finish hb =>
    obtain rfl := Bool.eq_false_iff.2 hb
    exact .finish

/-- A relation that composes and holds of all that happens at a bid besides the calls. -/
structure Bids (hosts : Member → StateM σ Bool) (again : Prop) (R : Moment σ → Moment σ → Prop) :
    Prop where
  refl : ∀ m, R m m
  trans : ∀ {l m n}, R l m → R m n → R l n
  beside : ∀ {m n}, Beside hosts again m n → R m n

/-- It holds wherever these calls lead too, and the departures of these members. -/
structure Follows (hosts : Member → StateM σ Bool) (allowed : AdvisorCall → Prop)
    (leaving : Member → Prop) (R : Moment σ → Moment σ → Prop) : Prop
    extends Bids hosts (allowed .volunteer) R where
  call : ∀ {op}, op ≠ .volunteer → allowed op → ∀ {a a' : Advisor} {b : Bool} {s s' : σ}
    {answer : AdvisorAnswer} {reports : List DelegateReport},
    (performThrough hosts noteAskedAgain op a).run s = ((answer, a', reports), s') →
      R ⟨a, b, s⟩ ⟨a', b, s'⟩
  depart : ∀ {p}, leaving p → ∀ a s, R ⟨a, false, s⟩ ⟨a.forget p, false, s⟩

variable {again : Prop} {allowed : AdvisorCall → Prop} {leaving : Member → Prop}
  {R : Moment σ → Moment σ → Prop}

theorem follows_steps : Follows hosts (· ≠ .volunteer) (fun _ => True)
    (Relation.ReflTransGen (Step hosts)) where
  refl _ := .refl
  trans := .trans
  beside h := by
    rw [show (AdvisorCall.volunteer ≠ .volunteer) = False from eq_false fun h => h rfl] at h
    exact .single h.step
  call hop _ _ _ _ _ _ _ _ hrun := .single (.call _ hop hrun)
  depart _ _ _ := .single (.depart _)

/-- A bid from its opening to its end, or none, whoever the bid is left to. -/
theorem Bids.volunteerThrough (h : Bids hosts again R)
    {ask : Advisor → StateM σ (Advisor × List DelegateReport)} {a a' : Advisor} {b : Bool}
    {s s' : σ} {asked : Bool} {reports : List DelegateReport} (hb : b = true → again)
    (hask : ∀ {elector s₁ a₂ reports' s₂},
      (ask { a with elector := elector, state := .volunteering }).run s₁ =
        ((a₂, reports'), s₂) →
      R ⟨{ a with elector := elector, state := .volunteering }, true, s₁⟩ ⟨a₂, true, s₂⟩)
    (hrun : (volunteerThrough hosts ask a).run s = ((asked, a', reports), s')) :
    R ⟨a, b, s⟩ ⟨a', b, s'⟩ := by
  unfold Advisor.volunteerThrough at hrun
  split at hrun
  · cases hrun
    exact h.refl _
  next hgate =>
    rw [Bool.not_eq_true', Bool.not_eq_false] at hgate
    rw [StateT.run_bind] at hrun
    rcases hdefer : (deferToElector hosts a).run s with ⟨⟨deferred, a₁⟩, s₁⟩
    rw [hdefer] at hrun
    obtain ⟨elector, rfl⟩ := deferToElector_run hdefer
    change StateT.run (if (deferred || !mayBid _) = true then _ else _) s₁ = _ at hrun
    split at hrun
    next hnot =>
      cases hrun
      rw [Bool.or_eq_true, Bool.not_eq_true'] at hnot
      exact h.beside (.hold hb hdefer hnot)
    next hmay =>
      rw [Bool.not_eq_true, Bool.or_eq_false_iff, Bool.not_eq_false'] at hmay
      obtain ⟨rfl, hmay⟩ := hmay
      rw [StateT.run_bind] at hrun
      rcases hasked : (ask { a with elector := elector, state := .volunteering }).run s₁ with
        ⟨⟨a₂, reports'⟩, s₂⟩
      rw [hasked] at hrun
      cases hrun
      have hfinish : R ⟨a₂, true, s₂⟩
          ⟨if a₂.state = .volunteering then a₂.settle else a₂, b, s₂⟩ := h.beside (.finish hb)
      exact h.trans (h.beside (.bid hb hgate hdefer hmay)) (h.trans (hask hasked) hfinish)

/-- A call of a delegate. One that is asked again does nothing more. -/
theorem Follows.delegateCall (h : Follows hosts allowed leaving R) {call : AdvisorCall}
    (hcall : allowed call) {a a' : Advisor} {s s' : σ} {answer : AdvisorAnswer}
    {reports : List DelegateReport}
    (hrun : (performThrough hosts noteAskedAgain call a).run s = ((answer, a', reports), s')) :
    R ⟨a, true, s⟩ ⟨a', true, s'⟩ := by
  by_cases hbids : call = .volunteer
  · subst hbids
    rw [performThrough, StateT.run_bind] at hrun
    rcases hbid : (Advisor.volunteerThrough hosts noteAskedAgain a).run s with
      ⟨⟨asked, a₁, reports'⟩, s₁⟩
    rw [hbid] at hrun
    cases hrun
    refine h.volunteerThrough (fun _ => hcall) (fun hasked => ?_) hbid
    cases hasked
    exact h.refl _
  · exact h.call hbids hcall hrun

/-- A call that a delegate makes after others. -/
def delegateCall (hosts : Member → StateM σ Bool) (made : Advisor × List DelegateReport)
    (call : AdvisorCall) : StateM σ (Advisor × List DelegateReport) := do
  let (answer, a, inner) ← performThrough hosts noteAskedAgain call made.1
  return (a, made.2 ++ inner ++ [.did call answer])

theorem Follows.delegateCalls (h : Follows hosts allowed leaving R) {calls : List AdvisorCall}
    (hcalls : ∀ call ∈ calls, allowed call) {p p' : Advisor × List DelegateReport} {s s' : σ}
    (hrun : (calls.foldlM (Advisor.delegateCall hosts) p).run s = (p', s')) :
    R ⟨p.1, true, s⟩ ⟨p'.1, true, s'⟩ := by
  induction calls generalizing p s with
  | nil =>
    cases hrun
    exact h.refl _
  | cons call calls ih =>
    rw [List.forall_mem_cons] at hcalls
    rw [List.foldlM_cons, Advisor.delegateCall, StateT.run_bind, StateT.run_bind] at hrun
    rcases hfirst : (performThrough hosts noteAskedAgain call p.1).run s with
      ⟨⟨answer, a, inner⟩, s₁⟩
    rw [hfirst] at hrun
    exact h.trans (h.delegateCall hcalls.1 hfirst) (ih hcalls.2 hrun)

theorem Follows.askDelegate (h : Follows hosts allowed leaving R) {a a' : Advisor} {s s' : σ}
    {reports : List DelegateReport} (hcalls : ∀ call ∈ a.delegate.calls, allowed call)
    (hrun : (askDelegate hosts a).run s = ((a', reports), s')) :
    R ⟨a, true, s⟩ ⟨a', true, s'⟩ := by
  have hask : Advisor.askDelegate hosts a =
      a.delegate.calls.foldlM (Advisor.delegateCall hosts) (a, []) >>=
        fun p => pure (p.1, if p.1.delegate.isReporting then p.2 else []) := rfl
  rw [hask, StateT.run_bind] at hrun
  rcases hmade : (a.delegate.calls.foldlM (Advisor.delegateCall hosts) (a, [])).run s with
    ⟨made, s₁⟩
  rw [hmade] at hrun
  cases hrun
  exact h.delegateCalls hcalls hmade

theorem Follows.volunteer (h : Follows hosts allowed leaving R) {a a' : Advisor} {s s' : σ}
    {asked : Bool} {reports : List DelegateReport}
    (hcalls : ∀ call ∈ a.delegate.calls, allowed call)
    (hrun : (volunteer hosts a).run s = ((asked, a', reports), s')) :
    R ⟨a, false, s⟩ ⟨a', false, s'⟩ :=
  h.volunteerThrough nofun (fun hasked => h.askDelegate hcalls hasked) hrun

/-- A call of the member, the bid included if it makes one. -/
theorem Follows.perform (h : Follows hosts allowed leaving R) {a a' : Advisor} {s s' : σ}
    {call : AdvisorCall} {answer : AdvisorAnswer} {reports : List DelegateReport}
    (hcalls : ∀ call ∈ a.delegate.calls, allowed call) (hcall : call ≠ .volunteer → allowed call)
    (hrun : (perform hosts call a).run s = ((answer, a', reports), s')) :
    R ⟨a, false, s⟩ ⟨a', false, s'⟩ := by
  by_cases hbids : call = .volunteer
  · subst hbids
    rw [Advisor.perform, performThrough, StateT.run_bind] at hrun
    rcases hbid : (Advisor.volunteer hosts a).run s with ⟨⟨asked, a₁, reports'⟩, s₁⟩
    unfold Advisor.volunteer at hbid
    rw [hbid] at hrun
    cases hrun
    exact h.volunteer hcalls hbid
  · rw [Advisor.perform, performThrough_ask hbids] at hrun
    exact h.call hbids (hcall hbids) hrun

/-- A call of the member is a course of steps, the bid included if it makes one. -/
theorem steps_perform {a a' : Advisor} {s s' : σ} {call : AdvisorCall} {answer : AdvisorAnswer}
    {reports : List DelegateReport} (hcalls : .volunteer ∉ a.delegate.calls)
    (hrun : (perform hosts call a).run s = ((answer, a', reports), s')) :
    Relation.ReflTransGen (Step hosts) ⟨a, false, s⟩ ⟨a', false, s'⟩ :=
  follows_steps.perform (fun _ hmem hbids => hcalls (hbids ▸ hmem)) id hrun

theorem delegate_settle (a : Advisor) : a.settle.delegate = a.delegate := by
  unfold settle
  split <;> rfl

theorem delegate_forget (a : Advisor) (p : Member) : (a.forget p).delegate = a.delegate := by
  unfold forget
  split
  · rfl
  · simp only
    split
    · exact delegate_settle _
    · rfl

theorem hosting_settle (a : Advisor) : a.settle.hosting = a.hosting := by
  unfold settle
  split <;> rfl

/-- A departure is forgotten first, and if it was the primary's a hosting member bids. -/
theorem memberDeparted_eq (a : Advisor) (p : Member) :
    memberDeparted hosts a p =
      if a.isClosed = false ∧ Member.isNamed a.primary p = true ∧ a.hosting = true then do
        let (_, a, reports) ← volunteer hosts (a.forget p)
        return (a, reports)
      else return (a.forget p, []) := by
  cases hc : a.isClosed with
  | true =>
    simp only [memberDeparted, forget, hc, if_true, Bool.true_eq_false, false_and, if_false]
  | false =>
    cases hp : Member.isNamed a.primary p with
    | false =>
      simp only [memberDeparted, forget, hc, hp, Bool.false_eq_true, if_false, false_and, and_false]
    | true =>
      cases hh : a.hosting with
      | false =>
        simp only [memberDeparted, forget, hc, hp, hh, hosting_settle, Bool.false_eq_true, if_false,
          if_true, and_false]
      | true =>
        simp only [memberDeparted, forget, hc, hp, hh, hosting_settle, Bool.false_eq_true, if_false,
          if_true, and_self]

theorem Follows.memberDeparted (h : Follows hosts allowed leaving R) {a a' : Advisor} {s s' : σ}
    {p : Member} {reports : List DelegateReport}
    (hcalls : ∀ call ∈ a.delegate.calls, allowed call) (hp : leaving p)
    (hrun : (memberDeparted hosts a p).run s = ((a', reports), s')) :
    R ⟨a, false, s⟩ ⟨a', false, s'⟩ := by
  rw [memberDeparted_eq] at hrun
  split at hrun
  · rw [StateT.run_bind] at hrun
    rcases hbid : (Advisor.volunteer hosts (a.forget p)).run s with ⟨⟨asked, a₁, reports'⟩, s₁⟩
    rw [hbid] at hrun
    cases hrun
    rw [← delegate_forget a p] at hcalls
    exact h.trans (h.depart hp a s) (h.volunteer hcalls hbid)
  · cases hrun
    exact h.depart hp a s

theorem steps_memberDeparted {a a' : Advisor} {s s' : σ} {p : Member}
    {reports : List DelegateReport} (hcalls : .volunteer ∉ a.delegate.calls)
    (hrun : (memberDeparted hosts a p).run s = ((a', reports), s')) :
    Relation.ReflTransGen (Step hosts) ⟨a, false, s⟩ ⟨a', false, s'⟩ :=
  follows_steps.memberDeparted (fun _ hmem hbids => hcalls (hbids ▸ hmem)) trivial hrun

/-! ## What an advisor says -/

theorem settledState_eq_isPrimaryHosting (a : Advisor) :
    a.settledState = .isPrimaryHosting ↔ a.hosting = true ∧ a.primaryIsSelf = true := by
  unfold settledState primaryIsSelf Member.isNamed
  cases a.primary with
  | none => cases a.hosting <;> simp
  | some p => cases a.hosting <;> simp

/-- A sound advisor says that it is primary just if it hosts the bucket and knows itself as primary
of it, bid or no bid. -/
theorem Sound.isPrimary_iff (h : a.Sound b) : a.isPrimary = true ↔
    a.isClosed = false ∧ a.hosting = true ∧ a.primaryIsSelf = true := by
  have hstate : a.isPrimary = true ↔ a.state = .isPrimaryHosting := beq_iff_eq
  rw [hstate]
  cases hc : a.isClosed with
  | true =>
    rw [(isClosed_iff a).1 hc]
    exact ⟨nofun, fun h => nomatch h.1⟩
  | false =>
    rw [← settledState_eq_isPrimaryHosting]
    rcases h.settled hc with hs | ⟨-, hs, hnone⟩
    · rw [hs]
      exact ⟨fun h => ⟨rfl, h⟩, fun h => h.2⟩
    · have hother : a.settledState ≠ .isPrimaryHosting := by
        rw [Ne, settledState_eq_isPrimaryHosting, primaryIsSelf, hnone]
        nofun
      rw [hs]
      exact ⟨nofun, fun h => absurd h.2 hother⟩

/-- Between bids a sound advisor says what goes with hosting and with the primary, unless it is
closed. -/
theorem Sound.between_bids (h : a.Sound false) :
    a.state ≠ .volunteering ∧ (a.isClosed = false → a.state = a.settledState) := by
  have hsettled : a.isClosed = false → a.state = a.settledState := fun ho =>
    (h.settled ho).resolve_right fun hbid => nomatch hbid.1
  refine ⟨fun hvol => ?_, hsettled⟩
  have ho : a.isClosed = false := by
    simp only [isClosed, hvol]
    rfl
  exact a.settledState_ne.1 ((hsettled ho).symm.trans hvol)

/-- At every moment since the advisor was new: between bids it does not say that it volunteers, and
says what goes with hosting and with the primary that it knows unless it is closed; it says that it
is primary just if it hosts the bucket and knows itself as primary; and once it is closed it stays
so, without the bucket and without primary. Every call of the member, with whatever its delegate
does in it but to volunteer anew, and every departure lead to such moments. -/
theorem election_consistent (hosts : Member → StateM σ Bool) (id : Nat) (me : Member) (s : σ)
    (h : Relation.ReflTransGen (Step hosts) ⟨{ bucketId := id, member := me }, false, s⟩ m) :
    (m.bidding = false → m.advisor.state ≠ .volunteering ∧
        (m.advisor.isClosed = false → m.advisor.state = m.advisor.settledState)) ∧
      (m.advisor.isPrimary = true ↔ m.advisor.isClosed = false ∧ m.advisor.hosting = true ∧
        m.advisor.primaryIsSelf = true) ∧
      (m.advisor.isClosed = true → ∀ n, Relation.ReflTransGen (Step hosts) m n →
        n.advisor.isClosed = true ∧ n.advisor.hosting = false ∧ n.advisor.primaryIsSelf = false) ∧
      (m.bidding = false → .volunteer ∉ m.advisor.delegate.calls →
        (∀ call, let ((_, a, _), s') := (perform hosts call m.advisor).run m.world
          Relation.ReflTransGen (Step hosts) m ⟨a, false, s'⟩) ∧
        ∀ p, let ((a, _), s') := (memberDeparted hosts m.advisor p).run m.world
          Relation.ReflTransGen (Step hosts) m ⟨a, false, s'⟩) := by
  have hnew : Sound false { bucketId := id, member := me } := ⟨fun _ => .inl rfl, nofun⟩
  have hsound : m.advisor.Sound m.bidding := (kept_of_steps h hnew).sound
  refine ⟨fun hidle => ?_, hsound.isPrimary_iff, fun hc n hn => ?_, fun hidle hcalls => ?_⟩
  · rw [hidle] at hsound
    exact hsound.between_bids
  · have hkept := kept_of_steps hn hsound
    exact ⟨hkept.closed hc, hkept.sound.closed (hkept.closed hc)⟩
  · obtain ⟨a, bidding, world⟩ := m
    cases hidle
    exact ⟨fun call => steps_perform hcalls rfl, fun p => steps_memberDeparted hcalls rfl⟩

/-- An advisor of which no elector hosts the region. -/
def alone : Moment Unit :=
  ⟨{ bucketId := 0, member := { address := .localhost, port := 1 } }, false, ()⟩

/-- A member becomes primary in the midst of its bid. Its delegate then closes the advisor, which
hosts nothing any more though it is told to. -/
theorem election_consistent_closed_in_bid :
    ∃ m n : Moment Unit, Relation.ReflTransGen (Step fun _ => pure false) alone m ∧
      Relation.ReflTransGen (Step fun _ => pure false) m n ∧ m.bidding = true ∧
      m.advisor.isPrimary = true ∧ n.bidding = false ∧ n.advisor.isClosed = true ∧
      n.advisor.hosting = false := by
  obtain ⟨m, c, n, hm, hclose, hn, hbid, hprimary, hclosed, hidle⟩ : ∃ m c n : Moment Unit,
      Relation.ReflTransGen (Step fun _ => pure false) alone m ∧
      Step (fun _ => pure false) m c ∧ Relation.ReflTransGen (Step fun _ => pure false) c n ∧
      m.bidding = true ∧ (m.advisor.isClosed = false ∧ m.advisor.hosting = true ∧
        m.advisor.primaryIsSelf = true) ∧ c.advisor.isClosed = true ∧ n.bidding = false :=
    ⟨_, _, _, .head (.call (.setHosting true) nofun rfl) (.head (.call .openGate nofun rfl)
        (.head (.bid rfl rfl rfl) (.single (.call .becomePrimary nofun rfl)))),
      .call .close nofun rfl, .head .finish (.single (.call (.setHosting true) nofun rfl)),
      rfl, ⟨rfl, rfl, rfl⟩, rfl, rfl⟩
  have hhere := election_consistent _ 0 alone.advisor.member () hm
  have hlater := election_consistent _ 0 alone.advisor.member () (hm.tail hclose)
  obtain ⟨hstays, hhosting, -⟩ := hlater.2.2.1 hclosed n hn
  exact ⟨m, n, hm, .head hclose hn, hbid, hhere.2.1.2 hprimary, hidle, hstays, hhosting⟩

end

end DataGrid.Advisor
