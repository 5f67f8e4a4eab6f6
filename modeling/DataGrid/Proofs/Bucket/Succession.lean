import DataGrid.Bucket.Region
import DataGrid.Proofs.Bucket.Election

/-
Who is primary of a bucket after a member has left that its advisor counted on,
where the delegate takes the primary as soon as it is asked. The moments are
those of an election, which all calls of a member and all departures lead to (`steps_perform`,
`steps_memberDeparted`), with any changes of the outside world between them (`Turn`).

If the primary leaves, the advisor is primary itself afterwards, or an elector
that still hosts the region is to choose. If the elector leaves it is forgotten,
and nothing else happens: where no primary was known there is none afterwards
and nobody to wait for, until the member volunteers again.
-/

namespace DataGrid.Advisor

variable {σ : Type} {hosts : Member → StateM σ Bool} {a a' : Advisor} {s s' : σ} {p : Member}
  {m n : Moment σ}

/-! ## Moments in a world that changes -/

/-- A step of the advisor, or a change of the world that it does not notice. -/
inductive Turn (hosts : Member → StateM σ Bool) : Moment σ → Moment σ → Prop
  | step {m n : Moment σ} (h : Step hosts m n) : Turn hosts m n
  | elsewhere {a : Advisor} {b : Bool} {s : σ} (s' : σ) : Turn hosts ⟨a, b, s⟩ ⟨a, b, s'⟩

theorem sound_of_turns (h : Relation.ReflTransGen (Turn hosts) m n)
    (hm : m.advisor.Sound m.bidding) : n.advisor.Sound n.bidding := by
  induction h with
  | refl => exact hm
  | tail _ hturn ih =>
    cases hturn with
    | step hstep => exact (hstep.kept ih).sound
    | elsewhere s' => exact ih

/-! ## Bids that are won at once -/

/-- An elector that is neither the member that left nor the member itself, and hosts the region. -/
def Awaits (hosts : Member → StateM σ Bool) (a : Advisor) (gone : Member) (s : σ) : Prop :=
  ∃ e, a.elector = some e ∧ e.same gone = false ∧ e.same a.member = false ∧
    ((hosts e).run s).1 = true

/-- An elector holds a bid back only if it hosts the region. Otherwise none is expected to choose. -/
theorem deferToElector_cases {deferred : Bool}
    (h : (deferToElector hosts a).run s = ((deferred, a'), s')) :
    (deferred = true ∧ a' = a ∧ ∃ e, a.elector = some e ∧ e.same a.member = false ∧
        ((hosts e).run s).1 = true) ∨
      (deferred = false ∧ a' = { a with elector := none }) := by
  unfold deferToElector at h
  split at h
  next hnone =>
    cases h
    exact .inr ⟨rfl, by rw [← hnone]⟩
  next e he =>
    split at h
    · cases h
      exact .inr ⟨rfl, rfl⟩
    next hself =>
      rw [StateT.run_bind] at h
      rcases htold : (hosts e).run s with ⟨live, s₁⟩
      rw [htold] at h
      cases live with
      | true =>
        cases h
        exact .inl ⟨rfl, rfl, e, he, Bool.eq_false_iff.2 hself, by rw [htold]⟩
      | false =>
        cases h
        exact .inr ⟨rfl, rfl⟩

theorem primary_settle (a : Advisor) : a.settle.primary = a.primary := by
  unfold settle
  split <;> rfl

/-- A delegate that takes the primary, in a bid: nobody has it yet. -/
theorem primary_askDelegate (himm : a.delegate = .immediate) (hstate : a.state = .volunteering)
    (hhost : a.hosting = true) (hnone : a.primary = none) {reports : List DelegateReport}
    (h : (askDelegate hosts a).run s = ((a', reports), s')) : a'.primary = some a.member := by
  have hopen : a.isClosed = false := by
    simp only [isClosed, hstate]
    rfl
  have hwon : a.becomePrimary.2 = { a with primary := some a.member }.settle := by
    simp only [becomePrimary, hopen, hhost, hnone, Bool.not_true, Bool.or_self,
      Bool.false_eq_true, if_false]
  have ha' : a' = a.becomePrimary.2 := by
    simp only [askDelegate, himm, Delegate.immediate] at h
    exact (congrArg (·.1.1) h).symm
  rw [ha', hwon, primary_settle]

/-- A member that may bid becomes primary, unless an elector that hosts the region is to choose. -/
theorem volunteer_wins (himm : a.delegate = .immediate) (hgate : a.gateOpen = true)
    (hmay : a.mayBid = true) {asked : Bool} {reports : List DelegateReport}
    (h : (volunteer hosts a).run s = ((asked, a', reports), s')) :
    a'.primary = some a.member ∨ a' = a ∧ ∃ e, a.elector = some e ∧ e.same a.member = false ∧
      ((hosts e).run s).1 = true := by
  unfold volunteer volunteerThrough at h
  rw [hgate, Bool.not_true, if_neg Bool.false_ne_true, StateT.run_bind] at h
  rcases hdefer : (deferToElector hosts a).run s with ⟨⟨deferred, a₁⟩, s₁⟩
  rw [hdefer] at h
  rcases deferToElector_cases hdefer with ⟨rfl, rfl, helector⟩ | ⟨rfl, rfl⟩
  · cases h
    exact .inr ⟨rfl, helector⟩
  · left
    have hmay' : ({ a with elector := none } : Advisor).mayBid = true := hmay
    change StateT.run (if (false || !mayBid _) = true then _ else _) s₁ = _ at h
    rw [hmay', Bool.not_true, Bool.or_false, if_neg Bool.false_ne_true, StateT.run_bind] at h
    rcases hasked : (askDelegate hosts { a with elector := none, state := .volunteering }).run s₁
      with ⟨⟨a₂, reports'⟩, s₂⟩
    rw [hasked] at h
    simp only [mayBid, Bool.and_eq_true, Option.isNone_iff_eq_none] at hmay
    have hwon := primary_askDelegate (a := { a with elector := none, state := .volunteering })
      himm rfl hmay.1.1.1 hmay.1.1.2 hasked
    cases h
    split
    · rw [primary_settle]
      exact hwon
    · exact hwon

/-- Between bids a member without a primary and without an elector becomes primary whenever it
volunteers. -/
theorem volunteer_unattended (hsound : a.Sound false) (himm : a.delegate = .immediate)
    (hopen : a.isClosed = false) (hgate : a.gateOpen = true) (hhost : a.hosting = true)
    (hnone : a.primary = none) (helector : a.elector = none) (s : σ) :
    ((volunteer hosts a).run s).1.2.1.primary = some a.member := by
  have hidle : a.state ≠ .volunteering := hsound.between_bids.1
  have hmay : a.mayBid = true := by
    simp only [mayBid, hhost, hnone, hopen, Option.isNone_none, Bool.not_false, Bool.and_true,
      Bool.true_and, bne_iff_ne]
    exact hidle
  rcases hbid : (volunteer hosts a).run s with ⟨⟨asked, a', reports⟩, s'⟩
  rcases volunteer_wins himm hgate hmay hbid with hwon | ⟨-, e, he, -⟩
  · exact hwon
  · rw [helector] at he
    cases he

/-! ## Departures -/

/-- What a member that hosts the bucket is left with when the primary is gone. -/
theorem forget_primary (hopen : a.isClosed = false) (hhost : a.hosting = true)
    (hp : Member.isNamed a.primary p = true) :
    a.forget p = { a with
      hostingMembers := a.hostingMembers.erase p
      elector := if Member.isNamed a.elector p then none else a.elector
      primary := none
      state := .noPrimaryHosting } := by
  simp only [forget, hopen, hp, Bool.false_eq_true, if_false, if_true]
  rw [settle_eq (by exact hopen)]
  simp only [settledState, hhost]

theorem forget_other (hopen : a.isClosed = false) (hp : Member.isNamed a.primary p = false) :
    a.forget p = { a with
      hostingMembers := a.hostingMembers.erase p
      elector := if Member.isNamed a.elector p then none else a.elector } := by
  simp only [forget, hopen, hp, Bool.false_eq_true, if_false]

/-- An elector that is left is not the member that left. -/
theorem not_same_of_left {elector : Option Member} {e : Member}
    (h : (if Member.isNamed elector p then none else elector) = some e) : e.same p = false := by
  split at h
  · cases h
  next hother =>
    rw [h] at hother
    exact Bool.eq_false_iff.2 hother

/-- The primary left: this member takes over, or an elector is to choose. -/
theorem primary_departed (himm : a.delegate = .immediate) (hopen : a.isClosed = false)
    (hgate : a.gateOpen = true) (hhost : a.hosting = true)
    (hp : Member.isNamed a.primary p = true) {reports : List DelegateReport}
    (h : (memberDeparted hosts a p).run s = ((a', reports), s')) :
    a'.primary = some a.member ∨ Awaits hosts a' p s := by
  rw [memberDeparted_eq, if_pos ⟨hopen, hp, hhost⟩, StateT.run_bind] at h
  have hforget := forget_primary hopen hhost hp
  have hmay : (a.forget p).mayBid = true := by
    rw [hforget]
    simp only [mayBid, hhost, isClosed]
    rfl
  rcases hbid : (volunteer hosts (a.forget p)).run s with ⟨⟨asked, a₁, reports'⟩, s₁⟩
  rw [hbid] at h
  cases h
  have hmember : (a.forget p).member = a.member := by rw [hforget]
  rcases volunteer_wins (by rw [delegate_forget]; exact himm) (by rw [hforget]; exact hgate) hmay
    hbid with hwon | ⟨rfl, e, he, hself, hlive⟩
  · exact .inl (hwon.trans (congrArg some hmember))
  · have hother : e.same p = false := by
      rw [hforget] at he
      exact not_same_of_left he
    exact .inr ⟨e, he, hother, hself, hlive⟩

/-- Someone left that was not primary: nobody bids. -/
theorem other_departed (hopen : a.isClosed = false) (hp : Member.isNamed a.primary p = false) :
    (memberDeparted hosts a p).run s = (({ a with
      hostingMembers := a.hostingMembers.erase p
      elector := if Member.isNamed a.elector p then none else a.elector }, []), s) := by
  rw [memberDeparted_eq, if_neg fun h => by rw [hp] at h; exact nomatch h.2.1]
  exact congrArg (fun a => ((a, []), s)) (forget_other hopen hp)

/--
At any moment since the advisor was new, if it is open, past its initialization, hosts the
bucket and takes the primary when asked to, and its primary or its elector leaves: afterwards
there is a primary, or an elector that is still there to choose one, just if a primary was
known before. If it was the primary that left, the new one is the member itself. If only the
elector left, the primary is as before; if there was none the elector is forgotten, nobody
bids, and the member becomes primary the next time that it volunteers.
-/
theorem departure_succession (hosts : Member → StateM σ Bool) (id : Nat) (me : Member) (s₀ : σ)
    (h : Relation.ReflTransGen (Turn hosts) ⟨{ bucketId := id, member := me }, false, s₀⟩
      ⟨a, false, s⟩)
    (himm : a.delegate = .immediate) (hopen : a.isClosed = false) (hgate : a.gateOpen = true)
    (hhost : a.hosting = true) (p : Member)
    (hp : Member.isNamed a.primary p = true ∨ Member.isNamed a.elector p = true) :
    let a' := ((memberDeparted hosts a p).run s).1.1
    (a'.primary.isSome = true ∨ Awaits hosts a' p s ↔ a.primary.isSome = true) ∧
      (Member.isNamed a.primary p = true →
        a'.primary = some a.member ∨ Awaits hosts a' p s) ∧
      (Member.isNamed a.primary p = false → a'.primary = a.primary ∧ a'.elector = none) ∧
      (a.primary = none → ∀ later,
        ((volunteer hosts a').run later).1.2.1.primary = some a.member) := by
  have hnew : Sound false { bucketId := id, member := me } := ⟨fun _ => .inl rfl, nofun⟩
  have hsound : a.Sound false := sound_of_turns h hnew
  cases hprimary : Member.isNamed a.primary p with
  | true =>
    have hknown : a.primary.isSome = true := by
      cases hnone : a.primary with
      | none => rw [hnone] at hprimary; cases hprimary
      | some q => rfl
    rcases hrun : (memberDeparted hosts a p).run s with ⟨⟨a', reports⟩, s'⟩
    have hnext := primary_departed himm hopen hgate hhost hprimary hrun
    refine ⟨iff_of_true (hnext.imp_left fun hself => ?_) hknown, fun _ => hnext, nofun, fun hnone => ?_⟩
    · rw [hself]
      rfl
    · rw [hnone] at hknown
      cases hknown
  | false =>
    have helector : Member.isNamed a.elector p = true := hp.resolve_left (by rw [hprimary]; nofun)
    rw [other_departed hopen hprimary, if_pos helector]
    let left : Advisor := { a with hostingMembers := a.hostingMembers.erase p, elector := none }
    have hnobody : ¬ Awaits hosts left p s := by
      intro hawaits
      obtain ⟨e, he, -⟩ := hawaits
      cases he
    have hleft : left.Sound false := ⟨hsound.settled, hsound.closed⟩
    exact ⟨⟨fun h => h.resolve_right hnobody, .inl⟩, nofun, fun _ => ⟨rfl, rfl⟩, fun hnone later =>
      volunteer_unattended hleft himm hopen hgate hhost hnone rfl later⟩

/-! ## A region of three members -/

/-- Whether a member hosts the region, as the region says. -/
def asked (e : Member) : StateM HostedRegion Bool := fun r => (r.hasRegion e, r)

def second : Member := { address := .localhost, port := 2 }

def third : Member := { address := .localhost, port := 3 }

def region : HostedRegion where
  view := .ofMembers [second, third]
  hosts := { path := "/pr", redundantCopies := 1, hosts := .ofList [second, third] }

/-- The advisor of the first member when it is new. -/
def fresh : Moment HostedRegion :=
  ⟨{ bucketId := 0, member := { address := .localhost, port := 1 } }, false, region⟩

/-- The region once the second member has left. -/
def regionWithoutSecond : HostedRegion := (region.change (.departed second true)).2

/-- The second member is to choose. It leaves: the member hosts a bucket without a primary, and
nobody is expected to choose one. -/
theorem elector_departure_unattended :
    ∃ a : Advisor, Relation.ReflTransGen (Turn asked) fresh ⟨a, false, regionWithoutSecond⟩ ∧
      a.delegate = .immediate ∧ a.isClosed = false ∧ a.gateOpen = true ∧ a.hosting = true ∧
      a.elector = some second ∧
      let a' := ((memberDeparted asked a second).run regionWithoutSecond).1.1
      ¬ (a'.primary.isSome = true ∨ Awaits asked a' second regionWithoutSecond) := by
  refine ⟨_, .head (.step (.call (.setHosting true) nofun rfl))
    (.head (.step (.call .openGate nofun rfl))
      (.head (.step (.call (.setElector (some second)) nofun rfl))
        (.head (.step (.hold rfl (.inl rfl))) (.single (.elsewhere _))))), rfl, rfl, rfl, rfl, rfl, ?_⟩
  intro a' h
  rcases h with hknown | ⟨e, he, -⟩
  · cases hknown
  · cases he

/-- The second member is primary and leaves. The third is to choose and is still there. -/
theorem departure_succession_awaiting :
    ∃ a : Advisor, Relation.ReflTransGen (Turn asked) fresh ⟨a, false, regionWithoutSecond⟩ ∧
      a.primary = some second ∧
      Awaits asked ((memberDeparted asked a second).run regionWithoutSecond).1.1 second
        regionWithoutSecond := by
  obtain ⟨a, hturns, himm, hopen, hgate, hhost, hprimary, hnone⟩ : ∃ a : Advisor,
      Relation.ReflTransGen (Turn asked) fresh ⟨a, false, regionWithoutSecond⟩ ∧
      a.delegate = .immediate ∧ a.isClosed = false ∧ a.gateOpen = true ∧ a.hosting = true ∧
      a.primary = some second ∧
      ((memberDeparted asked a second).run regionWithoutSecond).1.1.primary = none :=
    ⟨_, .head (.step (.call (.setHosting true) nofun rfl))
      (.head (.step (.call .openGate nofun rfl))
        (.head (.step (.call (.setPrimary (some second)) nofun rfl))
          (.head (.step (.call (.setElector (some third)) nofun rfl)) (.single (.elsewhere _))))),
      rfl, rfl, rfl, rfl, rfl, rfl⟩
  have hnamed : Member.isNamed a.primary second = true := by
    rw [hprimary]
    exact Member.same_refl second
  obtain ⟨-, hnext, -⟩ := departure_succession asked 0 fresh.advisor.member region hturns himm hopen
    hgate hhost second (.inl hnamed)
  refine ⟨a, hturns, hprimary, (hnext hnamed).resolve_left fun hself => ?_⟩
  rw [hnone] at hself
  cases hself

end DataGrid.Advisor
