import DataGrid.Ordered.Lemmas
import DataGrid.Proofs.Bucket.Election
import Mathlib.Data.List.Induction
import Mathlib.Data.List.TakeWhile

/-
Whether a member hosts a bucket, and whether it is in its own list of those that
do. A member that begins to host comes on the list and one that stops goes off
it. But it also comes on the list when it is named primary, hosting or not, and
stays there when it is closed, though a closed advisor hosts nothing.

So hosting goes by the last call that has a word on it, and the list by the last
one before the close (`Listing`, which every step keeps). A member is listed
whenever it hosts. It may be listed and not host, and then counts as a copy
(`listed_by_last_word`).
-/

namespace DataGrid

/-! ## Calls -/

namespace AdvisorCall

def isClose : AdvisorCall → Bool
  | .close => true
  | _ => false

/-- The call does not announce that `me` hosts the bucket, or that it does not. -/
def SparesMember (me : Member) : AdvisorCall → Prop
  | .addHosting p | .removeHosting p => p.same me = false
  | _ => True

/-- What the call says about hosting. -/
def hosts? : AdvisorCall → Option Bool
  | .setHosting on => some on
  | _ => none

/-- What the call says about `me` being in the list of the hosts. -/
def lists? (me : Member) : AdvisorCall → Option Bool
  | .setHosting on => some on
  | .setPrimary p => if Member.isNamed p me then some true else none
  | _ => none

/-- What the last call says that says anything. -/
def lastWord (word? : AdvisorCall → Option Bool) (calls : List AdvisorCall) : Bool :=
  (calls.reverse.findSome? word?).getD false

def untilClose (calls : List AdvisorCall) : List AdvisorCall :=
  calls.takeWhile fun op => !op.isClose

variable {me : Member} {op : AdvisorCall} {calls : List AdvisorCall}
  {word? : AdvisorCall → Option Bool}

theorem isClose_iff : op.isClose = true ↔ op = .close := by
  cases op <;> simp [isClose]

theorem any_isClose_eq_false : calls.any isClose = false ↔ .close ∉ calls := by
  simp only [List.any_eq_false, isClose_iff]
  exact ⟨fun h hmem => h _ hmem rfl, fun h op hop heq => h (heq ▸ hop)⟩

theorem lastWord_concat (calls : List AdvisorCall) (op : AdvisorCall) :
    lastWord word? (calls ++ [op]) = (word? op).getD (lastWord word? calls) := by
  rw [lastWord, List.reverse_concat, List.findSome?_cons]
  cases word? op <;> rfl

theorem untilClose_of_open (h : calls.any isClose = false) : untilClose calls = calls := by
  refine List.takeWhile_eq_self_iff.2 fun op hop => ?_
  simpa using List.any_eq_false.1 h op hop

theorem untilClose_concat (calls : List AdvisorCall) (op : AdvisorCall) :
    untilClose (calls ++ [op]) =
      if calls.any isClose || op.isClose then untilClose calls else calls ++ [op] := by
  induction calls with
  | nil => cases hop : op.isClose <;> simp [untilClose, hop]
  | cons first calls ih =>
    unfold untilClose at ih ⊢
    cases hfirst : first.isClose with
    | true => simp [hfirst]
    | false =>
      simp only [List.cons_append, List.takeWhile_cons, hfirst, List.any_cons, Bool.not_false,
        Bool.false_or, if_true, ih]
      split <;> rfl

/-- A call has the same word on hosting and on the list, unless it names `me` primary. -/
theorem lists?_cases (op : AdvisorCall) (me : Member) :
    op.lists? me = op.hosts? ∨ op.hosts? = none ∧ op.lists? me = some true ∧
      ∃ p, op = .setPrimary (some p) ∧ p.same me = true := by
  cases op with
  | setPrimary p =>
    cases p with
    | none => exact .inl rfl
    | some p =>
      cases hnamed : p.same me with
      | true => exact .inr ⟨rfl, if_pos hnamed, p, rfl, hnamed⟩
      | false => exact .inl (if_neg (by rw [Member.isNamed, hnamed]; nofun))
  | _ => exact .inl rfl

/-- Whoever was last told to host is on the list. -/
theorem lastWord_lists_of_hosts (h : lastWord hosts? calls = true) :
    lastWord (lists? me) calls = true := by
  induction calls using List.reverseRecOn with
  | nil => cases h
  | append_singleton calls op ih =>
    rw [lastWord_concat] at h ⊢
    rcases op.lists?_cases me with hsame | ⟨-, hnamed, -⟩
    · rw [hsame]
      cases hword : op.hosts? with
      | none =>
        rw [hword] at h
        exact ih h
      | some on =>
        rw [hword] at h
        exact h
    · rw [hnamed]
      rfl

theorem lastWord_lists_of_unnamed (h : ∀ p, .setPrimary (some p) ∈ calls → p.same me = false) :
    lastWord (lists? me) calls = lastWord hosts? calls := by
  induction calls using List.reverseRecOn with
  | nil => rfl
  | append_singleton calls op ih =>
    rw [lastWord_concat, lastWord_concat, ih fun p hp => h p (List.mem_append_left _ hp)]
    rcases op.lists?_cases me with hsame | ⟨-, -, p, rfl, hnamed⟩
    · rw [hsame]
    · exact nomatch (h p (by simp)).symm.trans hnamed

end AdvisorCall

/-! ## Courses -/

namespace Advisor

open AdvisorCall (isClose hosts? lists? lastWord untilClose any_isClose_eq_false lastWord_concat
  untilClose_concat untilClose_of_open lastWord_lists_of_hosts lastWord_lists_of_unnamed)

/-- The member is in its own list of the hosts. -/
def isListed (a : Advisor) : Bool := a.hostingMembers.contains a.member

section

variable {σ : Type}

/-- What may happen to the advisor of `me`, and the calls that are made in it. Nobody but the member
itself announces that it hosts the bucket, or departs. -/
inductive Happens (hosts : Member → StateM σ Bool) (me : Member) :
    List AdvisorCall → Moment σ → Moment σ → Prop
  | call {a a' : Advisor} {b : Bool} {s s' : σ} (op : AdvisorCall) (hop : op ≠ .volunteer)
      (hspares : op.SparesMember me) {answer : AdvisorAnswer} {reports : List DelegateReport}
      (hrun : (performThrough hosts noteAskedAgain op a).run s = ((answer, a', reports), s')) :
      Happens hosts me [op] ⟨a, b, s⟩ ⟨a', b, s'⟩
  | beside {again : Prop} {m n : Moment σ} (h : Beside hosts again m n) : Happens hosts me [] m n
  | depart {a : Advisor} {b : Bool} {s : σ} (p : Member) (hother : p.same me = false) :
      Happens hosts me [] ⟨a, b, s⟩ ⟨a.forget p, b, s⟩
  /-- The delegate makes up its mind what to do. -/
  | appoint {a : Advisor} {b : Bool} {s : σ} (d : Delegate) :
      Happens hosts me [] ⟨a, b, s⟩ ⟨{ a with delegate := d }, b, s⟩
  | elsewhere {a : Advisor} {b : Bool} {s : σ} (s' : σ) :
      Happens hosts me [] ⟨a, b, s⟩ ⟨a, b, s'⟩

/-- Any number of these one after the other, and all the calls. -/
inductive Course (hosts : Member → StateM σ Bool) (me : Member) :
    List AdvisorCall → Moment σ → Moment σ → Prop
  | refl (m : Moment σ) : Course hosts me [] m m
  | snoc {calls made : List AdvisorCall} {l m n : Moment σ} (h : Course hosts me calls l m)
      (hnext : Happens hosts me made m n) : Course hosts me (calls ++ made) l n

variable {hosts : Member → StateM σ Bool} {me : Member} {a a' : Advisor} {b : Bool} {s s' : σ}
  {l m n : Moment σ} {op : AdvisorCall} {calls made : List AdvisorCall}

theorem Happens.course (h : Happens hosts me made m n) : Course hosts me made m n :=
  .snoc (.refl m) h

theorem Course.trans (h : Course hosts me calls l m) (hnext : Course hosts me made m n) :
    Course hosts me (calls ++ made) l n := by
  induction hnext with
  | refl =>
    rw [List.append_nil]
    exact h
  | snoc _ hlast ih =>
    rw [← List.append_assoc]
    exact (ih h).snoc hlast

/-- Courses in which all calls are of these. -/
theorem follows_course {allowed : AdvisorCall → Prop}
    (hspares : ∀ op, allowed op → op.SparesMember me) :
    Follows hosts allowed (fun p => p.same me = false) fun m n =>
      ∃ made, (∀ op ∈ made, allowed op) ∧ Course hosts me made m n where
  refl m := ⟨[], List.forall_mem_nil _, .refl m⟩
  trans := by
    rintro _ _ _ ⟨calls, hcalls, hfirst⟩ ⟨made, hmade, hsecond⟩
    exact ⟨calls ++ made, List.forall_mem_append.2 ⟨hcalls, hmade⟩, hfirst.trans hsecond⟩
  beside h := ⟨[], List.forall_mem_nil _, (Happens.beside h).course⟩
  call hop hallowed _ _ _ _ _ _ _ hrun :=
    ⟨[_], by simpa using hallowed, (Happens.call _ hop (hspares _ hallowed) hrun).course⟩
  depart hother _ _ := ⟨[], List.forall_mem_nil _, (Happens.depart _ hother).course⟩

/-! ## One step -/

theorem compare_ne_of_other {p : Member} (hother : p.same me = false) : compare me p ≠ .eq := by
  intro heq
  have hsame : p.same me = true := Member.same_symm (beq_iff_eq.2 heq)
  rw [hother] at hsame
  cases hsame

theorem contains_insert_other (listed : OrdSet Member) {p : Member} (hother : p.same me = false) :
    (listed.insert p).contains me = listed.contains me := by
  rw [OrdSet.contains_insert, beq_eq_false_iff_ne.2 (compare_ne_of_other hother), Bool.false_or]

theorem contains_erase_other (listed : OrdSet Member) {p : Member} (hother : p.same me = false) :
    (listed.erase p).contains me = listed.contains me :=
  listed.contains_erase_other (compare_ne_of_other hother)

/-- Nothing changes that has to do with hosting. -/
structure Alike (me : Member) (a a' : Advisor) : Prop where
  member : a'.member = a.member
  closed : a'.isClosed = a.isClosed
  hosting : a'.hosting = a.hosting
  listed : a'.hostingMembers.contains me = a.hostingMembers.contains me

theorem Alike.refl (a : Advisor) : Alike me a a := ⟨rfl, rfl, rfl, rfl⟩

theorem Alike.settle (h : Alike me a a') : Alike me a a'.settle := by
  unfold Advisor.settle
  split
  · exact h
  next ho =>
    rw [Bool.not_eq_true] at ho
    refine ⟨h.member, ?_, h.hosting, h.listed⟩
    rw [← h.closed, ho, Bool.eq_false_iff, Ne, isClosed_iff]
    exact a'.settledState_ne.2

theorem alike_becomePrimary (a : Advisor) : Alike me a a.becomePrimary.2 := by
  unfold Advisor.becomePrimary
  split
  · exact .refl a
  · split
    · exact .refl a
    · exact Alike.settle ⟨rfl, rfl, rfl, rfl⟩

theorem alike_resignPrimary (a : Advisor) : Alike me a a.resignPrimary.2 := by
  unfold Advisor.resignPrimary
  split
  · exact Alike.settle ⟨rfl, rfl, rfl, rfl⟩
  · exact .refl a

theorem alike_forget (a : Advisor) {p : Member} (hother : p.same me = false) :
    Alike me a (a.forget p) := by
  unfold Advisor.forget
  split
  · exact .refl a
  · simp only
    have hforgotten : Alike me a { a with
        hostingMembers := a.hostingMembers.erase p
        elector := if Member.isNamed a.elector p then none else a.elector } :=
      ⟨rfl, rfl, rfl, contains_erase_other _ hother⟩
    split
    · exact Alike.settle ⟨rfl, rfl, rfl, hforgotten.listed⟩
    · exact hforgotten

theorem Beside.alike {again : Prop} (h : Beside hosts again m n) :
    Alike me m.advisor n.advisor := by
  cases h with
  | hold _ hrun _ =>
    obtain ⟨elector, rfl⟩ := deferToElector_run hrun
    exact ⟨rfl, rfl, rfl, rfl⟩
  | @bid a _ _ _ _ _ _ hrun hmay =>
    obtain ⟨elector, rfl⟩ := deferToElector_run hrun
    have ho : a.isClosed = false := by
      simp only [mayBid, Bool.and_eq_true, Bool.not_eq_true'] at hmay
      exact hmay.2
    exact ⟨rfl, ho.symm, rfl, rfl⟩
  | @finish a =>
    change Alike me a (if a.state = .volunteering then a.settle else a)
    split
    · exact (Alike.refl a).settle
    · exact .refl a

/-- What a call does is what it says, unless the advisor is closed. -/
structure Heeds (me : Member) (op : AdvisorCall) (a a' : Advisor) : Prop where
  member : a'.member = a.member
  closed : a'.isClosed = (a.isClosed || op.isClose)
  hosting : a'.hosting = (!a'.isClosed && op.hosts?.getD a.hosting)
  listed : a'.hostingMembers.contains me =
    if a'.isClosed then a.hostingMembers.contains me
    else (op.lists? me).getD (a.hostingMembers.contains me)

theorem Alike.heeds (h : Alike me a a') (hidle : a.isClosed = true → a.hosting = false)
    (hclose : op.isClose = false)
    (hquiet : a.isClosed = true ∨ op.hosts? = none ∧ op.lists? me = none) : Heeds me op a a' := by
  have hclosed : a'.isClosed = a.isClosed := h.closed
  refine ⟨h.member, by rw [hclosed, hclose, Bool.or_false], ?_, ?_⟩
  · rw [h.hosting, hclosed]
    cases hc : a.isClosed with
    | true => simp [hidle hc]
    | false => simp [(hquiet.resolve_left (by simp [hc])).1]
  · rw [h.listed, hclosed]
    split
    · rfl
    next ho => simp [(hquiet.resolve_left ho).2]

/-- A change of an open advisor that is settled afterwards. -/
theorem heeds_settle (ho : a.isClosed = false) (hclose : op.isClose = false)
    (hmember : a'.member = a.member) (hstate : a'.state = a.state)
    (hhosting : a'.hosting = op.hosts?.getD a.hosting)
    (hlisted : a'.hostingMembers.contains me =
      (op.lists? me).getD (a.hostingMembers.contains me)) : Heeds me op a a'.settle := by
  have halike : Alike me a' a'.settle := (Alike.refl a').settle
  have ho' : a'.settle.isClosed = false := by
    rw [halike.closed, isClosed, hstate]
    exact ho
  refine ⟨halike.member.trans hmember, ?_, ?_, ?_⟩
  · rw [ho', ho, hclose]
    rfl
  · rw [ho', halike.hosting, hhosting, Bool.not_false, Bool.true_and]
  · rw [halike.listed, hlisted, ho', if_neg Bool.false_ne_true]

theorem heeds_setHosting (hme : a.member = me) (hidle : a.isClosed = true → a.hosting = false)
    (on : Bool) : Heeds me (.setHosting on) a (a.setHosting on) := by
  subst hme
  unfold Advisor.setHosting
  split
  next hc => exact (Alike.refl a).heeds hidle rfl (.inl hc)
  next ho =>
    rw [Bool.not_eq_true] at ho
    cases on with
    | true =>
      refine heeds_settle ho rfl rfl rfl rfl ?_
      simp [lists?, OrdSet.contains_insert, Std.ReflCmp.compare_self]
    | false =>
      refine heeds_settle ho rfl rfl rfl rfl ?_
      simp [lists?]

/-- Whoever is named primary is taken to be a host. -/
theorem heeds_setPrimary (hidle : a.isClosed = true → a.hosting = false) (p : Option Member) :
    Heeds me (.setPrimary p) a (a.setPrimary p) := by
  unfold Advisor.setPrimary
  split
  next hc => exact (Alike.refl a).heeds hidle rfl (.inl hc)
  next ho =>
    refine heeds_settle (Bool.eq_false_iff.2 ho) rfl rfl rfl rfl ?_
    cases p with
    | none => rfl
    | some p =>
      cases hnamed : p.same me with
      | true =>
        have heq : compare me p = .eq := beq_iff_eq.1 (Member.same_symm hnamed)
        simp [lists?, Member.isNamed, hnamed, OrdSet.contains_insert, heq]
      | false =>
        simp [lists?, Member.isNamed, hnamed, contains_insert_other _ hnamed]

theorem heeds_close (a : Advisor) : Heeds me .close a a.close := by
  refine ⟨rfl, ?_, rfl, rfl⟩
  simp [isClose, isClosed, Advisor.close]

theorem heeds_performThrough (hme : a.member = me) (hidle : a.isClosed = true → a.hosting = false)
    (hop : op ≠ .volunteer) (hspares : op.SparesMember me) {answer : AdvisorAnswer}
    {reports : List DelegateReport}
    (hrun : (performThrough hosts noteAskedAgain op a).run s = ((answer, a', reports), s')) :
    Heeds me op a a' := by
  cases op with
  | volunteer => exact absurd rfl hop
  | openGate =>
    cases hrun
    exact Alike.heeds ⟨rfl, rfl, rfl, rfl⟩ hidle rfl (.inr ⟨rfl, rfl⟩)
  | awaitPrimary | observe =>
    cases hrun
    exact (Alike.refl a).heeds hidle rfl (.inr ⟨rfl, rfl⟩)
  | addHosting p =>
    cases hrun
    exact Alike.heeds ⟨rfl, rfl, rfl, contains_insert_other _ hspares⟩ hidle rfl (.inr ⟨rfl, rfl⟩)
  | removeHosting p =>
    cases hrun
    exact Alike.heeds ⟨rfl, rfl, rfl, contains_erase_other _ hspares⟩ hidle rfl (.inr ⟨rfl, rfl⟩)
  | setElector e =>
    simp only [Advisor.performThrough, StateT.run_bind] at hrun
    rcases hset : (Advisor.setElector hosts a e).run s with ⟨a₁, s₁⟩
    rw [hset] at hrun
    cases hrun
    obtain ⟨elector, rfl⟩ := setElector_run hset
    exact Alike.heeds ⟨rfl, rfl, rfl, rfl⟩ hidle rfl (.inr ⟨rfl, rfl⟩)
  | becomePrimary =>
    cases hrun
    exact (alike_becomePrimary a).heeds hidle rfl (.inr ⟨rfl, rfl⟩)
  | resignPrimary =>
    cases hrun
    exact (alike_resignPrimary a).heeds hidle rfl (.inr ⟨rfl, rfl⟩)
  | setHosting on =>
    cases hrun
    exact heeds_setHosting hme hidle on
  | setPrimary p =>
    cases hrun
    exact heeds_setPrimary hidle p
  | close =>
    cases hrun
    exact heeds_close a

/-! ## What the calls come to -/

/-- Whether the member hosts the bucket and is listed, after these calls. -/
structure Listing (me : Member) (calls : List AdvisorCall) (a : Advisor) : Prop where
  member : a.member = me
  closed : a.isClosed = calls.any isClose
  hosting : a.hosting = (!a.isClosed && lastWord hosts? calls)
  listed : a.hostingMembers.contains me = lastWord (lists? me) (untilClose calls)

theorem Listing.alike (h : Listing me calls a) (halike : Alike me a a') : Listing me calls a' where
  member := halike.member.trans h.member
  closed := halike.closed.trans h.closed
  hosting := by rw [halike.hosting, halike.closed, h.hosting]
  listed := halike.listed.trans h.listed

theorem Listing.idle (h : Listing me calls a) (hc : a.isClosed = true) : a.hosting = false := by
  rw [h.hosting, hc]
  rfl

theorem Listing.heeds (h : Listing me calls a) (hheeds : Heeds me op a a') :
    Listing me (calls ++ [op]) a' := by
  have hclosed : a'.isClosed = (calls.any isClose || op.isClose) := by
    rw [hheeds.closed, h.closed]
  refine ⟨hheeds.member.trans h.member, by simpa using hclosed, ?_, ?_⟩
  · rw [hheeds.hosting, lastWord_concat]
    cases hc : a'.isClosed with
    | true => rfl
    | false =>
      rw [hheeds.closed, Bool.or_eq_false_iff] at hc
      simp only [h.hosting, hc.1, Bool.not_false, Bool.true_and]
  · rw [hheeds.listed, untilClose_concat, ← hclosed, h.listed]
    split
    · rfl
    next ho =>
      rw [Bool.not_eq_true, hclosed, Bool.or_eq_false_iff] at ho
      rw [lastWord_concat, untilClose_of_open ho.1]

/-- Whatever happens next. -/
theorem Happens.listing (h : Happens hosts me made m n) (hm : Listing me calls m.advisor) :
    Listing me (calls ++ made) n.advisor := by
  cases h with
  | call op hop hspares hrun =>
    exact hm.heeds (heeds_performThrough hm.member hm.idle hop hspares hrun)
  | beside hbeside =>
    rw [List.append_nil]
    exact hm.alike hbeside.alike
  | depart p hother =>
    rw [List.append_nil]
    exact hm.alike (alike_forget _ hother)
  | appoint | elsewhere =>
    rw [List.append_nil]
    exact hm.alike ⟨rfl, rfl, rfl, rfl⟩

theorem Course.listing (h : Course hosts me made m n) (hm : Listing me calls m.advisor) :
    Listing me (calls ++ made) n.advisor := by
  induction h with
  | refl =>
    rw [List.append_nil]
    exact hm
  | snoc _ hnext ih =>
    rw [← List.append_assoc]
    exact hnext.listing (ih hm)

/-- An advisor that was told nothing yet. -/
def unused (id : Nat) (me : Member) (d : Delegate) (s : σ) : Moment σ :=
  ⟨{ bucketId := id, member := me, delegate := d }, false, s⟩

theorem redundancy_eq (a : Advisor) : a.redundancy =
    (a.hostingMembers.erase a.member).size - 1 + if a.isListed then 1 else 0 := by
  have hsize := a.hostingMembers.size_erase a.member
  unfold redundancy isListed
  change (a.hostingMembers.size : Int) - 1 = _
  split at hsize
  next hc =>
    rw [if_pos hc]
    omega
  next hc =>
    rw [if_neg hc]
    omega

/-- Since the advisor was new, whatever bids there were and whatever the delegate did in them: the
member hosts the bucket just if it was not closed and was last told to host, and is listed just if
the last call before the close that has a word on that puts it on the list. Whenever it hosts it is
listed; the other way round this holds while it is neither closed nor named primary by anybody. The
redundancy counts it while it is listed. Calls, bids and departures of others all lead on. -/
theorem listed_by_last_word {id : Nat} {d : Delegate}
    (h : Course hosts me calls (unused id me d s) m) :
    (m.advisor.hosting = true ↔ .close ∉ calls ∧ lastWord hosts? calls = true) ∧
      (m.advisor.isListed = true ↔ lastWord (lists? me) (untilClose calls) = true) ∧
      (m.advisor.hosting = true → m.advisor.isListed = true) ∧
      (.close ∉ calls → (∀ p, .setPrimary (some p) ∈ calls → p.same me = false) →
        m.advisor.isListed = m.advisor.hosting) ∧
      m.advisor.redundancy = (m.advisor.hostingMembers.erase me).size - 1 +
        (if m.advisor.isListed then 1 else 0) ∧
      (m.bidding = false →
        (∀ op, op ≠ .volunteer → op.SparesMember me →
          let ((_, a, _), s') := (perform hosts op m.advisor).run m.world
          Course hosts me (calls ++ [op]) (unused id me d s) ⟨a, false, s'⟩) ∧
        ((∀ op ∈ m.advisor.delegate.calls, op.SparesMember me) →
          (let ((_, a, _), s') := (volunteer hosts m.advisor).run m.world
            ∃ made ⊆ m.advisor.delegate.calls,
              Course hosts me (calls ++ made) (unused id me d s) ⟨a, false, s'⟩) ∧
          ∀ p, p.same me = false →
            let ((a, _), s') := (memberDeparted hosts m.advisor p).run m.world
            ∃ made ⊆ m.advisor.delegate.calls,
              Course hosts me (calls ++ made) (unused id me d s) ⟨a, false, s'⟩)) := by
  have hnew : Listing me [] (unused id me d s).advisor := ⟨rfl, rfl, rfl, rfl⟩
  have hlisting : Listing me calls m.advisor := h.listing hnew
  have hhosting : m.advisor.hosting = true ↔ .close ∉ calls ∧ lastWord hosts? calls = true := by
    rw [hlisting.hosting, hlisting.closed, Bool.and_eq_true, Bool.not_eq_true',
      any_isClose_eq_false]
  have hlisted : m.advisor.isListed = lastWord (lists? me) (untilClose calls) := by
    rw [isListed, hlisting.member, hlisting.listed]
  refine ⟨hhosting, by rw [hlisted], fun hhosts => ?_, fun hclose hnamed => ?_, ?_, fun hidle => ?_⟩
  · obtain ⟨hclose, hword⟩ := hhosting.1 hhosts
    rw [hlisted, untilClose_of_open (any_isClose_eq_false.2 hclose)]
    exact lastWord_lists_of_hosts hword
  · have ho : calls.any isClose = false := any_isClose_eq_false.2 hclose
    rw [hlisted, untilClose_of_open ho, lastWord_lists_of_unnamed hnamed,
      hlisting.hosting, hlisting.closed, ho, Bool.not_false, Bool.true_and]
  · rw [redundancy_eq, hlisting.member]
  · obtain ⟨a, bidding, world⟩ := m
    cases hidle
    refine ⟨fun op hop hspares => ?_, fun hspares => ⟨?_, fun p hp => ?_⟩⟩
    · rw [perform, performThrough_ask hop]
      exact h.snoc (.call op hop hspares rfl)
    · obtain ⟨made, hmade, hbid⟩ := (follows_course hspares).volunteer (fun _ hmem => hmem) rfl
      exact ⟨made, hmade, h.trans hbid⟩
    · obtain ⟨made, hmade, hleft⟩ :=
        (follows_course hspares).memberDeparted (fun _ hmem => hmem) hp rfl
      exact ⟨made, hmade, h.trans hleft⟩

end

/-- A member that has stopped hosting is named primary, and then another one. Both count as copies
of the bucket, also when the advisor is closed. -/
theorem listed_by_last_word_named : ∃ calls m,
    Course (fun _ => pure false) alone.advisor.member calls alone m ∧
      m.advisor.isClosed = true ∧ m.advisor.hosting = false ∧ m.advisor.isListed = true ∧
      m.advisor.redundancy = 1 := by
  obtain ⟨calls, m, hcourse, hclosed, hmade, hword, hothers⟩ : ∃ calls m,
      Course (fun _ => pure false) alone.advisor.member calls alone m ∧
        m.advisor.isClosed = true ∧ .close ∈ calls ∧
        lastWord (lists? alone.advisor.member) (untilClose calls) = true ∧
        (m.advisor.hostingMembers.erase alone.advisor.member).size = 1 :=
    ⟨_, _, .snoc (.snoc (.snoc (.snoc (.snoc (.refl alone)
        (.call (.setHosting true) nofun trivial rfl))
        (.call (.setHosting false) nofun trivial rfl))
        (.call (.setPrimary (some alone.advisor.member)) nofun trivial rfl))
        (.call (.setPrimary (some { alone.advisor.member with port := 2 })) nofun trivial rfl))
        (.call .close nofun trivial rfl),
      rfl, by simp, rfl, rfl⟩
  obtain ⟨hhosting, hlisted, -, -, hcount, -⟩ := listed_by_last_word hcourse
  have hidle : m.advisor.hosting = false := Bool.eq_false_iff.2 fun h => (hhosting.1 h).1 hmade
  have hcounted : m.advisor.isListed = true := hlisted.2 hword
  rw [hcounted, hothers] at hcount
  exact ⟨calls, m, hcourse, hclosed, hidle, hcounted, hcount⟩

/-- A member that hosted the bucket alone still counts as a copy when its advisor is closed. -/
theorem listed_after_close : ∃ m,
    Course (fun _ => pure false) alone.advisor.member [.setHosting true, .close] alone m ∧
      m.advisor.hosting = false ∧ m.advisor.isListed = true ∧ m.advisor.redundancy = 0 :=
  ⟨_, .snoc (.snoc (.refl alone) (.call (.setHosting true) nofun trivial rfl))
    (.call .close nofun trivial rfl), rfl, rfl, rfl⟩

end Advisor
end DataGrid
