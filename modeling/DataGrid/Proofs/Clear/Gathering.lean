import DataGrid.Clear.Region
import DataGrid.Proofs.Version.Vector

/-
What becomes of the recipients of a message while the replies to it are
gathered. Reports of them come in any order, more than once, and of members
that the message was not for. A recipient is waited for until the first report
of it, which is kept; all other reports are as good as unheard. So every
recipient is in one of three places, once: still waited for, among the
replies, or among the departed (`Collector.recipients_split`).
-/

namespace DataGrid

/-- What is heard of a member that may owe a reply. -/
inductive Heard
  | replied (reply : ClearReply)
  | left (m : Member)

namespace Heard

def member : Heard → Member
  | replied reply => reply.sender
  | left m => m

def reply? : Heard → Option ClearReply
  | replied reply => some reply
  | left _ => none

def left? : Heard → Option Member
  | replied _ => none
  | left m => some m

end Heard

def Outcome.add (o : Outcome) (r : Heard) : Outcome where
  replies := o.replies ++ r.reply?.toList
  departed := o.departed ++ r.left?.toList

namespace Collector

def hear (c : Collector) : Heard → Collector
  | .replied reply => c.reply reply
  | .left m => c.memberDeparted m

def hearAll (c : Collector) (reports : List Heard) : Collector := reports.foldl hear c

/-- Of the reports those that count, in the order in which they came: the first of each member that
is waited for. -/
def deciding (waited : Member → Bool) (reports : List Heard) : List Heard :=
  (reports.filter fun r => waited r.member).eraseDupsBy fun later first =>
    later.member.same first.member

/-- How often a member is found: waited for, among the replies, among the departed. -/
def places (c : Collector) (m : Member) : Nat :=
  c.pending.toList.countP (·.same m) + c.outcome.replies.countP (·.sender.same m)
    + c.outcome.departed.countP (·.same m)

variable {c : Collector} {r : Heard}

/-! ## One report -/

theorem hear_waited (h : c.pending.contains r.member = true) :
    c.hear r = ⟨c.pending.erase r.member, c.outcome.add r⟩ := by
  cases r with
  | replied answer =>
    have hkept : c.outcome.add (.replied answer) =
        { c.outcome with replies := c.outcome.replies ++ [answer] } := by
      simp [Outcome.add, Heard.reply?, Heard.left?]
    rw [hkept]
    exact if_pos h
  | left m =>
    have hkept : c.outcome.add (.left m) =
        { c.outcome with departed := c.outcome.departed ++ [m] } := by
      simp [Outcome.add, Heard.reply?, Heard.left?]
    rw [hkept]
    exact if_pos h

theorem hear_unwaited (h : c.pending.contains r.member = false) : c.hear r = c := by
  cases r with
  | replied answer => exact if_neg (Bool.eq_false_iff.1 h)
  | left m => exact if_neg (Bool.eq_false_iff.1 h)

theorem contains_erase (s : OrdSet Member) (m m' : Member) :
    (s.erase m).contains m' = (s.contains m' && !m.same m') := by
  cases hs : m.same m' with
  | true =>
    have heq : compare m' m = .eq := Member.same_iff.1 (Member.same_symm hs)
    rw [OrdSet.contains_congr _ heq, OrdSet.contains_erase_self, Bool.not_true, Bool.and_false]
  | false =>
    rw [OrdSet.contains_erase_other, Bool.not_false, Bool.and_true]
    intro heq
    rw [Member.same_symm (Member.same_iff.2 heq)] at hs
    cases hs

/-- Of members that are the same a set has one at most. -/
theorem countP_toList (s : OrdSet Member) (m : Member) :
    s.toList.countP (·.same m) = (s.contains m).toNat := by
  have hone : ∀ l : List Member, l.Pairwise (fun a b => compare a b ≠ .eq) →
      l.countP (·.same m) ≤ 1 := by
    intro l hl
    induction hl with
    | nil => exact Nat.zero_le 1
    | @cons a l hdistinct _ ih =>
      cases ha : a.same m with
      | false => rwa [List.countP_cons_of_neg (by simp [ha])]
      | true =>
        have hnone : l.countP (·.same m) = 0 := List.countP_eq_zero.2 fun b hb hbm =>
          hdistinct b hb (Member.same_iff.1 (Member.same_trans ha (Member.same_symm hbm)))
        rw [List.countP_cons, hnone, ha]
        exact Nat.le_refl 1
  cases hc : s.contains m with
  | false =>
    refine List.countP_eq_zero.2 fun p hp hpm => ?_
    rw [(s.contains_iff_mem m).2 ⟨p, hp, Member.same_iff.1 (Member.same_symm hpm)⟩] at hc
    cases hc
  | true =>
    obtain ⟨p, hp, heq⟩ := (s.contains_iff_mem m).1 hc
    have hsome : 0 < s.toList.countP (·.same m) :=
      List.countP_pos_iff.2 ⟨p, hp, Member.same_symm (Member.same_iff.2 heq)⟩
    exact Nat.le_antisymm (hone _ s.pairwise_toList) hsome

/-- A report takes its member off the list of those who are waited for, if it is there. -/
theorem contains_hear (c : Collector) (r : Heard) (m : Member) :
    (c.hear r).pending.contains m = (c.pending.contains m && !r.member.same m) := by
  cases hw : c.pending.contains r.member with
  | true => rw [hear_waited hw, contains_erase]
  | false =>
    rw [hear_unwaited hw]
    cases hs : r.member.same m with
    | true =>
      rw [← OrdSet.contains_congr _ (Member.same_iff.1 hs), hw]
      rfl
    | false => rw [Bool.not_false, Bool.and_true]

/-- A member moves from one place to another. -/
theorem places_hear (c : Collector) (r : Heard) (m : Member) :
    (c.hear r).places m = c.places m := by
  cases hw : c.pending.contains r.member with
  | false => rw [hear_unwaited hw]
  | true =>
    have hfound : ((c.outcome.add r).replies.countP (·.sender.same m)) +
        (c.outcome.add r).departed.countP (·.same m) =
        c.outcome.replies.countP (·.sender.same m) + c.outcome.departed.countP (·.same m) +
          (r.member.same m).toNat := by
      have hone : ∀ b : Bool, (if b = true then 1 else 0) = b.toNat := fun b => by
        cases b <;> rfl
      cases r with
      | replied answer | left m' =>
        simp only [Outcome.add, Heard.reply?, Heard.left?, Heard.member, Option.toList_some,
          Option.toList_none, List.append_nil, List.countP_append, List.countP_singleton, hone]
        omega
    have hwaited : ((c.pending.erase r.member).contains m).toNat + (r.member.same m).toNat =
        (c.pending.contains m).toNat := by
      rw [contains_erase]
      cases hs : r.member.same m with
      | true => rw [← OrdSet.contains_congr _ (Member.same_iff.1 hs), hw]; rfl
      | false => rw [Bool.not_false, Bool.and_true]; rfl
    rw [hear_waited hw]
    simp only [places, countP_toList]
    omega

/-! ## All reports -/

theorem contains_hearAll (reports : List Heard) (c : Collector) (m : Member) :
    (c.hearAll reports).pending.contains m =
      (c.pending.contains m && !reports.any (·.member.same m)) := by
  induction reports generalizing c with
  | nil => simp [hearAll]
  | cons r rest ih =>
    have hrest : c.hearAll (r :: rest) = (c.hear r).hearAll rest := rfl
    rw [hrest, ih, contains_hear, List.any_cons, Bool.not_or, Bool.and_assoc]

theorem places_hearAll (reports : List Heard) (c : Collector) (m : Member) :
    (c.hearAll reports).places m = c.places m :=
  List.foldlRecOn reports hear (motive := fun c' => c'.places m = c.places m) rfl
    fun c' hc r _ => (places_hear c' r m).trans hc

theorem deciding_cons (waited : Member → Bool) (r : Heard) (rest : List Heard) :
    deciding waited (r :: rest) = if waited r.member
      then r :: deciding (fun m => waited m && !r.member.same m) rest
      else deciding waited rest := by
  unfold deciding
  cases hw : waited r.member with
  | false => rw [List.filter_cons, hw, if_neg Bool.false_ne_true, if_neg Bool.false_ne_true]
  | true =>
    rw [List.filter_cons, hw, if_pos rfl, if_pos rfl, List.eraseDupsBy_cons, List.filter_filter]
    congr 2
    refine List.filter_congr fun later _ => ?_
    have hsymm : later.member.same r.member = r.member.same later.member := by
      rw [Bool.eq_iff_iff]
      exact ⟨Member.same_symm, Member.same_symm⟩
    rw [hsymm, Bool.and_comm]
    show _ = (waited later.member && !r.member.same later.member)
    cases r.member.same later.member <;> rfl

theorem deciding_congr {waited waited' : Member → Bool} (h : ∀ m, waited m = waited' m)
    (reports : List Heard) : deciding waited reports = deciding waited' reports := by
  rw [funext h]

/-- The outcome grows by the reports that count. -/
theorem outcome_hearAll (reports : List Heard) (c : Collector) :
    (c.hearAll reports).outcome = {
      replies := c.outcome.replies ++
        (deciding c.pending.contains reports).filterMap Heard.reply?
      departed := c.outcome.departed ++
        (deciding c.pending.contains reports).filterMap Heard.left? } := by
  induction reports generalizing c with
  | nil => simp [hearAll, deciding]
  | cons r rest ih =>
    have hrest : c.hearAll (r :: rest) = (c.hear r).hearAll rest := rfl
    have hwaited : ∀ m,
        (c.hear r).pending.contains m = (c.pending.contains m && !r.member.same m) :=
      contains_hear c r
    rw [hrest, ih, deciding_cons]
    cases hw : c.pending.contains r.member with
    | false => rw [hear_unwaited hw, if_neg Bool.false_ne_true]
    | true =>
      rw [deciding_congr hwaited, hear_waited hw, if_pos rfl]
      cases r with
      | replied answer | left m =>
        simp [Outcome.add, Heard.reply?, Heard.left?, List.filterMap_cons]

/-! ## From the recipients on -/

theorem contains_new (recipients : List Member) (m : Member) :
    (new recipients).pending.contains m = recipients.any (·.same m) := by
  rw [Bool.eq_iff_iff, new, OrdSet.contains_ofList, List.any_eq_true]
  constructor
  · rintro ⟨p, hp, heq⟩
    exact ⟨p, hp, Member.same_symm (Member.same_iff.2 heq)⟩
  · rintro ⟨p, hp, hsame⟩
    exact ⟨p, hp, Member.same_iff.1 (Member.same_symm hsame)⟩

/-- Every recipient is in one place, and nobody else in any. -/
theorem places_gathered (recipients : List Member) (reports : List Heard) (m : Member) :
    ((new recipients).hearAll reports).places m = (recipients.any (·.same m)).toNat := by
  rw [places_hearAll, places, countP_toList, contains_new]
  rfl

theorem take_waiting {m : Member} (h : c.pending.contains m = true) :
    c.take = (.error (.replyTimeout c.pending.size), c) := by
  have hsome : c.pending.isEmpty = false := by
    rw [Bool.eq_false_iff]
    intro hempty
    rw [OrdSet.contains_of_isEmpty hempty] at h
    cases h
  rw [take, hsome, if_neg Bool.false_ne_true]

theorem take_complete (h : ∀ m, c.pending.contains m = false) :
    c.take = (.ok c.outcome, { c with outcome := {} }) := by
  rw [take, OrdSet.isEmpty_of_contains h, if_pos rfl]

/-- Whatever reports come in, and in whatever order, each recipient is found in exactly one of the
three places, once, and nobody else in any of them; recipients that are the same count once. The
replies and the departed are what the first report of each recipient says, in the order in which
these reports came, and a recipient is waited for until then. A report of anyone who is not waited
for changes nothing. The outcome is handed out just when there was a report of every recipient, and
until then to ask for it changes nothing. -/
theorem recipients_split (recipients : List Member) (reports : List Heard) :
    let c := (new recipients).hearAll reports
    let counted := deciding (fun m => recipients.any (·.same m)) reports
    (∀ m, c.pending.toList.countP (·.same m) + c.outcome.replies.countP (·.sender.same m)
        + c.outcome.departed.countP (·.same m) = (recipients.any (·.same m)).toNat) ∧
      c.outcome.replies = counted.filterMap Heard.reply? ∧
      c.outcome.departed = counted.filterMap Heard.left? ∧
      (∀ m, c.pending.contains m = true ↔
        recipients.any (·.same m) = true ∧ ∀ r ∈ reports, r.member.same m = false) ∧
      (∀ r, c.pending.contains r.member = false → c.hear r = c) ∧
      ((∃ o, c.take.1 = .ok o) ↔ ∀ p ∈ recipients, ∃ r ∈ reports, r.member.same p = true) ∧
      (∀ o, c.take.1 = .ok o → o = c.outcome) ∧
      ∀ m, c.pending.contains m = true → c.take = (.error (.replyTimeout c.pending.size), c) := by
  intro c counted
  have hcounted : deciding (new recipients).pending.contains reports = counted :=
    deciding_congr (contains_new recipients) reports
  have houtcome : c.outcome =
      { replies := counted.filterMap Heard.reply?
        departed := counted.filterMap Heard.left? } := by
    have h := outcome_hearAll reports (new recipients)
    rwa [hcounted] at h
  have hpending : ∀ m, c.pending.contains m = true ↔
      recipients.any (·.same m) = true ∧ ∀ r ∈ reports, r.member.same m = false := fun m => by
    rw [contains_hearAll, contains_new, Bool.and_eq_true, Bool.not_eq_true', List.any_eq_false]
    simp only [Bool.not_eq_true]
  have hwaits : ∀ m, c.pending.contains m = true →
      c.take = (.error (.replyTimeout c.pending.size), c) := fun m hm => take_waiting hm
  refine ⟨places_gathered recipients reports, by rw [houtcome], by rw [houtcome], hpending,
    fun r hr => hear_unwaited hr, ⟨?_, fun hall => ?_⟩, fun o ho => ?_, hwaits⟩
  · rintro ⟨o, ho⟩ p hp
    refine Classical.byContradiction fun hnone => ?_
    have hmissing : c.pending.contains p = true := by
      refine (hpending p).2 ⟨List.any_eq_true.2 ⟨p, hp, p.same_refl⟩, fun r hr => ?_⟩
      exact Bool.eq_false_iff.2 fun hsame => hnone ⟨r, hr, hsame⟩
    rw [hwaits p hmissing] at ho
    cases ho
  · have hnobody : ∀ m, c.pending.contains m = false := fun m => by
      rw [Bool.eq_false_iff]
      intro hm
      obtain ⟨hrecipient, hsilent⟩ := (hpending m).1 hm
      obtain ⟨p, hp, hpm⟩ := List.any_eq_true.1 hrecipient
      obtain ⟨r, hr, hrp⟩ := hall p hp
      have hheard := hsilent r hr
      rw [Member.same_trans hrp hpm] at hheard
      cases hheard
    exact ⟨c.outcome, by rw [take_complete hnobody]⟩
  · unfold take at ho
    split at ho <;> cases ho
    rfl

end Collector

namespace Coordinator

/-! ## Replies -/

/-- All buckets of replies without a failure. -/
theorem collectReplies_ok_iff (replies : List ClearReply) (ids : List Nat) :
    collectReplies replies = .ok ids ↔
      (∀ reply ∈ replies, reply.error = none) ∧ ids = replies.flatMap (·.cleared) := by
  induction replies generalizing ids with
  | nil => simp [collectReplies, eq_comm]
  | cons reply rest ih =>
    rw [collectReplies]
    cases herror : reply.error with
    | some reason => simp [herror]
    | none =>
      cases hrest : collectReplies rest with
      | error e =>
        simp only [hrest, reduceCtorEq, false_iff] at ih
        simp only [Except.map, reduceCtorEq, false_iff]
        exact fun h => ih _ ⟨fun r hr => h.1 r (List.mem_cons_of_mem _ hr), rfl⟩
      | ok ids' =>
        obtain ⟨hnone, rfl⟩ := (ih ids').1 hrest
        simp only [Except.map, Except.ok.injEq, List.forall_mem_cons, herror, true_and,
          List.flatMap_cons]
        exact ⟨fun h => ⟨hnone, h.symm⟩, fun h => h.2.symm⟩

/-- Of several failures the first is reported. -/
theorem collectReplies_failed {before after : List ClearReply} {reply : ClearReply}
    {reason : String} (hbefore : ∀ r ∈ before, r.error = none)
    (hreason : reply.error = some reason) :
    collectReplies (before ++ reply :: after) = .error (.remote reply.sender reason) := by
  induction before with
  | nil => rw [List.nil_append, collectReplies, hreason]
  | cons r before ih =>
    rw [List.forall_mem_cons] at hbefore
    rw [List.cons_append, collectReplies, hbefore.1, ih hbefore.2]
    rfl

theorem collectReplies_error {replies : List ClearReply} {e : ClearError}
    (h : collectReplies replies = .error e) : ∃ m reason, e = .remote m reason := by
  induction replies generalizing e with
  | nil => cases h
  | cons reply rest ih =>
    rw [collectReplies] at h
    split at h
    · cases h
      exact ⟨_, _, rfl⟩
    · cases hrest : collectReplies rest with
      | error e' =>
        rw [hrest] at h
        cases h
        exact ih hrest
      | ok ids =>
        rw [hrest] at h
        cases h

end Coordinator
end DataGrid
