import DataGrid.Clear.Rehearsal
import DataGrid.Cluster.Clear
import DataGrid.Proofs.Clear.Custody
import DataGrid.Proofs.Clear.Gathering
import DataGrid.Proofs.Clear.Kinds

/-
How a message is sent to the other members, whatever they and the channel do
meanwhile. It is sent in attempts, each to those that are there when it begins
(`Tried`). An attempt that hears of departures is followed by another as long
as one is left, and nothing is kept of it. The answer is that of the last
attempt alone (`Coordinator.send_answers`).

A channel may refuse a message with any failure, and gather replies with any
collector. What it takes for a reply or a departure to come from a recipient is
a condition of its own (`Surroundings.Gathers`), and only what needs it is said
under it.
-/

namespace DataGrid

open Coordinator

variable {σ β τ : Type}

/-! ## Channels that gather replies -/

/-- A channel that takes a message gathers replies from those that it was sent to; one that does not
take it has not lost a member. -/
structure Surroundings.Gathers (sur : Surroundings σ β) : Prop where
  collects : ∀ message members o c, (sur.send message members o).1 = .ok c →
    ∃ reports, c = (Collector.new members).hearAll reports
  refuses : ∀ message members o m operation,
    (sur.send message members o).1 ≠ .error (.memberDeparted m operation)

/-- So does one that gives the message to the recipients in turn, and may hear of members from
each. -/
theorem hears_foldl {give : Collector × τ → Member → Collector × τ}
    (h : ∀ acc m, ∃ reports, (give acc m).1 = acc.1.hearAll reports) (l : List Member)
    (acc : Collector × τ) : ∃ reports, (l.foldl give acc).1 = acc.1.hearAll reports := by
  induction l generalizing acc with
  | nil => exact ⟨[], rfl⟩
  | cons m l ih =>
    obtain ⟨first, hfirst⟩ := h acc m
    obtain ⟨rest, hrest⟩ := ih (give acc m)
    refine ⟨first ++ rest, ?_⟩
    rw [List.foldl_cons, hrest, hfirst, Collector.hearAll, Collector.hearAll, Collector.hearAll,
      List.foldl_append]

theorem Rehearsal.gathers (start : Rehearsal) : start.surroundings.Gathers where
  collects message members o c h := by
    have hdeliver : ∀ acc m, ∃ reports, (deliver message acc m).1 = acc.1.hearAll reports := by
      rintro ⟨c, r⟩ m
      simp only [deliver]
      split
      · exact ⟨[.replied _], rfl⟩
      · exact ⟨[.replied _], rfl⟩
      · exact ⟨[.replied _], rfl⟩
      · exact ⟨[], rfl⟩
      · exact ⟨[.left m], rfl⟩
      · exact ⟨[.left m], rfl⟩
      · exact ⟨[.left m], rfl⟩
    simp only [surroundings, send] at h
    split at h
    · cases h
    · cases h
      exact hears_foldl hdeliver members _
  refuses message members o m operation h := by
    simp only [surroundings, send] at h
    split at h <;> cases h

theorem Cluster.gathers (start : Cluster) (label : String) :
    (start.surroundings label).Gathers where
  collects message members o c h := by
    have hdeliver : ∀ acc m, ∃ reports, (deliver message acc m).1 = acc.1.hearAll reports := by
      rintro ⟨c, o⟩ m
      simp only [deliver]
      split
      · exact ⟨[.left m], rfl⟩
      · split
        · exact ⟨[.left m], rfl⟩
        · split
          · exact ⟨[.replied _], rfl⟩
          · exact ⟨[], rfl⟩
    cases h
    exact hears_foldl hdeliver members _
  refuses message members o m operation h := by cases h

namespace Coordinator

/-! ## One attempt -/

/-- How an attempt to send a message ended. -/
inductive Ended
  /-- the member was shutting down, and sent nothing -/
  | cancelled
  /-- there was nobody to send it to -/
  | unsent
  /-- the channel did not take it -/
  | refused (e : ClearError)
  /-- so many recipients had neither replied nor left when the time was over -/
  | late (pending : Nat)
  /-- of all recipients was heard, and of some that they left -/
  | lost (first : Member) (others : List Member)
  /-- all recipients replied -/
  | replied (replies : List ClearReply)

namespace Ended

/-- An attempt that came as far as the channel. -/
def ofChannel : Except ClearError Collector → Ended
  | .error e => .refused e
  | .ok c =>
    if c.pending.isEmpty then
      match c.outcome.departed with
      | [] => .replied c.outcome.replies
      | first :: others => .lost first others
    else .late c.pending.size

/-- What is answered if this was the last attempt. -/
def answer (operation : ClearOperation) : Ended → Except ClearError (List Nat)
  | .cancelled => .error .cancelled
  | .unsent => .ok []
  | .refused e => .error e
  | .late pending => .error (.replyTimeout pending)
  | .lost first _ => .error (.memberDeparted first operation)
  | .replied replies => collectReplies replies

/-- How the sending goes on: a broadcast that lost a recipient has not failed. -/
def reported (operation : ClearOperation) : Ended → Except ClearError Broadcast
  | .lost first _ => .ok (.departed first)
  | ended => (ended.answer operation).map .replied

/-- The message went to somebody. -/
def isSent : Ended → Bool
  | .cancelled | .unsent => false
  | _ => true

end Ended

/-- An attempt to send a message, which begins in a scene. -/
structure Try (σ : Type) where
  scene : Scene σ
  ended : Ended

/-- The call that sends a message to whoever is there. -/
def sendNow (sur : Surroundings σ β) (event : RegionEvent) (operation : ClearOperation)
    (s : Scene σ) : Attempt σ Collector :=
  let message := .about (sur.newId s.outside).1 s.coordinator.member operation event
  tryTo sur.toSite (.sent message (recipients sur s)) (sur.send message (recipients sur s))

/-- An attempt ends as its surroundings have it. -/
inductive Tried (sur : Surroundings σ β) (event : RegionEvent) (operation : ClearOperation)
    (s : Scene σ) : Ended → Scene σ → Prop
  | cancelled (h : sur.isCancelled s.outside = true) : Tried sur event operation s .cancelled s
  | unsent (hopen : sur.isCancelled s.outside = false) (hnobody : recipients sur s = []) :
      Tried sur event operation s .unsent s
  | sent {answer : Except ClearError Collector} {s' : Scene σ}
      (hopen : sur.isCancelled s.outside = false) (hsomebody : recipients sur s ≠ [])
      (hsend : (sendNow sur event operation s).run.run
        { s with outside := (sur.newId s.outside).2 } = some (answer, s')) :
      Tried sur event operation s (.ofChannel answer) s'

/-- Attempts one after the other. -/
inductive Tries (sur : Surroundings σ β) (event : RegionEvent) (operation : ClearOperation) :
    Scene σ → List (Try σ) → Scene σ → Prop
  | nil (s : Scene σ) : Tries sur event operation s [] s
  | cons {s s₁ s' : Scene σ} {ended : Ended} {rest : List (Try σ)}
      (h : Tried sur event operation s ended s₁) (further : Tries sur event operation s₁ rest s') :
      Tries sur event operation s (⟨s, ended⟩ :: rest) s'

variable {sur : Surroundings σ β} {event : RegionEvent} {operation : ClearOperation}
  {s s' : Scene σ} {ended : Ended}

/-- Every attempt ends. -/
theorem tried (sur : Surroundings σ β) (event : RegionEvent) (operation : ClearOperation)
    (s : Scene σ) : ∃ ended s', Tried sur event operation s ended s' := by
  cases hopen : sur.isCancelled s.outside with
  | true => exact ⟨_, s, .cancelled hopen⟩
  | false =>
    by_cases hnobody : recipients sur s = []
    · exact ⟨_, s, .unsent hopen hnobody⟩
    · have hsent : Comes (sendNow sur event operation s).run
          { s with outside := (sur.newId s.outside).2 } fun _ _ _ => True :=
        (comes_consult rfl).mono fun _ _ _ _ => trivial
      obtain ⟨answer, s', -, hrun, -⟩ := hsent
      exact ⟨_, s', .sent hopen hnobody hrun⟩

/-- An attempt that has ended so far, and the rest of a larger one. -/
theorem run_attempt_bind {α γ : Type} {work : Attempt σ α} {next : α → Attempt σ γ}
    {r : Except ClearError α} : work.run.run s = some (r, s') →
    (work >>= next).run.run s = (match r with
      | .ok a => (next a).run
      | .error e => pure (.error e) : Act σ (Except ClearError γ)).run s' := fun h => by
  rw [ExceptT.run_bind, StateT.run_bind, h]
  cases r <;> rfl

/-- What is made of the replies when the time is over. -/
def concluded (c : Collector) : Attempt σ Broadcast := do
  let outcome ← MonadExcept.ofExcept c.take.1
  match outcome.departed with
  | first :: _ => return .departed first
  | [] => return .replied (← MonadExcept.ofExcept (collectReplies outcome.replies))

theorem run_concluded (c : Collector) (operation : ClearOperation) (s : Scene σ) :
    (concluded c).run.run s = some ((Ended.ofChannel (.ok c)).reported operation, s) := by
  obtain ⟨pending, replies, departed⟩ := c
  unfold concluded Ended.ofChannel Collector.take
  cases hall : pending.isEmpty with
  | false => simp only [hall]; rfl
  | true =>
    simp only [hall, if_true]
    cases departed with
    | cons first others => rfl
    | nil =>
      show ((Broadcast.replied <$> MonadExcept.ofExcept (collectReplies replies) :
        Attempt σ Broadcast)).run.run s = some ((collectReplies replies).map .replied, s)
      cases collectReplies replies <;> rfl

/-- A broadcast that goes out comes to what the channel has made of it. -/
theorem run_broadcast (hsomebody : recipients sur s ≠ []) {answer : Except ClearError Collector}
    (hsend : (sendNow sur event operation s).run.run
      { s with outside := (sur.newId s.outside).2 } = some (answer, s')) :
    (broadcast sur event operation).run.run s =
      some ((Ended.ofChannel answer).reported operation, s') := by
  obtain ⟨m, members, hto⟩ := List.exists_cons_of_ne_nil hsomebody
  have hbroadcast : (broadcast sur event operation).run.run s =
      (sendNow sur event operation s >>= concluded).run.run
        { s with outside := (sur.newId s.outside).2 } := by
    rw [broadcast, Attempt.run_get_bind]
    simp only [hto, sendNow]
    rfl
  rw [hbroadcast, run_attempt_bind hsend]
  cases answer with
  | error e => rfl
  | ok c => exact run_concluded c operation s'

/-- What an attempt has come to is the answer, unless it lost a recipient. -/
theorem run_sendOnce (whenDeparted : Member → Attempt σ (List Nat)) :
    Tried sur event operation s ended s' →
    (sendOnce sur event operation whenDeparted).run.run s = (match ended with
      | .lost first _ => (whenDeparted first).run.run s'
      | ended => some (ended.answer operation, s')) := fun h => by
  cases h with
  | cancelled hcancelled =>
    rw [sendOnce, Attempt.run_get_bind]
    simp only [hcancelled]
    rfl
  | unsent hopen hnobody =>
    have hbroadcast : (broadcast sur event operation).run.run s = some (.ok (.replied []), s) := by
      rw [broadcast, Attempt.run_get_bind]
      simp only [hnobody]
      rfl
    rw [sendOnce, Attempt.run_get_bind]
    simp only [hopen]
    exact run_attempt_bind hbroadcast
  | @sent answer s' hopen hsomebody hsend =>
    have hbroadcast := run_broadcast hsomebody hsend
    rw [sendOnce, Attempt.run_get_bind]
    simp only [hopen]
    refine (run_attempt_bind hbroadcast).trans ?_
    cases hended : Ended.ofChannel answer with
    | lost first others => rfl
    | replied replies =>
      simp only [Ended.reported, Ended.answer]
      cases collectReplies replies <;> rfl
    | _ => rfl

/-! ## What one attempt does -/

/-- What an attempt sends, if it sends anything. -/
def Try.broadcast (sur : Surroundings σ β) (operation : ClearOperation) (t : Try σ) :
    Option (ClearOperation × List Member) :=
  if t.ended.isSent then some (operation, recipients sur t.scene) else none

/-- Of all that the attempt waited for it was heard, and of some that they left. -/
def Try.Departed (t : Try σ) : Prop := ∃ first others, t.ended = .lost first others

/-- An attempt lost one of those that the message was sent to. -/
def Try.Lost (sur : Surroundings σ β) (t : Try σ) : Prop :=
  ∃ first others, t.ended = .lost first others ∧ ∃ p ∈ recipients sur t.scene, p.same first = true

theorem isSent_ofChannel (answer : Except ClearError Collector) :
    (Ended.ofChannel answer).isSent = true := by
  cases answer with
  | error e => rfl
  | ok c =>
    simp only [Ended.ofChannel]
    split
    · split <;> rfl
    · rfl

/-- A call to the outside and what is done on hearing of departures, nothing but reactions. -/
theorem ensures_call_and_reactions {α : Type} (site : Site σ β) (e : Effect)
    (f : σ → Option (α × σ)) (s : Scene σ) :
    Ensures (consult site e f) s fun a es s' => (∃ o, f s.outside = some (a, o)) ∧
      ∃ es', es = e :: es' ∧ Within (·.isReaction = true) s es' s' := by
  refine .bind ((Ensures.call e f).mono ?_)
  rintro a _ s₁ ⟨rfl, hanswer, hsame⟩
  refine .bind ((Within.hearDepartures (fun _ h => h) s₁).mono fun _ es s₂ h => ?_)
  exact .pure a ⟨⟨_, hanswer⟩, es, by simp, ⟨h.only, hsame ▸ h.same⟩⟩

theorem sentTo_reactions {es : List Effect} (h : ∀ e ∈ es, e.isReaction = true) :
    es.filterMap Effect.sentTo = [] := by
  rw [List.filterMap_eq_nil_iff]
  intro e he
  have hreaction := h e he
  cases e <;> first | rfl | cases hreaction

/-- An attempt sends one message at most, to those that are there when it begins. -/
theorem Tried.sends (h : Tried sur event operation s ended s') :
    ∃ es, s'.effects = s.effects ++ es ∧
      es.filterMap Effect.sentTo = (Try.broadcast sur operation ⟨s, ended⟩).toList ∧
      s.coordinator.Alike s'.coordinator := by
  cases h with
  | cancelled => exact ⟨[], (List.append_nil _).symm, rfl, .refl _⟩
  | unsent => exact ⟨[], (List.append_nil _).symm, rfl, .refl _⟩
  | @sent answer s' _ _ hsend =>
    obtain ⟨_, heffects, -, es, rfl, hreactions⟩ := ensures_call_and_reactions _ _ _ _ _ _ hsend
    refine ⟨_, heffects, ?_, hreactions.same⟩
    rw [List.filterMap_cons, sentTo_reactions hreactions.only, Try.broadcast, isSent_ofChannel]
    rfl

/-- If the attempt came to an end with the recipients, it heard of each of them once, and of nobody
else. -/
def Ended.HeardOf (asked : List Member) : Ended → Prop
  | .lost first others => ∃ replies : List ClearReply, ∀ m,
      replies.countP (·.sender.same m) + (first :: others).countP (·.same m) =
        (asked.any (·.same m)).toNat
  | .replied replies => ∀ m, replies.countP (·.sender.same m) = (asked.any (·.same m)).toNat
  | _ => True

theorem Tried.heardOf (hchannel : sur.Gathers) (h : Tried sur event operation s ended s') :
    ended.HeardOf (recipients sur s) := by
  cases h with
  | cancelled | unsent => trivial
  | @sent answer _ _ _ hsend =>
    cases answer with
    | error e => trivial
    | ok c =>
      obtain ⟨_, -, ⟨_, hanswer⟩, -⟩ := ensures_call_and_reactions _ _ _ _ _ _ hsend
      obtain ⟨reports, rfl⟩ :=
        hchannel.collects _ _ _ c (congrArg Prod.fst (Option.some.inj hanswer))
      have hplaces := Collector.places_gathered (recipients sur s) reports
      generalize (Collector.new (recipients sur s)).hearAll reports = c at hplaces
      simp only [Ended.ofChannel]
      split
      next hempty =>
        -- nobody is in the first of the three places
        have hfound : ∀ m, c.outcome.replies.countP (·.sender.same m) +
            c.outcome.departed.countP (·.same m) = ((recipients sur s).any (·.same m)).toNat := by
          intro m
          have hm := hplaces m
          rwa [Collector.places, Collector.countP_toList, OrdSet.contains_of_isEmpty hempty,
            Bool.toNat_false, Nat.zero_add] at hm
        cases hdeparted : c.outcome.departed with
        | nil =>
          rw [hdeparted] at hfound
          exact hfound
        | cons first others =>
          rw [hdeparted] at hfound
          exact ⟨_, hfound⟩
      next => trivial

theorem Tried.lost_recipient (hchannel : sur.Gathers) {first : Member} {others : List Member}
    (h : Tried sur event operation s (.lost first others) s') :
    ∃ p ∈ recipients sur s, p.same first = true := by
  obtain ⟨replies, hfound⟩ := h.heardOf hchannel
  have hfirst := hfound first
  rw [List.countP_cons, if_pos first.same_refl] at hfirst
  cases hany : (recipients sur s).any (·.same first) with
  | true => exact List.any_eq_true.1 hany
  | false =>
    rw [hany, Bool.toNat_false] at hfirst
    omega

/-! ## All attempts -/

/-- Attempts are made until one of them loses nobody or was the last allowed. -/
theorem tries_sendRepeatedly (sur : Surroundings σ β) (event : RegionEvent)
    (operation : ClearOperation) (further : Nat) (s : Scene σ) : ∃ s' front last,
      (sendRepeatedly sur event operation further).run.run s =
        some (last.ended.answer operation, s') ∧
      Tries sur event operation s (front ++ [last]) s' ∧ front.length ≤ further ∧
      (∀ t ∈ front, t.Departed) ∧ (last.Departed → front.length = further) := by
  induction further generalizing s with
  | zero =>
    obtain ⟨ended, s', h⟩ := tried sur event operation s
    refine ⟨s', [], ⟨s, ended⟩, ?_, .cons h (.nil s'), Nat.le_refl 0, List.forall_mem_nil _,
      fun _ => rfl⟩
    rw [sendRepeatedly, run_sendOnce _ h]
    cases ended <;> rfl
  | succ further ih =>
    obtain ⟨ended, s₁, h⟩ := tried sur event operation s
    have hrun := run_sendOnce (fun _ => sendRepeatedly sur event operation further) h
    by_cases hlost : ∃ first others, ended = .lost first others
    · obtain ⟨first, others, rfl⟩ := hlost
      obtain ⟨s', front, last, hrest, htries, hlength, hfront, hlast⟩ := ih s₁
      refine ⟨s', ⟨s, .lost first others⟩ :: front, last, hrun.trans hrest, .cons h htries,
        Nat.succ_le_succ hlength, List.forall_mem_cons.2 ⟨⟨first, others, rfl⟩, hfront⟩,
        fun hdeparted => congrArg (· + 1) (hlast hdeparted)⟩
    · refine ⟨s₁, [], ⟨s, ended⟩, ?_, .cons h (.nil s₁), Nat.zero_le _, List.forall_mem_nil _,
        fun hdeparted => absurd hdeparted hlost⟩
      rw [sendRepeatedly, hrun]
      cases ended with
      | lost first others => exact absurd ⟨first, others, rfl⟩ hlost
      | _ => rfl

/-- The messages sent are those of the attempts, one after the other. -/
theorem Tries.sends {tries : List (Try σ)} (h : Tries sur event operation s tries s') :
    ∃ es, s'.effects = s.effects ++ es ∧
      es.filterMap Effect.sentTo = tries.filterMap (Try.broadcast sur operation) ∧
      ∀ t ∈ tries, s.coordinator.Alike t.scene.coordinator := by
  induction h with
  | nil s => exact ⟨[], (List.append_nil _).symm, rfl, List.forall_mem_nil _⟩
  | @cons s s₁ s' ended rest h _ ih =>
    obtain ⟨es, heffects, hsent, hsame⟩ := h.sends
    obtain ⟨es', heffects', hsent', hsame'⟩ := ih
    refine ⟨es ++ es', by rw [heffects', heffects, List.append_assoc], ?_,
      List.forall_mem_cons.2 ⟨.refl _, fun t ht => hsame.trans (hsame' t ht)⟩⟩
    rw [List.filterMap_append, hsent, hsent', List.filterMap_cons]
    cases Try.broadcast sur operation ⟨s, ended⟩ <;> rfl

theorem Tries.tried {tries : List (Try σ)} (h : Tries sur event operation s tries s') :
    ∀ t ∈ tries, ∃ s₁, Tried sur event operation t.scene t.ended s₁ := by
  induction h with
  | nil => exact List.forall_mem_nil _
  | @cons s s₁ s' ended rest h _ ih => exact List.forall_mem_cons.2 ⟨⟨s₁, h⟩, ih⟩

/-! ## The answer -/

theorem Tried.refused {e : ClearError} (h : Tried sur event operation s (.refused e) s') :
    ∃ message o, (sur.send message (recipients sur s) o).1 = .error e := by
  generalize hended : Ended.refused e = ended at h
  cases h with
  | cancelled | unsent => cases hended
  | @sent answer _ _ _ hsend =>
    obtain ⟨_, -, ⟨_, hanswer⟩, -⟩ := ensures_call_and_reactions _ _ _ _ _ _ hsend
    have hrefused : answer = .error e := by
      cases answer with
      | error e' =>
        cases hended
        rfl
      | ok c =>
        simp only [Ended.ofChannel] at hended
        split at hended
        · split at hended <;> cases hended
        · cases hended
    exact ⟨_, _, (congrArg Prod.fst (Option.some.inj hanswer)).trans hrefused⟩

/-- An attempt is answered with a departure if it heard of one, or if the channel said so when it
refused the message. -/
theorem Ended.answer_departed_iff (ended : Ended) (operation : ClearOperation) :
    (∃ m op, ended.answer operation = .error (.memberDeparted m op)) ↔
      (∃ first others, ended = .lost first others) ∨
        ∃ m op, ended = .refused (.memberDeparted m op) := by
  constructor
  · rintro ⟨m, op, hm⟩
    cases ended with
    | lost first others => exact .inl ⟨first, others, rfl⟩
    | refused e =>
      cases hm
      exact .inr ⟨m, op, rfl⟩
    | replied replies =>
      obtain ⟨_, _, hremote⟩ := collectReplies_error hm
      cases hremote
    | _ => cases hm
  · rintro (⟨first, others, rfl⟩ | ⟨m, op, rfl⟩)
    · exact ⟨first, operation, rfl⟩
    · exact ⟨m, op, rfl⟩

/-- One that gathers replies never does. -/
theorem Tried.not_refused_departed (hchannel : sur.Gathers) {m : Member} {op : ClearOperation} :
    ¬ Tried sur event operation s (.refused (.memberDeparted m op)) s' := by
  intro h
  obtain ⟨message, o, hrefused⟩ := h.refused
  exact hchannel.refuses _ _ _ _ _ hrefused

/-- Without a failure only an attempt ends that had nobody to ask, or that got no failure from any
of those it asked. -/
theorem Ended.answer_ok_iff (ended : Ended) (operation : ClearOperation) (ids : List Nat) :
    ended.answer operation = .ok ids ↔ ended = .unsent ∧ ids = [] ∨
      ∃ replies, ended = .replied replies ∧ (∀ reply ∈ replies, reply.error = none) ∧
        ids = replies.flatMap (·.cleared) := by
  cases ended with
  | unsent => simp [answer, eq_comm]
  | replied replies => simp [answer, collectReplies_ok_iff]
  | _ => simp [answer]

theorem mem_recipients {m : Member} : m ∈ recipients sur s ↔ m ∈ sur.nodes s.outside ∧
    sur.isCurrent s.outside m = true ∧ m.same s.coordinator.member = false := by
  simp only [recipients, List.mem_filter, Bool.and_eq_true, Bool.not_eq_true']
  exact and_congr_right fun _ => and_comm

/-- However members and the channel behave, the sending of a message ends. It takes no more attempts
than are allowed, and each sends the message once, or not at all: to those that are recorded as
hosting the region and are there when the attempt begins, the member itself left out. Each attempt
but the last ended with departures.

The answer is that of the last: the buckets of its replies, none a failure, or none where there was
no recipient. It is a departure just if all attempts were made and each ended with departures, or if
the channel refused the last message with one. And the first attempt that finds the member shutting
down when it begins, that is refused, that misses a reply when the time is over, departures or not,
or that gets a failure and hears of no departure, is the last and answers that.

If the channel gathers replies from those that it sent the message to, the replies of success are one
of each recipient, and the departures are those of recipients. -/
theorem send_answers (sur : Surroundings σ β) (event : RegionEvent) (operation : ClearOperation)
    (s : Scene σ) : ∃ r s' es front last,
      (send sur event operation).run.run s = some (r, s') ∧ s'.effects = s.effects ++ es ∧
      Tries sur event operation s (front ++ [last]) s' ∧
      -- to whom the message is sent, and how often
      (front ++ [last]).length ≤ max 1 s.coordinator.config.maxSendAttempts ∧
      es.filterMap Effect.sentTo = (front ++ [last]).filterMap (Try.broadcast sur operation) ∧
      (∀ t ∈ front ++ [last], ∀ m, m ∈ recipients sur t.scene ↔ m ∈ sur.nodes t.scene.outside ∧
        sur.isCurrent t.scene.outside m = true ∧ m.same s.coordinator.member = false) ∧
      -- success
      (∀ ids, r = .ok ids ↔ last.ended = .unsent ∧ ids = [] ∨
        ∃ replies, last.ended = .replied replies ∧ (∀ reply ∈ replies, reply.error = none) ∧
          ids = replies.flatMap (·.cleared)) ∧
      (last.ended = .unsent → recipients sur last.scene = []) ∧
      -- departures
      (∀ t ∈ front, t.Departed) ∧
      ((∃ m op, r = .error (.memberDeparted m op)) ↔
        ((front ++ [last]).length = max 1 s.coordinator.config.maxSendAttempts ∧
          ∀ t ∈ front ++ [last], t.Departed) ∨
        ∃ m op, last.ended = .refused (.memberDeparted m op)) ∧
      -- other ends
      (last.ended = .cancelled → r = .error .cancelled) ∧
      (∀ e, last.ended = .refused e → r = .error e) ∧
      (∀ pending, last.ended = .late pending → r = .error (.replyTimeout pending)) ∧
      (∀ before reply after reason, last.ended = .replied (before ++ reply :: after) →
        (∀ x ∈ before, x.error = none) → reply.error = some reason →
          r = .error (.remote reply.sender reason)) ∧
      -- from whom replies and departures are
      (sur.Gathers →
        (∀ replies, last.ended = .replied replies → ∀ m,
          replies.countP (·.sender.same m) = ((recipients sur last.scene).any (·.same m)).toNat) ∧
        (∀ t ∈ front, t.Lost sur) ∧
        ((∃ m op, r = .error (.memberDeparted m op)) ↔
          (front ++ [last]).length = max 1 s.coordinator.config.maxSendAttempts ∧
            ∀ t ∈ front ++ [last], t.Lost sur)) := by
  obtain ⟨s', front, last, hrun, htries, hlength, hfront, hlast⟩ :=
    tries_sendRepeatedly sur event operation (s.coordinator.config.sendAttempts - 1) s
  obtain ⟨es, heffects, hsent, hsame⟩ := htries.sends
  have htried := htries.tried
  obtain ⟨s₁, hended⟩ := htried last (by simp)
  have hattempts : s.coordinator.config.sendAttempts - 1 + 1 =
      max 1 s.coordinator.config.maxSendAttempts :=
    Nat.sub_add_cancel (Nat.le_max_left 1 _)
  have hall : last.Departed →
      (front ++ [last]).length = max 1 s.coordinator.config.maxSendAttempts ∧
        ∀ t ∈ front ++ [last], t.Departed := by
    refine fun hdeparted => ⟨?_, fun t ht => ?_⟩
    · rw [List.length_append, List.length_singleton, hlast hdeparted, hattempts]
    · rcases List.mem_append.1 ht with ht | ht
      · exact hfront t ht
      · exact List.mem_singleton.1 ht ▸ hdeparted
  have hdeparted_iff := last.ended.answer_departed_iff operation
  refine ⟨_, s', es, front, last, hrun, heffects, htries, ?_, hsent, fun t ht m => ?_,
    last.ended.answer_ok_iff operation, fun hunsent => ?_, hfront, hdeparted_iff.trans ?_,
    fun h => by rw [h]; rfl, fun e h => by rw [h]; rfl, fun pending h => by rw [h]; rfl,
    fun before reply after reason h hbefore hreason => ?_, fun hchannel => ?_⟩
  · rw [List.length_append, List.length_singleton]
    omega
  · rw [mem_recipients, (hsame t ht).member]
  · generalize last.ended = ended at hunsent hended
    cases hended with
    | unsent _ hnobody => exact hnobody
    | cancelled => cases hunsent
    | sent =>
      have hsentSo := isSent_ofChannel (by assumption)
      rw [hunsent] at hsentSo
      cases hsentSo
  · refine or_congr_left ⟨hall, fun hmade => hmade.2 last (by simp)⟩
  · rw [h]
    exact collectReplies_failed hbefore hreason
  · have hlosses : ∀ t ∈ front ++ [last], t.Departed → t.Lost sur := by
      rintro t ht ⟨first, others, hlost⟩
      obtain ⟨_, h⟩ := htried t ht
      rw [hlost] at h
      exact ⟨first, others, hlost, h.lost_recipient hchannel⟩
    refine ⟨fun replies hreplied => ?_, fun t ht =>
      hlosses t (List.mem_append_left _ ht) (hfront t ht), hdeparted_iff.trans ⟨?_, ?_⟩⟩
    · have hheard := hended.heardOf hchannel
      rw [hreplied] at hheard
      exact hheard
    · rintro (hdeparted | ⟨m, op, hrefused⟩)
      · obtain ⟨hmade, heach⟩ := hall hdeparted
        exact ⟨hmade, fun t ht => hlosses t ht (heach t ht)⟩
      · rw [hrefused] at hended
        exact absurd hended (Tried.not_refused_departed hchannel)
    · rintro ⟨-, heach⟩
      obtain ⟨first, others, hlost, -⟩ := heach last (by simp)
      exact .inl ⟨first, others, hlost⟩

/-- Of two members asked, the third leaves. -/
def thirdLeaves : Scene Rehearsal where
  coordinator := { member := nth 1, config := { maxSendAttempts := 2 } }
  outside :=
    { region := "pr"
      totalBuckets := 1
      current := .ofList [nth 1, nth 2, nth 3]
      buckets := none
      nodes := .ofList [nth 1, nth 2, nth 3]
      script := [((nth 2).text, [.cleared [7], .cleared [0]]), ((nth 3).text, [.departs])] }

/-- The answer is what the second member sends after the third left, and not what it sent before. -/
theorem send_answers_third_leaves :
    let sur := thirdLeaves.outside.surroundings
    let event : RegionEvent := .clear ⟨0⟩ "pr" (nth 1) none
    sur.Gathers ∧
      ((send sur event .clear).run.run thirdLeaves).map (fun p => p.2.effects.filterMap
        Effect.sentTo) = some [(.clear, [nth 2, nth 3]), (.clear, [nth 2])] ∧
      ∃ front last s', Tries sur event .clear thirdLeaves (front ++ [last]) s' ∧
        (front ++ [last]).length ≤ 2 ∧ (∀ t ∈ front, t.Lost sur) ∧
        ∃ replies, last.ended = .replied replies ∧ replies.flatMap (·.cleared) = [0] := by
  intro sur event
  have hanswer : ((send sur event .clear).run.run thirdLeaves).map (·.1.toOption) =
      some (some [0]) := by decide +kernel
  obtain ⟨r, s', es, front, last, hrun, -, htries, hlength, -, -, hok, -, -, -, -, -, -, -,
    hgathered⟩ := send_answers sur event .clear thirdLeaves
  obtain ⟨-, hlost, -⟩ := hgathered thirdLeaves.outside.gathers
  rw [hrun] at hanswer
  have hr : r = .ok [0] := by
    cases r with
    | error e => cases hanswer
    | ok ids => exact congrArg Except.ok (Option.some.inj (Option.some.inj hanswer))
  refine ⟨thirdLeaves.outside.gathers, by decide +kernel, front, last, s', htries, hlength, hlost,
    ?_⟩
  rcases (hok [0]).1 hr with ⟨-, hnone⟩ | ⟨replies, hreplied, -, hids⟩
  · cases hnone
  · exact ⟨replies, hreplied, hids.symm⟩

/-- One attempt is allowed. The second member leaves and the third says nothing. -/
def oneLeavesOneSilent : Scene Rehearsal where
  coordinator := { member := nth 1, config := { maxSendAttempts := 1 } }
  outside :=
    { region := "pr"
      totalBuckets := 1
      current := .ofList [nth 1, nth 2, nth 3]
      buckets := none
      nodes := .ofList [nth 1, nth 2, nth 3]
      script := [((nth 2).text, [.departs]), ((nth 3).text, [.silent])] }

/-- A channel that refuses every message, and says that a member left. -/
def refusing : Surroundings Rehearsal Nat :=
  { thirdLeaves.outside.surroundings with
    send := fun _ _ r => (.error (.memberDeparted (nth 2) .clear), r) }

/-- A channel that takes every message and waits for nobody's reply. -/
def waitingForNobody : Surroundings Rehearsal Nat :=
  { thirdLeaves.outside.surroundings with send := fun _ _ r => (.ok (.new []), r) }

/-- A departure goes unreported if another recipient is not heard of in time. One that the channel
gives as its reason to refuse a message is reported after the first of two attempts, though nobody
left; and where the channel waits for nobody the sending succeeds, though nobody replied. -/
theorem departure_misreported :
    let event : RegionEvent := .clear ⟨0⟩ "pr" (nth 1) none
    let sent (s : Scene Rehearsal) :=
      (s.effects.filterMap Effect.sentTo, s.outside.current.toList)
    (∃ s, (send oneLeavesOneSilent.outside.surroundings event .clear).run.run oneLeavesOneSilent =
        some (.error (.replyTimeout 1), s) ∧
          sent s = ([(.clear, [nth 2, nth 3])], [nth 1, nth 3])) ∧
    (∃ s, (send refusing event .clear).run.run thirdLeaves =
        some (.error (.memberDeparted (nth 2) .clear), s) ∧
          sent s = ([(.clear, [nth 2, nth 3])], [nth 1, nth 2, nth 3])) ∧
    ∃ s, (send waitingForNobody event .clear).run.run thirdLeaves = some (.ok [], s) ∧
      sent s = ([(.clear, [nth 2, nth 3])], [nth 1, nth 2, nth 3]) :=
  ⟨⟨_, rfl, rfl⟩, ⟨_, rfl, rfl⟩, _, rfl, rfl⟩

end Coordinator
end DataGrid
