import DataGrid.Clear.Rehearsal
import DataGrid.Proofs.Clear.Conduct
import Mathlib.Logic.Function.Iterate

/-
How a member waits until all local buckets have a primary, whatever the buckets
and the timer answer: in rounds, each of which asks the buckets listed at its
beginning one after the other, and stops at the first that has no primary. Then
the timer is asked, and if its time is not over yet it takes a pause
(`Coordinator.primaries_awaited`).

What was asked and answered is told step by step (`Watch`), so that each answer
is the one that the outside gave at that moment.
-/

namespace DataGrid

open Coordinator

variable {σ β τ : Type}

/-- The local buckets; a member that stores no data lists none. -/
def Site.listed (site : Site σ β) (o : σ) : List β := (site.buckets o).elim [] (·.all)

/-- One thing done while a member waits for primaries, with the answer. -/
inductive Look (β : Type)
  /-- a bucket was asked whether it has a primary -/
  | polled (b : β) (found : Bool)
  /-- the timer was asked whether its time is over -/
  | timed (isOver : Bool)
  | paused

/-- What was looked at, in order, on the way from one scene and one time to others. -/
inductive Watch (site : Site σ β) (timer : RetryTimer τ) :
    Scene σ → τ → List (Look β) → Scene σ → τ → Prop
  | nil (s : Scene σ) (t : τ) : Watch site timer s t [] s t
  | polled {s s₁ s' : Scene σ} {t t' : τ} {looks : List (Look β)} {b : β} {found : Bool}
      (asks : (consult site (.bucketPolled (site.bucketId b)) fun o =>
        some (site.hasPrimary b o)).run s = some (found, s₁))
      (rest : Watch site timer s₁ t looks s' t') :
      Watch site timer s t (.polled b found :: looks) s' t'
  | timed {s s' : Scene σ} {t t' : τ} {looks : List (Look β)}
      (rest : Watch site timer s t looks s' t') :
      Watch site timer s t (.timed (timer.isOver t) :: looks) s' t'
  | paused {s s' : Scene σ} {t t' : τ} {looks : List (Look β)}
      (rest : Watch site timer s (timer.pause t) looks s' t') :
      Watch site timer s t (.paused :: looks) s' t'

/-- One time through the local buckets, as they were listed when it began. -/
structure Round (β : Type) where
  listed : List β
  looks : List (Look β)

namespace Round

variable (round : Round β)

/-- All buckets have a primary. -/
def Complete : Prop := round.looks = round.listed.map (.polled · true)

/-- No bucket was asked after the first without a primary. There was time left, and a pause. -/
def Waits : Prop := ∃ front b back, round.listed = front ++ b :: back ∧
  round.looks = front.map (.polled · true) ++ [.polled b false, .timed false, .paused]

/-- No bucket was asked after the first without a primary. The time was over. -/
def GivesUp : Prop := ∃ front b back, round.listed = front ++ b :: back ∧
  round.looks = front.map (.polled · true) ++ [.polled b false, .timed true]

end Round

/-- Rounds one after the other. -/
inductive Rounds (site : Site σ β) (timer : RetryTimer τ) :
    Scene σ → τ → List (Round β) → Scene σ → τ → Prop
  | nil (s : Scene σ) (t : τ) : Rounds site timer s t [] s t
  | cons {s s₁ s' : Scene σ} {t t₁ t' : τ} {looks : List (Look β)} {rest : List (Round β)}
      (round : Watch site timer s t looks s₁ t₁) (further : Rounds site timer s₁ t₁ rest s' t') :
      Rounds site timer s t (⟨site.listed s.outside, looks⟩ :: rest) s' t'

variable {site : Site σ β} {timer : RetryTimer τ} {s s₁ s' : Scene σ} {t t₁ t' : τ}

theorem Watch.append {looks looks' : List (Look β)} (h : Watch site timer s t looks s₁ t₁)
    (h' : Watch site timer s₁ t₁ looks' s' t') : Watch site timer s t (looks ++ looks') s' t' := by
  induction h with
  | nil => exact h'
  | polled asks _ ih => exact .polled asks (ih h')
  | timed _ ih => exact .timed (ih h')
  | paused _ ih => exact .paused (ih h')

namespace Round

variable {round : Round β}

theorem Complete.in_time (h : round.Complete) : .timed true ∉ round.looks := by
  rw [h]
  simp

theorem Waits.in_time (h : round.Waits) : .timed true ∉ round.looks := by
  obtain ⟨front, b, back, -, hlooks⟩ := h
  rw [hlooks]
  simp

/-- The last look of a round that gives up is the first to find the time over. -/
theorem GivesUp.looks_eq (h : round.GivesUp) : ∃ before b,
    round.looks = before ++ [.polled b false, .timed true] ∧ .timed true ∉ before := by
  obtain ⟨front, b, back, -, hlooks⟩ := h
  exact ⟨front.map (.polled · true), b, hlooks, by simp⟩

end Round

/-- What stands only at the end of a list is followed by nothing. -/
theorem nothing_after_last {α : Type} {x : α} {l before after : List α} (h : x ∉ l)
    (he : l ++ [x] = before ++ x :: after) : after = [] := by
  rcases List.eq_nil_or_concat after with rfl | ⟨init, y, rfl⟩
  · rfl
  · have hsplit : l ++ [x] = (before ++ x :: init) ++ [y] := by simpa using he
    have hl : l = before ++ x :: init := (List.append_inj' hsplit rfl).1
    rw [hl] at h
    simp at h

namespace Coordinator

/-! ## One round -/

theorem comes_allHavePrimary (site : Site σ β) : ∀ (l : List β) (s : Scene σ),
    Comes (allHavePrimary site l) s fun _ _ _ => True
  | [], _ => .pure true trivial
  | b :: r, s => by
    have hasked : Comes (consult site (.bucketPolled (site.bucketId b)) fun o =>
        some (site.hasPrimary b o)) s fun _ _ _ => True :=
      (comes_consult rfl).mono fun _ _ _ _ => trivial
    refine .bind (hasked.mono fun found _ s₁ _ => ?_)
    cases found with
    | true => exact comes_allHavePrimary site r s₁
    | false => exact .pure false trivial

/-- Buckets are asked up to the first that has no primary. -/
theorem watch_allHavePrimary (timer : RetryTimer τ) (t : τ) {found : Bool} {l : List β}
    (h : (allHavePrimary site l).run s = some (found, s')) :
    (found = true ∧ Watch site timer s t (l.map (.polled · true)) s' t) ∨
      (found = false ∧ ∃ front b back, l = front ++ b :: back ∧
        Watch site timer s t (front.map (.polled · true) ++ [.polled b false]) s' t) := by
  induction l generalizing s with
  | nil =>
    cases h
    exact .inl ⟨rfl, .nil _ t⟩
  | cons b r ih =>
    obtain ⟨answer, s₁, hasked, hrest⟩ := Act.run_bind_eq h
    cases answer with
    | true =>
      rcases ih hrest with ⟨hfound, hwatch⟩ | ⟨hfound, front, b', back, rfl, hwatch⟩
      · exact .inl ⟨hfound, .polled hasked hwatch⟩
      · exact .inr ⟨hfound, b :: front, b', back, rfl, .polled hasked hwatch⟩
    | false =>
      cases hrest
      exact .inr ⟨rfl, [], b, r, rfl, .polled hasked (.nil s' t)⟩

/-- A round, and what follows on its answer. A member without data goes through no bucket. -/
theorem run_awaitPrimaries (site : Site σ β) (timer : RetryTimer τ) (rounds : Nat) (s : Scene σ)
    (t : τ) :
    (awaitPrimaries site timer (rounds + 1) t).run s =
      (((allHavePrimary site (site.listed s.outside)).run s).bind fun p =>
        if p.1 then some ((true, t), p.2)
        else if timer.isOver t then some ((false, t), p.2)
        else (awaitPrimaries site timer rounds (timer.pause t)).run p.2) := by
  simp only [awaitPrimaries, Site.listed, StateT.run_bind, StateT.run_get, Option.pure_def,
    Option.bind_eq_bind, Option.bind_some]
  cases site.buckets s.outside with
  | none => rfl
  | some buckets =>
    simp only [Option.elim_some, StateT.run_bind, Option.bind_eq_bind]
    congr 1
    funext p
    obtain ⟨found, s₁⟩ := p
    cases found with
    | true => rfl
    | false => cases timer.isOver t <;> rfl

/-! ## All rounds -/

/-- All rounds but the last wait. The last is complete, or finds the time to be over. -/
theorem rounds_awaitPrimaries {rounds : Nat} {found : Bool}
    (h : (awaitPrimaries site timer rounds t).run s = some ((found, t'), s')) :
    ∃ waited last, Rounds site timer s t (waited ++ [last]) s' t' ∧
      t' = timer.pause^[waited.length] t ∧ (∀ round ∈ waited, round.Waits) ∧
      (found = true ∧ last.Complete ∨ found = false ∧ last.GivesUp) := by
  induction rounds generalizing s t with
  | zero => cases h
  | succ rounds ih =>
    rw [run_awaitPrimaries] at h
    obtain ⟨⟨answer, s₁⟩, hround, h⟩ := Option.bind_eq_some_iff.1 h
    rcases watch_allHavePrimary timer t hround with
      ⟨rfl, hwatch⟩ | ⟨rfl, front, b, back, hl, hwatch⟩
    · cases h
      exact ⟨[], ⟨_, _⟩, .cons hwatch (.nil _ _), rfl, List.forall_mem_nil _, .inl ⟨rfl, rfl⟩⟩
    · simp only [Bool.false_eq_true, if_false] at h
      cases hover : timer.isOver t with
      | true =>
        simp only [hover, if_true] at h
        cases h
        have hasked := hwatch.append (.timed (.nil _ _))
        rw [hover, List.append_assoc] at hasked
        exact ⟨[], ⟨_, _⟩, .cons hasked (.nil _ _), rfl, List.forall_mem_nil _,
          .inr ⟨rfl, front, b, back, hl, rfl⟩⟩
      | false =>
        simp only [hover, Bool.false_eq_true, if_false] at h
        obtain ⟨waited, last, hrest, rfl, hwait, hlast⟩ := ih h
        have hasked := hwatch.append (.timed (.paused (.nil s₁ (timer.pause t))))
        rw [hover, List.append_assoc] at hasked
        refine ⟨⟨_, _⟩ :: waited, last, .cons hasked hrest, rfl, ?_, hlast⟩
        exact List.forall_mem_cons.2 ⟨⟨front, b, back, hl, rfl⟩, hwait⟩

/-- Once the timer will be over after some pauses there are no more rounds than that. -/
theorem ends_awaitPrimaries (site : Site σ β) (n : Nat)
    (h : timer.isOver (timer.pause^[n] t) = true) (s : Scene σ) : ∃ answer, ∀ rounds, n < rounds →
      (awaitPrimaries site timer rounds t).run s = some answer := by
  induction n generalizing s t with
  | zero =>
    obtain ⟨found, s₁, -, hround, -⟩ := comes_allHavePrimary site (site.listed s.outside) s
    have hover : timer.isOver t = true := h
    refine ⟨((found, t), s₁), fun rounds hr => ?_⟩
    obtain ⟨rounds, rfl⟩ : ∃ k, rounds = k + 1 := ⟨rounds - 1, by omega⟩
    rw [run_awaitPrimaries, hround]
    cases found <;> simp [hover]
  | succ n ih =>
    obtain ⟨found, s₁, -, hround, -⟩ := comes_allHavePrimary site (site.listed s.outside) s
    obtain ⟨answer, hrest⟩ := ih (t := timer.pause t) h s₁
    -- the answer of the first round that ends the loop, if this one does not
    refine ⟨if found then ((true, t), s₁) else if timer.isOver t then ((false, t), s₁) else answer,
      fun rounds hr => ?_⟩
    obtain ⟨rounds, rfl⟩ : ∃ k, rounds = k + 1 := ⟨rounds - 1, by omega⟩
    rw [run_awaitPrimaries, hround]
    simp only [Option.bind_some]
    cases found with
    | true => rfl
    | false =>
      cases timer.isOver t with
      | true => rfl
      | false => exact hrest rounds (by omega)

theorem run_waitForPrimaries (site : Site σ β) (timer : RetryTimer τ) (rounds : Nat) (s : Scene σ)
    (t : τ) :
    (waitForPrimaries site timer rounds t).run.run s =
      ((awaitPrimaries site timer rounds t).run s).map fun p =>
        (if p.1.1 then .ok p.1.2 else .error (.primaryNotFound site.region), p.2) := by
  have hrun : (waitForPrimaries site timer rounds t).run.run s =
      ((awaitPrimaries site timer rounds t).run s).bind fun p =>
        (if p.1.1 then pure p.1.2 else throw (.primaryNotFound site.region) :
          Attempt σ τ).run.run p.2 := by
    simp only [waitForPrimaries, sure, ExceptT.run_bind, ExceptT.run_lift, StateT.run_bind,
      StateT.run_map, Option.bind_eq_bind, Option.map_eq_map, Option.bind_map]
    rfl
  rw [hrun, Option.map_eq_bind]
  congr 1
  funext p
  obtain ⟨⟨found, t'⟩, s'⟩ := p
  cases found <;> rfl

/-- However the buckets and the timer answer, a member waits for primaries in rounds. It succeeds
after a round in which each of the buckets listed at its beginning had a primary. It fails, naming
the region, after one in which a bucket had none and the time was over, and this is so exactly if a
bucket was ever found without a primary with the time over. Each round before has stopped at its
first bucket without a primary, with one pause and time left. Once the time was found to be over
nothing follows, so there is no pause then. And if after some number of pauses the timer will be
over, the wait ends. -/
theorem primaries_awaited (site : Site σ β) (timer : RetryTimer τ) (s : Scene σ) (t : τ) :
    (∀ rounds r s', (waitForPrimaries site timer rounds t).run.run s = some (r, s') →
      ∃ waited last t', Rounds site timer s t (waited ++ [last]) s' t' ∧
        (∀ round ∈ waited, round.Waits) ∧ t' = timer.pause^[waited.length] t ∧
        (r = .ok t' ∧ last.Complete ∨
          r = .error (.primaryNotFound site.region) ∧ last.GivesUp) ∧
        (r = .error (.primaryNotFound site.region) ↔ ∃ before b after,
          (waited ++ [last]).flatMap Round.looks =
            before ++ .polled b false :: .timed true :: after) ∧
        ∀ before after, (waited ++ [last]).flatMap Round.looks = before ++ .timed true :: after →
          after = []) ∧
    ∀ n, timer.isOver (timer.pause^[n] t) = true → ∃ answer, ∀ rounds, n < rounds →
      (waitForPrimaries site timer rounds t).run.run s = some answer := by
  refine ⟨fun rounds r s' h => ?_, fun n hover => ?_⟩
  · rw [run_waitForPrimaries] at h
    obtain ⟨⟨⟨found, t'⟩, s''⟩, hrun, heq⟩ := Option.map_eq_some_iff.1 h
    cases heq
    obtain ⟨waited, last, hrounds, htime, hwait, hlast⟩ := rounds_awaitPrimaries hrun
    have hbefore : .timed true ∉ waited.flatMap Round.looks := by
      simp only [List.mem_flatMap, not_exists, not_and]
      exact fun round hround => (hwait round hround).in_time
    refine ⟨waited, last, t', hrounds, hwait, htime, ?_⟩
    rw [List.flatMap_append, List.flatMap_singleton]
    rcases hlast with ⟨rfl, hcomplete⟩ | ⟨rfl, hgivesUp⟩
    · -- the time was never found to be over
      have hin : .timed true ∉ waited.flatMap Round.looks ++ last.looks :=
        fun hm => (List.mem_append.1 hm).elim hbefore hcomplete.in_time
      refine ⟨.inl ⟨rfl, hcomplete⟩, iff_of_false nofun ?_, fun before after he => ?_⟩
      · rintro ⟨before, b, after, he⟩
        exact hin (by rw [he]; simp)
      · exact absurd (by rw [he]; simp) hin
    · obtain ⟨before, b, hlooks, hfirst⟩ := hgivesUp.looks_eq
      refine ⟨.inr ⟨rfl, hgivesUp⟩, iff_of_true rfl ⟨_, b, [], by rw [hlooks, List.append_assoc]⟩,
        fun before' after he => ?_⟩
      have hin : .timed true ∉ waited.flatMap Round.looks ++ (before ++ [.polled b false]) :=
        fun hm => (List.mem_append.1 hm).elim hbefore fun hm => by simp [hfirst] at hm
      have hwhole : waited.flatMap Round.looks ++ (before ++ [.polled b false]) ++ [.timed true] =
          before' ++ .timed true :: after := by
        rw [← he, hlooks]
        simp
      exact nothing_after_last hin hwhole
  · obtain ⟨answer, hends⟩ := ends_awaitPrimaries site n hover s
    exact ⟨_, fun rounds hr => by rw [run_waitForPrimaries, hends rounds hr]; rfl⟩

/-- A member with two buckets, of which the second finds a primary when it is asked again. -/
def recovering : Scene Rehearsal where
  coordinator := { member := { address := .localhost, port := 1 }, config := {} }
  outside :=
    { region := "pr"
      totalBuckets := 2
      current := .empty
      buckets := some [{ id := 0 }, { id := 1, answers := [false, true] }] }

def recoveringSite : Site Rehearsal Nat := recovering.outside.surroundings.toSite

/-- It does so after a pause, just before the time would be over. -/
theorem primaries_awaited_recovering :
    ∃ s' waited last,
      (waitForPrimaries recoveringSite .scripted 2 ([false, true], 0)).run.run recovering =
        some (.ok ([true], 1), s') ∧
      Rounds recoveringSite .scripted recovering ([false, true], 0) (waited ++ [last])
        s' ([true], 1) ∧
      (∀ round ∈ waited, round.Waits) ∧ last.Complete ∧
      ∃ answer, ∀ rounds, 1 < rounds →
        (waitForPrimaries recoveringSite .scripted rounds ([false, true], 0)).run.run recovering =
          some answer := by
  have hanswer : ((waitForPrimaries recoveringSite .scripted 2 ([false, true], 0)).run.run
      recovering).map (·.1.toOption) = some (some ([true], 1)) := by decide +kernel
  obtain ⟨⟨r, s'⟩, hrun, hr⟩ := Option.map_eq_some_iff.1 hanswer
  obtain rfl : r = .ok ([true], 1) := eq_ok_of_toOption hr
  obtain ⟨hall, hends⟩ := primaries_awaited recoveringSite .scripted recovering ([false, true], 0)
  obtain ⟨waited, last, t', hrounds, hwait, -, hlast, -⟩ := hall 2 _ s' hrun
  rcases hlast with ⟨ht, hcomplete⟩ | ⟨hfailed, -⟩
  · cases ht
    exact ⟨s', waited, last, hrun, hrounds, hwait, hcomplete, hends 1 rfl⟩
  · cases hfailed

end Coordinator
end DataGrid
