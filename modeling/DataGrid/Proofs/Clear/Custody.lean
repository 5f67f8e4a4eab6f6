import DataGrid.Clear.Rehearsal
import DataGrid.Proofs.Clear.Conduct
import DataGrid.Proofs.Version.Vector

/-
Who holds the clear lock of a member, from one message to the next. A lock
message of a member that is still there makes its sender the holder, whoever
held the lock before. An unlock message frees the lock, whoever sent it. A
departure frees it only if the holder left (`Happens.requester`).

So a holder keeps the lock exactly as long as nobody sends an unlock message, no
other member that is still there sends a lock message, and it does not leave
(`Undisturbed`).
-/

namespace DataGrid.Coordinator

variable {σ β : Type} {site : Site σ β} {s s' : Scene σ} {a : Member}

/-- What a coordinator is told, or that something around it changed. -/
inductive Incident
  | message (m : ClearMessage)
  | departed (m : Member)
  | elsewhere

/-- A lock or unlock message is processed, a departure is heard of, or the outside changes in any
way. -/
inductive Happens (site : Site σ β) : Scene σ → Incident → Scene σ → Prop
  | message {s s' : Scene σ} {m : ClearMessage} {rounds : Nat} {reply : ClearReply} :
      m.operation ≠ .clear → (process site rounds m).run s = some (reply, s') →
        Happens site s (.message m) s'
  | departed {s s' : Scene σ} {m : Member} :
      (memberDeparted site m).run s = some ((), s') → Happens site s (.departed m) s'
  | elsewhere {s : Scene σ} (o : σ) : Happens site s .elsewhere { s with outside := o }

/-- Who holds the lock after an incident. -/
def holderAfter (site : Site σ β) (s : Scene σ) : Incident → Option Member
  | .message m =>
    if m.region ≠ site.region then s.coordinator.lock.requester
    else match m.operation with
      | .lock =>
        if site.isCurrent s.outside m.sender then some m.sender else s.coordinator.lock.requester
      | .unlock => none
      | .clear => s.coordinator.lock.requester
  | .departed m =>
    if s.coordinator.lock.isHeldBy m then none else s.coordinator.lock.requester
  | .elsewhere => s.coordinator.lock.requester

/-- The incident takes the lock from a member that holds it. -/
def Disturbs (site : Site σ β) (a : Member) (s : Scene σ) : Incident → Prop
  | .message m => m.region = site.region ∧ (m.operation = .unlock ∨
      m.operation = .lock ∧ site.isCurrent s.outside m.sender = true ∧ m.sender.same a = false)
  | .departed m => a.same m = true
  | .elsewhere => False

/-! ## One incident -/

theorem requester_obtainLocal (site : Site σ β) (s : Scene σ) (m : Member) :
    Ensures (obtainLocal site m) s fun _ _ s' => s'.coordinator.lock.requester =
      if site.isCurrent s.outside m then some m else s.coordinator.lock.requester := by
  refine .get_bind ?_
  by_cases hcurrent : site.isCurrent s.outside m = true
  · simp only [hcurrent, if_true]
    refine .bind ((Ensures.alter _).mono fun _ _ s₁ h => ?_)
    obtain ⟨-, rfl⟩ := h
    cases site.buckets s.outside with
    | none => exact .pure _ rfl
    | some buckets =>
      refine (ensures_each _ _ buckets.primaries _).mono fun _ _ s₂ h => ?_
      obtain ⟨-, hcoordinator, -⟩ := h
      rw [hcoordinator]
      rfl
  · simp only [hcurrent]
    exact .pure _ rfl

theorem requester_releaseLocal (site : Site σ β) (s : Scene σ) :
    Ensures (releaseLocal site) s fun _ _ s' => s'.coordinator.lock.requester = none := by
  refine .get_bind ?_
  cases hlocked : s.coordinator.lock.isLocked with
  | false => exact .pure _ (Option.isNone_iff_eq_none.1 (by simpa [ClearLock.isLocked] using hlocked))
  | true =>
    have hunlock (s₁ : Scene σ) : Ensures (alter fun c => { c with lock := c.lock.unlock.2 }) s₁
        fun _ _ s' => s'.coordinator.lock.requester = none :=
      (Ensures.alter _).mono fun _ _ s' h => by rw [h.2]; rfl
    simp only [if_true]
    cases site.buckets s.outside with
    | none => exact hunlock s
    | some buckets =>
      exact .bind ((ensures_each _ _ buckets.all s).mono fun _ _ s₁ _ => hunlock s₁)

theorem requester_memberDeparted (site : Site σ β) (s : Scene σ) (m : Member) :
    Ensures (memberDeparted site m) s fun _ _ s' =>
      s'.coordinator.lock.requester = holderAfter site s (.departed m) := by
  refine .bind ((Ensures.note _).mono fun _ _ s₁ h => ?_)
  obtain ⟨-, rfl⟩ := h
  refine .bind ((Ensures.alter _).mono fun _ _ s₂ h => ?_)
  obtain ⟨-, rfl⟩ := h
  refine .get_bind ?_
  simp only [holderAfter]
  cases s.coordinator.lock.isHeldBy m with
  | false => exact .pure _ rfl
  | true => exact requester_releaseLocal site _

theorem requester_process (site : Site σ β) (rounds : Nat) (s : Scene σ) {m : ClearMessage}
    (hm : m.operation ≠ .clear) :
    Ensures (process site rounds m) s fun _ _ s' =>
      s'.coordinator.lock.requester = holderAfter site s (.message m) := by
  refine .get_bind ?_
  simp only [holderAfter]
  split
  · exact .pure _ rfl
  · cases hop : m.operation with
    | lock => exact .bind ((requester_obtainLocal site s m.sender).mono fun _ _ _ h => .pure _ h)
    | unlock => exact .bind ((requester_releaseLocal site s).mono fun _ _ _ h => .pure _ h)
    | clear => exact absurd hop hm

theorem Happens.requester {i : Incident} (h : Happens site s i s') :
    s'.coordinator.lock.requester = holderAfter site s i := by
  cases h with
  | message hm hrun =>
    obtain ⟨-, -, hlock⟩ := requester_process site _ s hm _ _ hrun
    exact hlock
  | departed hrun =>
    obtain ⟨-, -, hlock⟩ := requester_memberDeparted site s _ _ _ hrun
    exact hlock
  | elsewhere => rfl

/-- While one member holds the lock, those that hold it are those that are the same. -/
theorem isHeldBy_iff (hheld : s.coordinator.lock.isHeldBy a = true) (m : Member) :
    s.coordinator.lock.isHeldBy m = a.same m := by
  simp only [ClearLock.isHeldBy, Member.isNamed] at hheld ⊢
  cases hholder : s.coordinator.lock.requester with
  | none =>
    rw [hholder] at hheld
    cases hheld
  | some holder =>
    rw [hholder] at hheld
    refine Bool.eq_iff_iff.2 ⟨fun hm => ?_, fun hm => Member.same_trans hheld hm⟩
    exact Member.same_trans (Member.same_symm hheld) hm

/-- A holder keeps the lock unless the incident is one that takes it away. -/
theorem Happens.held_iff {i : Incident} (h : Happens site s i s')
    (hheld : s.coordinator.lock.isHeldBy a = true) :
    s'.coordinator.lock.isHeldBy a = true ↔ ¬ Disturbs site a s i := by
  have hafter : s'.coordinator.lock.isHeldBy a = Member.isNamed (holderAfter site s i) a := by
    rw [ClearLock.isHeldBy, h.requester]
  have hnamed : Member.isNamed s.coordinator.lock.requester a = true := hheld
  rw [hafter]
  cases i with
  | elsewhere => exact iff_of_true hnamed id
  | departed m =>
    simp only [holderAfter, Disturbs, isHeldBy_iff hheld m]
    cases a.same m with
    | false => exact iff_of_true hnamed nofun
    | true => exact iff_of_false nofun fun hnot => hnot rfl
  | message m =>
    simp only [holderAfter, Disturbs]
    by_cases hregion : m.region = site.region
    · simp only [hregion, ne_eq, not_true, if_false, true_and]
      cases hop : m.operation with
      | clear => exact iff_of_true hnamed (by simp)
      | unlock => exact iff_of_false nofun (by simp)
      | lock =>
        cases hcurrent : site.isCurrent s.outside m.sender with
        | false => exact iff_of_true hnamed (by simp)
        | true =>
          simp only [if_true, Member.isNamed]
          cases m.sender.same a with
          | false => exact iff_of_false nofun (by simp)
          | true => exact iff_of_true rfl (by simp)
    · simp only [hregion, ne_eq, not_false_eq_true, if_true, false_and]
      exact iff_of_true hnamed trivial

/-! ## Incidents one after another -/

/-- Incidents in their order, each with the scene that it leaves. -/
def Course (site : Site σ β) : Scene σ → List (Incident × Scene σ) → Prop
  | _, [] => True
  | s, (i, s') :: rest => Happens site s i s' ∧ Course site s' rest

/-- None of the incidents takes the lock from a member. -/
def Undisturbed (site : Site σ β) (a : Member) : Scene σ → List (Incident × Scene σ) → Prop
  | _, [] => True
  | s, (i, s') :: rest => ¬ Disturbs site a s i ∧ Undisturbed site a s' rest

/--
Once a member holds the lock it holds it at every later moment, if no unlock message is
processed, whoever sent it, no lock message of another member that is still there, and the
member does not leave. With the first of these the lock is no longer its own.
-/
theorem held_iff_undisturbed {steps : List (Incident × Scene σ)}
    (hheld : s.coordinator.lock.isHeldBy a = true) (hcourse : Course site s steps) :
    (∀ step, step ∈ steps → step.2.coordinator.lock.isHeldBy a = true) ↔
      Undisturbed site a s steps := by
  induction steps generalizing s with
  | nil => exact iff_of_true (List.forall_mem_nil _) trivial
  | cons step rest ih =>
    obtain ⟨i, s'⟩ := step
    obtain ⟨hhappens, hrest⟩ := hcourse
    have hstep := hhappens.held_iff hheld
    rw [List.forall_mem_cons]
    constructor
    · intro h
      exact ⟨hstep.1 h.1, (ih h.1 hrest).1 h.2⟩
    · intro h
      have hheld' := hstep.2 h.1
      exact ⟨hheld', (ih hheld' hrest).2 h.2⟩

/-! ## Three members -/

def nth (port : UInt16) : Member := { address := .localhost, port := port }

/-- A member of three, with one bucket. -/
def oneOfThree : Scene Rehearsal where
  coordinator := { member := nth 1, config := {} }
  outside :=
    { region := "pr"
      totalBuckets := 1
      current := .ofList [nth 1, nth 2, nth 3]
      buckets := some [{ id := 0 }] }

def heldBySecond : Scene Rehearsal :=
  { oneOfThree with coordinator := { oneOfThree.coordinator with lock := ⟨some (nth 2)⟩ } }

def message (operation : ClearOperation) (sender : Member) : ClearMessage :=
  .about ⟨0⟩ sender operation (.clear ⟨0⟩ "pr" sender none)

def told (operation : ClearOperation) (sender : Member) : Act Rehearsal ClearReply :=
  process oneOfThree.outside.surroundings.toSite 1 (message operation sender)

/-- The second member holds the lock. An unlock message of the third takes it away, and a lock
message of the third takes it over. -/
theorem lock_lost_to_other :
    ((told .lock (nth 2)).run oneOfThree).map (·.2.coordinator.lock.requester) =
        some (some (nth 2)) ∧
      ((told .lock (nth 2) *> told .unlock (nth 3)).run oneOfThree).map
        (·.2.coordinator.lock.requester) = some none ∧
      ((told .lock (nth 2) *> told .lock (nth 3)).run oneOfThree).map
        (·.2.coordinator.lock.requester) = some (some (nth 3)) := by decide +kernel

/-- While the second member holds the lock it asks again, and the third leaves. -/
theorem held_iff_undisturbed_asked_again :
    ∃ s₁ s₂ : Scene Rehearsal, s₁.coordinator.lock.isHeldBy (nth 2) = true ∧
      s₂.coordinator.lock.isHeldBy (nth 2) = true ∧
      Course oneOfThree.outside.surroundings.toSite heldBySecond
        [(.message (message .lock (nth 2)), s₁), (.departed (nth 3), s₂)] := by
  have hsome : ((told .lock (nth 2)).run heldBySecond).isSome = true := by decide +kernel
  obtain ⟨⟨reply, s₁⟩, hprocess⟩ := Option.isSome_iff_exists.1 hsome
  obtain ⟨_, s₂, _, hdepart, -⟩ :=
    comes_memberDeparted oneOfThree.outside.surroundings.toSite (nth 3) s₁
  have hcourse : Course oneOfThree.outside.surroundings.toSite heldBySecond
      [(.message (message .lock (nth 2)), s₁), (.departed (nth 3), s₂)] :=
    ⟨.message nofun hprocess, .departed hdepart, trivial⟩
  have hmessage : ¬ Disturbs oneOfThree.outside.surroundings.toSite (nth 2) heldBySecond
      (.message (message .lock (nth 2))) := fun h => by
    rcases h.2 with hunlock | ⟨-, -, hother⟩
    · cases hunlock
    · rw [show (message .lock (nth 2)).sender = nth 2 from rfl, Member.same_refl] at hother
      cases hother
  have hdeparture : (nth 2).same (nth 3) ≠ true := by decide
  have hheld := (held_iff_undisturbed (a := nth 2) (by decide) hcourse).2
    ⟨hmessage, hdeparture, trivial⟩
  exact ⟨s₁, s₂, hheld _ (.head _), hheld _ (.tail _ (.head _)), hcourse⟩

end DataGrid.Coordinator
