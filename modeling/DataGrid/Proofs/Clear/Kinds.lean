import DataGrid.Proofs.Clear.Conduct
import DataGrid.Proofs.Clear.Whole

/-
What kinds of things a coordinator does in the parts of its work, whatever its
surroundings answer. None of the parts changes more of the coordinator than its
lock and whether it has heard of departures; the phase of the clear changes
between them (`Within`).
-/

namespace DataGrid

open Coordinator

variable {σ β α : Type}

namespace Effect

def isAdvance : Effect → Bool
  | .advanced .. => true
  | _ => false

/-- Listeners or clients are told of a clear. -/
def isTelling : Effect → Bool
  | .listenersTold _ | .clientsTold _ => true
  | _ => false

/-- It concerns nobody but the member itself and its buckets. -/
def isOwn : Effect → Bool
  | .creationLocked | .creationUnlocked | .bucketPolled _ | .bucketCleared _ | .bucketLocked ..
  | .bucketReleased _ | .memberLeft _ => true
  | _ => false

/-- It belongs to a pass over the local buckets, or to what the member does when others leave. -/
def isSweep : Effect → Bool
  | .bucketPolled _ | .bucketCleared _ | .bucketReleased _ | .memberLeft _ => true
  | _ => false

/-- What a message asks for, and whom it is sent to. -/
def sentTo : Effect → Option (ClearOperation × List Member)
  | .sent message members => some (message.operation, members)
  | _ => none

theorem isSweep_of_reaction {e : Effect} (h : e.isReaction = true) : e.isSweep = true := by
  cases e <;> first | rfl | cases h

theorem isOwn_of_sweep {e : Effect} (h : e.isSweep = true) : e.isOwn = true := by
  cases e <;> first | rfl | cases h

theorem isOwn_of_reaction {e : Effect} (h : e.isReaction = true) : e.isOwn = true :=
  isOwn_of_sweep (isSweep_of_reaction h)

end Effect

/-- The same coordinator, of which the lock may be another, and what it has heard of departures. -/
structure Coordinator.Alike (k k' : Coordinator) : Prop where
  member : k'.member = k.member
  config : k'.config = k.config
  phase : k'.phase = k.phase

namespace Coordinator.Alike

variable {k k' k'' : Coordinator}

theorem refl (k : Coordinator) : k.Alike k := ⟨rfl, rfl, rfl⟩

theorem trans (h : k.Alike k') (h' : k'.Alike k'') : k.Alike k'' :=
  ⟨h'.member.trans h.member, h'.config.trans h.config, h'.phase.trans h.phase⟩

end Coordinator.Alike

/-- All that was done is of the given kind, by a coordinator that is as it was. -/
structure Within (kind : Effect → Prop) (s : Scene σ) (es : List Effect) (s' : Scene σ) : Prop where
  only : ∀ e ∈ es, kind e
  same : s.coordinator.Alike s'.coordinator

namespace Within

variable {kind : Effect → Prop}

theorem phase {s s' : Scene σ} {es : List Effect} (h : Within kind s es s') :
    s'.coordinator.phase = s.coordinator.phase := h.same.phase

theorem nothing {s s' : Scene σ} (h : s.coordinator.Alike s'.coordinator) :
    Within kind s [] s' := ⟨List.forall_mem_nil _, h⟩

theorem chained : Chained (Within (σ := σ) kind) where
  refl s := nothing (.refl s.coordinator)
  trans h h' :=
    ⟨fun e he => (List.mem_append.1 he).elim (h.only e) (h'.only e), h.same.trans h'.same⟩

/-! ## Single steps -/

theorem note {e : Effect} (he : kind e) : Keeps (Within kind) (note e : Act σ Unit) := fun s => by
  refine (Ensures.note e).mono ?_
  rintro - _ _ ⟨rfl, rfl⟩
  exact ⟨by simpa using he, .refl s.coordinator⟩

theorem alter {f : Coordinator → Coordinator} (hf : ∀ k : Coordinator, k.Alike (f k)) :
    Keeps (Within kind) (alter f : Act σ Unit) := fun s => by
  refine (Ensures.alter f).mono ?_
  rintro - _ _ ⟨rfl, rfl⟩
  exact nothing (hf _)

theorem call {e : Effect} {f : σ → Option (α × σ)} (he : kind e) :
    Keeps (Within kind) (call e f) := fun s => by
  refine (Ensures.call e f).mono ?_
  rintro _ _ s' ⟨rfl, -, hc⟩
  exact ⟨by simpa using he, by rw [hc]; exact .refl _⟩

/-! ## Departures, and calls during which members may leave -/

section

variable {site : Site σ β} {e : Effect} (hreact : ∀ e : Effect, e.isReaction = true → kind e)

include hreact

theorem releaseLocal : Keeps (Within kind) (releaseLocal site) :=
  .releaseLocal chained (alter fun _ => ⟨rfl, rfl, rfl⟩) fun _ => call (hreact _ rfl)

theorem memberDeparted (m : Member) : Keeps (Within kind) (memberDeparted site m) :=
  .memberDeparted chained (note (hreact _ rfl)) (alter fun _ => ⟨rfl, rfl, rfl⟩)
    (releaseLocal hreact)

theorem hearDepartures : Keeps (Within kind) (hearDepartures site) := fun s => by
  refine .get_bind (.bind ((Ensures.outside _).mono ?_))
  rintro - _ _ ⟨rfl, rfl⟩
  have hall : Keeps (Within kind)
      ((site.departures s.outside).1.forM (Coordinator.memberDeparted site)) :=
    .forM chained _ fun m _ => memberDeparted hreact m
  exact (hall _).mono fun _ _ _ h => ⟨h.only, h.same⟩

theorem consult {f : σ → Option (α × σ)} (he : kind e) : Keeps (Within kind) (consult site e f) :=
  .bind chained (call he) fun _ => .bind chained (hearDepartures hreact) fun _ => .pure chained _

theorem tryTo {f : σ → Except ClearError α × σ} (he : kind e) :
    Keeps (Within kind) (tryTo site e f).run := consult hreact he

end

/-! ## The parts of the work -/

theorem sweeps {site : Site σ β} (hsweep : ∀ e : Effect, e.isSweep = true → kind e) :
    site.Sweeps (Within kind) := by
  have hreact : ∀ e : Effect, e.isReaction = true → kind e := fun e he =>
    hsweep e (Effect.isSweep_of_reaction he)
  refine ⟨chained, fun b => consult hreact (hsweep _ rfl), .get_attempt fun s => ?_,
    alter fun _ => ⟨rfl, rfl, rfl⟩⟩
  cases site.buckets s.outside with
  | none => exact .done chained _
  | some buckets =>
    exact .mapM chained _ fun b _ => .attempt chained (.sure (consult hreact (hsweep _ rfl)))
      fun _ => .done chained _

section

variable {site : Site σ β} (hown : ∀ e : Effect, e.isOwn = true → kind e)

include hown

theorem reaction (e : Effect) (h : e.isReaction = true) : kind e := hown e (Effect.isOwn_of_reaction h)

theorem obtainLocal (m : Member) : Keeps (Within kind) (obtainLocal site m) :=
  .obtainLocal chained (alter fun _ => ⟨rfl, rfl, rfl⟩) fun _ => call (hown _ rfl)

theorem serves (htell : ∀ e : Effect, e.isTelling = true → kind e) :
    site.Serves (Within kind) where
  toSweeps := sweeps fun e he => hown e (Effect.isOwn_of_sweep he)
  tellsClients _ := consult (reaction hown) (htell _ rfl)
  tellsListeners _ := consult (reaction hown) (htell _ rfl)
  obtains := obtainLocal hown
  releases := releaseLocal (reaction hown)
  locksCreation := consult (reaction hown) (hown _ rfl)
  unlocksCreation := consult (reaction hown) (hown _ rfl)

end

section

variable {sur : Surroundings σ β}

theorem broadcast (hreact : ∀ e : Effect, e.isReaction = true → kind e) (event : RegionEvent)
    {operation : ClearOperation}
    (hsent : ∀ message members, message.operation = operation → kind (.sent message members)) :
    Keeps (Within kind) (broadcast sur event operation).run :=
  keeps_broadcast chained fun _ message hop =>
    (tryTo hreact (hsent message _ hop) _).mono fun _ _ _ h => ⟨h.only, h.same⟩

/-- Whatever is done between the changes of the phase. -/
theorem grants (h : ∀ e : Effect, e.isAdvance = false → kind e) : sur.Grants (Within kind) := by
  have hown : ∀ e : Effect, e.isOwn = true → kind e := fun e he => h e (by
    cases e <;> first | rfl | cases he)
  have htell : ∀ e : Effect, e.isTelling = true → kind e := fun e he => h e (by
    cases e <;> first | rfl | cases he)
  exact {
    serves hown htell with
    broadcasts := fun event _ => broadcast (reaction hown) event fun _ _ _ => h _ rfl
    asksLock := fun _ _ _ => consult (reaction hown) (h _ rfl)
    unlocks := fun _ => tryTo (reaction hown) (h _ rfl)
    asksWriter := fun _ => tryTo (reaction hown) (h _ rfl)
    assigns := tryTo (reaction hown) (h _ rfl) }

end

end Within
end DataGrid
