import DataGrid.Proofs.Clear.Loops

/-
Whatever all parts of a coordinator's work keep, the work as a whole keeps: to
process a message (`Site.Serves`), and to clear the region from the lock to its
release, however that ends (`Surroundings.Permits`). The parts are those that
call the outside; what is only put together from them is not asked for.
-/

namespace DataGrid

open Coordinator

variable {σ β : Type} {R : Scene σ → List Effect → Scene σ → Prop}

/-- What a member does for others keeps the relation: to take and give up its clear lock, and to
clear its buckets. -/
structure Site.Serves (site : Site σ β) (R : Scene σ → List Effect → Scene σ → Prop) : Prop
    extends site.Allows R where
  obtains : ∀ m, Keeps R (obtainLocal site m)
  releases : Keeps R (releaseLocal site)
  locksCreation : Keeps R
    (consult site .creationLocked fun s => (site.lockCreation s).map ((), ·))
  unlocksCreation : Keeps R
    (consult site .creationUnlocked fun s => some ((), site.unlockCreation s))

/-- So does what it asks of others besides when it clears the region. -/
structure Surroundings.Grants (sur : Surroundings σ β)
    (R : Scene σ → List Effect → Scene σ → Prop) : Prop extends sur.toSite.Serves R where
  broadcasts : ∀ event operation, Keeps R (Coordinator.broadcast sur event operation).run
  asksLock : ∀ name wait lease, Keeps R
    (consult sur.toSite (.lockAsked name wait lease) (sur.lock name wait lease))
  unlocks : ∀ name, Keeps R (releaseLock sur name).run
  asksWriter : ∀ event, Keeps R (Coordinator.askWriter sur event).run
  assigns : Keeps R (Coordinator.assignPrimaries sur).run

/-- So does all that it does when it clears the region. -/
structure Surroundings.Permits (sur : Surroundings σ β)
    (R : Scene σ → List Effect → Scene σ → Prop) : Prop extends sur.Grants R where
  advances : ∀ next, Keeps R (advance next : Act σ Unit)

namespace Site.Serves

variable {site : Site σ β} (h : site.Serves R)

include h

theorem clearLocal (rounds : Nat) (event : RegionEvent) :
    Keeps R (clearLocal site rounds event).run :=
  (h.attains_clearLocal (lasting_const True) (h.clears.attains fun _ _ => trivial)
    (fun _ _ => trivial) h.locksCreation h.unlocksCreation rounds event).keeps

theorem process (rounds : Nat) (message : ClearMessage) :
    Keeps R (process site rounds message) := by
  refine .get_bind fun s => .ite (fun _ => .pure h.chained _) fun _ => ?_
  cases message.operation with
  | lock => exact .bind h.chained (h.obtains message.sender) fun _ => .pure h.chained _
  | unlock => exact .bind h.chained h.releases fun _ => .pure h.chained _
  | clear =>
    refine .bind h.chained (h.clearLocal rounds message.event) fun answer => ?_
    cases answer with
    | ok ids => exact .pure h.chained _
    | error e => exact .pure h.chained _

end Site.Serves

/-- What is left of a clear of the region once the clear under the lock has ended. -/
def Coordinator.endClear (sur : Surroundings σ β) (cleared : Except ClearError (List Nat)) :
    Attempt σ (List Nat) := do
  if !cleared.toBool && (← get).coordinator.phase == .clearing then sure (advance .partialFailure)
  let released ← (releaseLock sur (lockName sur.region)).outcome
  if (← get).coordinator.phase != .partialFailure then sure (advance .unlocked)
  match cleared, released with
  | .error e, _ | .ok _, .error e =>
    sure (advance .partialFailure)
    throw e
  | .ok ids, .ok _ =>
    if coversRegion sur ids then
      sure (advance .done)
      return ids
    else
      sure (advance .partialFailure)
      throw (.incomplete sur.region)

section

variable {sur : Surroundings σ β} {event : RegionEvent} (hR : Chained R)

include hR

theorem keeps_obtainAll (hobtains : ∀ m, Keeps R (obtainLocal sur.toSite m))
    (hsend : Keeps R (send sur event .lock).run) : Keeps R (obtainAll sur event).run :=
  .get_attempt fun _ => .attempt hR (.sure (hobtains _)) fun _ =>
    .attempt hR hsend fun _ => .done hR _

theorem keeps_releaseAll (hreleases : Keeps R (releaseLocal sur.toSite))
    (hsend : Keeps R (send sur event .unlock).run) : Keeps R (releaseAll sur event).run :=
  .attempt hR (.sure hreleases) fun _ => .attempt hR hsend fun _ => .done hR _

theorem keeps_acquireLock {name : String} (hasks : ∀ wait lease, Keeps R
    (consult sur.toSite (.lockAsked name wait lease) (sur.lock name wait lease))) :
    Keeps R (acquireLock sur name).run := by
  refine .get_attempt fun s => .attempt hR (.sure (hasks _ _)) fun answer => ?_
  split
  · exact .done hR _
  · exact .thrown hR _
  · exact .thrown hR _

section

variable (hadvances : ∀ next, Keeps R (advance next : Act σ Unit))

include hadvances

theorem keeps_advanceIf (b : Bool) (next : ClearPhase) :
    Keeps R (if b then sure (advance next) else pure () : Attempt σ Unit).run := by
  cases b with
  | true => exact .sure (hadvances next)
  | false => exact .done hR _

theorem keeps_endClear (hunlocks : Keeps R (releaseLock sur (lockName sur.region)).run)
    (cleared : Except ClearError (List Nat)) : Keeps R (endClear sur cleared).run := by
  have hadvance (next : ClearPhase) : Keeps R (sure (advance next) : Attempt σ Unit).run :=
    .sure (hadvances next)
  have hfailed (e : ClearError) : Keeps R
      (do sure (advance .partialFailure); throw e : Attempt σ (List Nat)).run :=
    .attempt hR (hadvance _) fun _ => .thrown hR e
  unfold endClear
  refine .get_attempt fun _ => .optional (.attempt hR (keeps_advanceIf hR hadvances _ _) fun _ =>
    .attempt hR (.outcome hunlocks) fun released => .get_attempt fun _ =>
      .optional (.attempt hR (keeps_advanceIf hR hadvances _ _) fun _ => ?_))
  -- what is reported depends on both answers, and on which buckets were cleared
  cases cleared with
  | error e => exact hfailed e
  | ok ids =>
    cases released with
    | error e => exact hfailed e
    | ok _ =>
      cases hcover : coversRegion sur ids with
      | true =>
        simp only [hcover, if_true]
        exact .attempt hR (hadvance _) fun _ => .done hR ids
      | false =>
        simp only [hcover, Bool.false_eq_true, if_false]
        exact hfailed _

end

end

namespace Surroundings.Grants

variable {sur : Surroundings σ β} (h : sur.Grants R)

include h

theorem send (event : RegionEvent) (operation : ClearOperation) :
    Keeps R (Coordinator.send sur event operation).run :=
  keeps_send h.chained (h.broadcasts event operation)

theorem acquireLock (name : String) : Keeps R (acquireLock sur name).run :=
  keeps_acquireLock h.chained (h.asksLock name)

theorem obtainAll (event : RegionEvent) : Keeps R (obtainAll sur event).run :=
  keeps_obtainAll h.chained h.obtains (h.send event .lock)

theorem releaseAll (event : RegionEvent) : Keeps R (releaseAll sur event).run :=
  keeps_releaseAll h.chained h.releases (h.send event .unlock)

/-- The cache writer is asked if it is to be. -/
theorem asksWriterIf (cacheWrite : Bool) (event : RegionEvent) :
    Keeps R (if cacheWrite then Coordinator.askWriter sur event else pure () : Attempt σ Unit).run := by
  cases cacheWrite with
  | true => exact h.asksWriter event
  | false => exact .done h.chained _

/-- Clear here, then on every other member. -/
theorem clearEverywhere (rounds : Nat) (event : RegionEvent) :
    Keeps R (clearEverywhere sur rounds event).run :=
  .attempt h.chained (h.clearLocal rounds event) fun _ =>
    .attempt h.chained (h.send event .clear) fun _ => .done h.chained _

end Surroundings.Grants

namespace Surroundings.Permits

variable {sur : Surroundings σ β} (h : sur.Permits R)

include h

theorem assignAndClear (rounds : Nat) (event : RegionEvent) :
    Keeps R (assignAndClear sur rounds event).run :=
  .attempt h.chained h.assigns fun _ => .attempt h.chained (.sure (h.advances _)) fun _ =>
    h.clearEverywhere rounds event

theorem clearWhileLocked (rounds : Nat) (event : RegionEvent) (cacheWrite : Bool) :
    Keeps R (clearWhileLocked sur rounds event cacheWrite).run := by
  unfold Coordinator.clearWhileLocked
  refine .optional (.attempt h.chained (h.asksWriterIf cacheWrite event) fun _ =>
    .get_attempt fun s => ?_)
  split
  next =>
    refine .attempt h.chained (.outcome (.attempt h.chained (h.obtainAll event) fun _ =>
      h.assignAndClear rounds event)) fun cleared => .attempt h.chained (.outcome
        (h.releaseAll event)) fun released => ?_
    exact .attempt h.chained (.ofExcept h.chained _) fun _ =>
      .attempt h.chained (.ofExcept h.chained _) fun _ => .done h.chained _
  next => exact h.assignAndClear rounds event

/-- A clear of the region, however it ends, keeps what its parts keep. -/
theorem doClear (rounds : Nat) (event : RegionEvent) (cacheWrite : Bool) :
    Keeps R (doClear sur rounds event cacheWrite).run := by
  unfold Coordinator.doClear
  exact .attempt h.chained (.sure (h.advances _)) fun _ => .attempt h.chained (h.acquireLock _) fun _ =>
    .attempt h.chained (.sure (h.advances _)) fun _ => .attempt h.chained
      (.outcome (h.clearWhileLocked rounds event cacheWrite)) fun cleared =>
        keeps_endClear h.chained h.advances (h.unlocks _) cleared

end Surroundings.Permits
end DataGrid
