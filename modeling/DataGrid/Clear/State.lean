import DataGrid.Member.Basic

/-
What a member knows of clears: the phase of the one that it runs, and for whom
it holds the lock that is taken while the region is cleared and has listeners
and clients told.
-/

namespace DataGrid

inductive ClearPhase
  | idle | lockAcquired | clearing | unlocked | done | partialFailure
deriving DecidableEq, Repr

namespace ClearPhase

def name : ClearPhase → String
  | .idle => "Idle"
  | .lockAcquired => "LockAcquired"
  | .clearing => "Clearing"
  | .unlocked => "Unlocked"
  | .done => "Done"
  | .partialFailure => "PartialFailure"

def text : ClearPhase → String
  | .idle => "idle"
  | .lockAcquired => "lock-acquired"
  | .clearing => "clearing"
  | .unlocked => "unlocked"
  | .done => "done"
  | .partialFailure => "partial-failure"

def byName : List (String × ClearPhase) :=
  [.idle, .lockAcquired, .clearing, .unlocked, .done, .partialFailure].map fun p => (p.name, p)

/-- The steps that a clear may take. -/
def canAdvanceTo : ClearPhase → ClearPhase → Bool
  | .idle, .lockAcquired => true
  | .lockAcquired, .clearing | .lockAcquired, .unlocked => true
  | .clearing, .unlocked | .clearing, .partialFailure => true
  | .unlocked, .done | .unlocked, .partialFailure => true
  | .done, .idle | .partialFailure, .idle => true
  | _, _ => false

def isFinished (p : ClearPhase) : Bool := p == .done || p == .partialFailure

end ClearPhase

structure ClearLock where
  requester : Option Member := none

namespace ClearLock

def isLocked (l : ClearLock) : Bool := l.requester.isSome

def isHeldBy (l : ClearLock) (m : Member) : Bool := Member.isNamed l.requester m

/-- Hold the lock for a member, whoever held it before. -/
def lockFor (_ : ClearLock) (m : Member) : ClearLock := ⟨some m⟩

/-- Give the lock up: who held it. -/
def unlock (l : ClearLock) : Option Member × ClearLock := (l.requester, {})

end ClearLock
end DataGrid
