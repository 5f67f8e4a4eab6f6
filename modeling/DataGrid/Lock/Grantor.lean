import DataGrid.View.Basic
import DataGrid.Ordered.Map

/-
Named locks of the cluster. A lock is held by a member, is not reentrant, and
may have a lease after which anyone can take it over. Times are numbers on
the grantor's clock, given with each call.

A request that waits without a limit is queued and is granted as soon as its
lock is free; a request with a limit fails at once on a held lock here, since
the time until a release is not the grantor's to know.
-/

namespace DataGrid

inductive LockError
  | notHeld (name : String) (member : String)
  | timeout (name : String)
  | unknownMember (member : String)
deriving DecidableEq, Repr

def LockError.message : LockError → String
  | .notHeld name member => "Lock " ++ name ++ " is not held by " ++ member
  | .timeout name => "Timed out waiting for lock " ++ name
  | .unknownMember member => "Unknown member: " ++ member

structure Grant where
  holder : Member
  expiresAt : Option Nat

def Grant.isExpired (g : Grant) (now : Nat) : Bool :=
  match g.expiresAt with
  | some time => time ≤ now
  | none => false

structure LockRequest where
  member : Member
  name : String
  lease : Option Nat

structure LockGrantor where
  grants : OrdMap String Grant := .empty
  waiting : List LockRequest := []

/-- The answer to a request for a lock. -/
inductive LockAnswer
  | granted
  | refused (e : LockError)
  | queued

namespace LockGrantor

/-- The live holder of a lock. -/
def holder (g : LockGrantor) (now : Nat) (name : String) : Option Member :=
  match g.grants.find? name with
  | some grant => if grant.isExpired now then none else some grant.holder
  | none => none

/-- One attempt at a lock: none if someone holds it. -/
def attempt (g : LockGrantor) (now : Nat) (r : LockRequest) : Option LockGrantor :=
  match g.holder now r.name with
  | some _ => none
  | none =>
    let grant : Grant := ⟨r.member, r.lease.map (now + ·)⟩
    some { g with grants := g.grants.insert r.name grant }

/-- Ask for a lock; `limited` requests do not queue. -/
def lock (g : LockGrantor) (now : Nat) (r : LockRequest) (limited : Bool) :
    LockAnswer × LockGrantor :=
  match g.attempt now r with
  | some g' => (.granted, g')
  | none =>
    if limited then (.refused (.timeout r.name), g)
    else (.queued, { g with waiting := g.waiting ++ [r] })

/-- Grant the queued requests whose lock is free, first come first served: the requests granted. -/
def serve (now : Nat) (g : LockGrantor) : List LockRequest × LockGrantor :=
  let step (acc : List LockRequest × LockGrantor) (r : LockRequest) :=
    match acc.2.attempt now r with
    | some g' => (acc.1 ++ [r], g')
    | none => (acc.1, { acc.2 with waiting := acc.2.waiting ++ [r] })
  g.waiting.foldl step ([], { g with waiting := [] })

def unlock (g : LockGrantor) (m : Member) (name : String) : Except LockError LockGrantor :=
  match g.grants.find? name with
  | some grant =>
    if grant.holder.same m then .ok { g with grants := g.grants.erase name }
    else .error (.notHeld name m.text)
  | none => .error (.notHeld name m.text)

/-- Release all locks of a member: how many there were. -/
def releaseAll (g : LockGrantor) (m : Member) : Nat × LockGrantor :=
  let kept := g.grants.filter fun _ grant => !grant.holder.same m
  (g.grants.size - kept.size, { g with grants := kept })

end LockGrantor
end DataGrid
