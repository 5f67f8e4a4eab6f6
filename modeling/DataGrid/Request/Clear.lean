import DataGrid.Request.Bucket
import DataGrid.Clear.Rehearsal

/-
Requests about clears: settings, rehearsals and region events.
-/

namespace DataGrid

open Request

instance : Request ClearConfig where
  read j :=
    let c : ClearConfig := {}
    { lockWaitMs := arg j "lock_wait"
      lockLeaseMs := arg j "lock_lease"
      retryTimeoutMs := argOr c.retryTimeoutMs j "retry_timeout"
      retryIntervalMs := argOr c.retryIntervalMs j "retry_interval"
      ackTimeoutMs := argOr c.ackTimeoutMs j "ack_timeout"
      maxSendAttempts := max 1 (argOr c.maxSendAttempts j "max_send_attempts") }

instance : Request ClearOperation where
  read j := (ClearOperation.byName.lookup (read j)).getD .clear

instance : Request RehearsedBucket where
  read j := {
    id := arg j "id"
    isPrimary := argOr true j "primary"
    answers := argOr [true] j "answers"
    size := argOr 3 j "size"
    leavers := arg j "on_clear" }

instance : Request RehearsedReply where
  read
    | .text "silent" => .silent
    | .text "lost" => .lost
    | .text "depart" => .departs
    | .text "cancel" => .cancels
    | j =>
      match opt j "fail" with
      | some reason => .fails reason
      | none => .cleared (arg j "ok")

/-- How a lock service fails. -/
def LockError.requested (how name : String) : LockError :=
  match how with
  | "timeout" => .timeout ("inner " ++ name)
  | "not_held" => .notHeld name "someone"
  | text => .unknownMember text

namespace Rehearsal

/-- The answers of members, by their texts. -/
def scriptOf (l : List (Member × List RehearsedReply)) : List (String × List RehearsedReply) :=
  l.map fun p => (p.1.text, p.2)

/-- Give one of the collaborators a new answer. -/
def setUp (r : Rehearsal) (name : String) (j : Json) : Rehearsal :=
  match name with
  | "listener" => { r with hasListener := read j }
  | "clients" => { r with clients := OrdSet.empty.insertAll (read j) }
  | "nodes" => { r with nodes := .ofList (read j) }
  | "veto" => { r with veto := read j }
  | "assign_error" => { r with
      assignError := (read j : Option String).map fun
        | "closed" => .bucket (.closed 7)
        | _ => .primaryNotFound r.region }
  | "lock_error" => { r with lockError := (read j : Option String).map LockError.requested }
  | "unlock_error" => { r with unlockError := (read j : Option String).map LockError.requested }
  | "cancelled" => { r with cancelled := read j }
  | "refuse" => { r with refuses := read j }
  | "join" => { r with current := r.current.insert (read j) }
  | "script" => { r with script := scriptOf (read j) }
  | "primaries" =>
    let primaries : List (Nat × Bool) := read j
    { r with buckets := r.buckets.map fun l => l.map fun b =>
        { b with isPrimary := (primaries.lookup b.id).getD b.isPrimary } }
  | _ => r

/-- Set up all collaborators that are named. -/
def setUpAll (r : Rehearsal) : Json → Rehearsal
  | .object fields => fields.foldl (fun r f => r.setUp f.1 f.2) r
  | _ => r

/-- A rehearsal, with the coordinator's member. -/
def requested (j : Json) (self : Member) : Rehearsal :=
  let region := field j "region"
  let others := OrdSet.empty.insertAll (arg j "members")
  let start : Rehearsal := {
    region := arg region "name"
    totalBuckets := arg region "total"
    current := if flag j "outsider" then others else others.insert self
    buckets := arg region "buckets" }
  (start.setUpAll region).setUpAll j

end Rehearsal

end DataGrid
