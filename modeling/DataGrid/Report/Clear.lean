import DataGrid.Report.Bucket
import DataGrid.Report.Membership
import DataGrid.Clear.Rehearsal

/-
Reports of clears: events, replies, failures, and what a coordinator did.
-/

namespace DataGrid

open Report

instance : Report ClearOperation := ⟨fun o => .text o.name⟩
instance : Report ClearPhase := ⟨fun p => .text p.text⟩
instance : Report Ulid := ⟨fun u => .text u.text⟩

/-- The times among the settings, in milliseconds. -/
def ClearConfig.durations (c : ClearConfig) : List (String × Json) := [
  part "lock_wait_ms" c.lockWaitMs, part "lock_lease_ms" c.lockLeaseMs,
  part "retry_timeout_ms" c.retryTimeoutMs, part "retry_interval_ms" c.retryIntervalMs,
  part "ack_timeout_ms" c.ackTimeoutMs]

def RegionEvent.details (e : RegionEvent) : Json := .object [
  part "id" e.id, part "region" e.region, part "origin" e.origin, part "operation" e.operation,
  part "remote" e.originRemote, part "arg" e.argument, part "clients" e.clients]

/-- A message, what its sender would reply to it, and the message sent on. -/
def ClearMessage.details (m : ClearMessage) : Json :=
  let again := ClearMessage.about m.id m.sender m.operation m.event
  let failed := ClearReply.failed m m.sender (ClearError.incomplete m.region).message
  .object [
    part "id" m.id, part "region" m.region, part "sender" m.sender, part "operation" m.operation,
    ("event", m.event.details), part "encoded" m.toJson.render,
    part "ok" (ClearReply.ok m m.sender [2, 1, 2]).toJson.render,
    part "failed" failed.toJson.render, part "resent" (again.region, again.event.details)]

def ClearError.kind : ClearError → String
  | .primaryNotFound _ | .incomplete _ => "PartialClear"
  | .lockTimeout _ => "LockTimeout"
  | .memberDeparted _ _ => "MemberDeparted"
  | .replyTimeout _ => "ReplyTimeout"
  | .remote _ _ => "Remote"
  | .cancelled => "Cancelled"
  | .cacheWriter _ => "CacheWriter"
  | .membership e => "Membership/" ++ e.kind
  | .bucket e => "Bucket/" ++ e.kind

instance : Report ClearError := ⟨fun e => failure e.kind e.message⟩

instance : Report ClearReply where
  report r := .array [report r.sender, report r.cleared, report r.error]

def ClearReply.details (r : ClearReply) : Json := .object [
  part "id" r.messageId, part "reply" r, part "encoded" r.toJson.render]

instance : Report Outcome where
  report o := .object [
    part "replies" o.replies, part "departed" o.departed, part "complete" o.isComplete]

/-- What is told to others, under a name. -/
def RegionEvent.told (name : String) (e : RegionEvent) : Json := .array [
  report name, report e.region, report e.origin, report e.originRemote, report e.argument,
  report e.clients]

/-- The calls to services, to listeners and clients, and to other members. What is done to single
buckets is left out. -/
def Effect.shown? : Effect → Option Json
  | .lockAsked name wait lease =>
    some (.array [report "lock", report name, report wait, report lease])
  | .unlocked name => some (report ["unlock", name])
  | .writerAsked e => some (e.told "writer")
  | .primariesAssigned => some (report ["assign"])
  | .creationLocked => some (report ["creation_lock"])
  | .creationUnlocked => some (report ["creation_unlock"])
  | .listenersTold e => some (e.told "listener")
  | .clientsTold e => some (e.told "clients")
  | .sent m recipients => some (.array [
      report "send", report m.operation, report m.region, report m.sender,
      report m.event.originRemote, report recipients])
  | _ => none

instance : Report RehearsedBucket where
  report b := .array [
    report b.size, report [b.polls, b.clears, b.locks, b.releases], report b.lockedBy]

def Coordinator.parts (c : Coordinator) : List (String × Json) := [
  part "phase" c.phase, part "change" c.membershipChanged, part "locked" c.lock.isLocked,
  part "requester" c.lock.requester]

/-- The state of a rehearsal and what was done since its effects were last taken. -/
def Rehearsal.parts (s : Scene Rehearsal) : List (String × Json) :=
  part "calls" (s.effects.filterMap Effect.shown?) :: s.coordinator.parts ++ [
    ("buckets", .object (s.outside.bucketList.map fun b => (toString b.id, report b)))]

end DataGrid
