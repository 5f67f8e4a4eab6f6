import DataGrid.Json.Record
import DataGrid.Json.Printer

/-
Times and numbers of attempts of a clear. In JSON every setting has a default.
-/

namespace DataGrid

open Json

structure ClearConfig where
  /-- how long to wait for the lock of the region; for ever if not given -/
  lockWaitMs : Option Nat := none
  /-- how long the lock may be held; for ever if not given -/
  lockLeaseMs : Option Nat := none
  /-- how long to wait for every local bucket to have a primary -/
  retryTimeoutMs : Nat := 120000
  /-- the pause between two looks for primaries -/
  retryIntervalMs : Nat := 100
  /-- how long to wait for the replies to one message -/
  ackTimeoutMs : Nat := 30000
  /-- how often a message is sent before a departed recipient fails the clear -/
  maxSendAttempts : Nat := 10
deriving DecidableEq, Repr

namespace ClearConfig

/-- A message is sent once at least. -/
def sendAttempts (c : ClearConfig) : Nat := max 1 c.maxSendAttempts

def fieldNames : List String :=
  ["lock_wait_ms", "lock_lease_ms", "retry_timeout_ms", "retry_interval_ms", "ack_timeout_ms",
    "max_send_attempts"]

def toJson (c : ClearConfig) : Json := .object [
  ("lock_wait_ms", .option .nat c.lockWaitMs),
  ("lock_lease_ms", .option .nat c.lockLeaseMs),
  ("retry_timeout_ms", .nat c.retryTimeoutMs),
  ("retry_interval_ms", .nat c.retryIntervalMs),
  ("ack_timeout_ms", .nat c.ackTimeoutMs),
  ("max_send_attempts", .nat c.maxSendAttempts)]

def ofJson? : Read ClearConfig := fun j => do
  match ← fieldsNamed fieldNames j with
  | [wait, lease, timeout, interval, ack, attempts] =>
    return {
      lockWaitMs := ← wait.withDefault none (asOption (asNat 64))
      lockLeaseMs := ← lease.withDefault none (asOption (asNat 64))
      retryTimeoutMs := ← timeout.withDefault 120000 (asNat 64)
      retryIntervalMs := ← interval.withDefault 100 (asNat 64)
      ackTimeoutMs := ← ack.withDefault 30000 (asNat 64)
      maxSendAttempts := ← attempts.withDefault 10 (asNat 32) }
  | _ => none

def parse (s : String) : Option ClearConfig := (Json.parse s).bind ofJson?

end ClearConfig
end DataGrid
