import DataGrid.Report.Version
import DataGrid.Entry.Copy

/-
Reports of entries: tokens, counters, events, what a region is told, and the
map of entries.
-/

namespace DataGrid

open Report

instance : Report TokenKind := ⟨fun k => .text k.name⟩
instance : Report Operation := ⟨fun o => .text o.name⟩

def Token.details (t : Token) : Json := .object [
  part "kind" t.kind, part "value" t.value?, part "removed" t.isRemoved,
  part "invalid" t.isInvalid, part "tombstone" t.isTombstone, part "phase2" t.isDetached,
  part "live" t.isLive, part "kind_removed" t.kind.isRemoved,
  part "kind_invalid" t.kind.isInvalid, part "json" t.toJson.render]

instance : Report Stats where
  report s := report [s.puts, s.invalidates, s.destroys, s.tombstones, s.tombstoneGcs,
    s.evictions, s.retries, s.clears, s.conflicts]

def EntryError.kind : EntryError → String
  | .notFound _ => "EntryNotFound"
  | .invalidToken _ _ => "InvalidToken"

instance : Report EntryError := ⟨fun e => failure e.kind e.message⟩

/-- The transaction is shown only if there is one. -/
instance : Report EntryEvent where
  report e := .object ([
    part "op" e.operation, part "old" e.oldValue, part "new" e.newValue, part "tag" e.tag,
    part "valid" e.hasValidVersion, part "remote" e.remote]
    ++ (e.transaction.map (part "tx")).toList)

instance : Report RegionNotice where
  report
    | .keyMissing k => report ["not_found", k]
    | .tagWanted k stamp => .array [report "generate", report k, report stamp]
    | .invalidated k token old callbacks =>
      .array [report "invalidate2", report k, report token, report old, report false,
        report callbacks]
    | .destroyed token old tokenMode registration callbacks =>
      .array [report "destroy2", report token, report old, report tokenMode, report false,
        report registration, report callbacks]
    | .destroyCompleted token tokenMode registration callbacks expected =>
      .array [report "destroy3", report token, report token.isInvalid, report tokenMode,
        report registration, report callbacks, report expected]
    | .invalidateCallbacks k callbacks =>
      .array [report "invalidate_callbacks", report k, report callbacks]
    | .putDone value operation isCreate =>
      .array [report "put2", report value, report operation, report isCreate]
    | .transactionApplied token operation =>
      .array [report "tx2", report token, report operation]

instance : Report Entry where
  report e := .array [report e.token.kind, report e.value?, report e.stamp, report e.lastModified]

instance : Report EntryMap where
  report m := .object [
    ("slots", .object (m.slots.toList.map fun (k, e) => (k, report e))),
    part "keys" m.keys, part "len" m.size, part "empty" m.isEmpty,
    part "tomb" m.tombstoneCount]

/-- The vector as a part of a larger report, if there is one. -/
def RegionCopy.vectorPart (c : RegionCopy) : List (String × Json) :=
  (c.vector.map (part "rvv")).toList

end DataGrid
