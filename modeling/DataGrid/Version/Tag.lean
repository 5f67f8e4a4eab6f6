import DataGrid.Member.Json
import DataGrid.Counter

/-
Version tags and stamps. A tag travels with an operation and says which
member did it, as which version of the entry and as which version of the
region. A stamp is what an entry keeps of the last tag applied to it.
-/

namespace DataGrid

open Json

structure VersionTag where
  member : Member
  entryVersion : Nat
  regionVersion : Nat
  timestamp : Int
  previousMember : Option Member := none
deriving DecidableEq, Repr

structure VersionStamp where
  member : Option Member := none
  entryVersion : Nat := 0
  regionVersion : Nat := 0
  timestamp : Int := 0
deriving DecidableEq, Repr

namespace VersionTag

/-- A tag counts only if one of its versions has been assigned; zero means unassigned. -/
def isValid (t : VersionTag) : Bool := t.entryVersion != 0 || t.regionVersion != 0

/-- Equal versions from the same members. -/
def same (t u : VersionTag) : Bool :=
  t.member.same u.member && t.entryVersion == u.entryVersion
    && t.regionVersion == u.regionVersion && t.timestamp == u.timestamp
    && Member.sameOption t.previousMember u.previousMember

def text (t : VersionTag) : String :=
  "\x7bv" ++ toString t.entryVersion ++ "; rv" ++ toString t.regionVersion
    ++ "; mbr=" ++ t.member.text ++ "; time=" ++ toString t.timestamp ++ "\x7d"

def fieldNames : List String :=
  ["member", "entry_version", "region_version", "distributed_timestamp", "previous_member"]

def toJson (t : VersionTag) : Json := .object [
  ("member", t.member.toJson),
  ("entry_version", .nat t.entryVersion),
  ("region_version", .nat t.regionVersion),
  ("distributed_timestamp", .int t.timestamp),
  ("previous_member", .option Member.toJson t.previousMember)]

def ofJson? : Read VersionTag := fun j => do
  match ← fieldsNamed fieldNames j with
  | [member, entryVersion, regionVersion, timestamp, previousMember] =>
    return {
      member := ← member.required Member.ofJson?
      entryVersion := ← entryVersion.required (asNat 64)
      regionVersion := ← regionVersion.required (asNat 64)
      timestamp := ← timestamp.required (asSigned 64)
      previousMember := ← previousMember.optional Member.ofJson? }
  | _ => none

def parse (s : String) : Option VersionTag := (Json.parse s).bind ofJson?

end VersionTag

namespace VersionStamp

def isVersioned (s : VersionStamp) : Bool := s.member.isSome

/-- The stamp after a tag was applied. -/
def ofTag (t : VersionTag) : VersionStamp where
  member := some t.member
  entryVersion := t.entryVersion
  regionVersion := t.regionVersion
  timestamp := t.timestamp

/-- The stamp as a tag, if it was ever versioned. -/
def toTag? (s : VersionStamp) : Option VersionTag :=
  s.member.map fun m => {
    member := m
    entryVersion := s.entryVersion
    regionVersion := s.regionVersion
    timestamp := s.timestamp }

/-- The tag of the next operation on the entry, done by `m` at the time `now`. -/
def nextTag (s : VersionStamp) (m : Member) (regionVersion : Nat) (now : Int) :
    Checked VersionTag := do
  let entryVersion ← Counter.add s.entryVersion 1
  return {
    member := m
    entryVersion := entryVersion
    regionVersion := regionVersion
    timestamp := now
    previousMember := s.member }

def fieldNames : List String := ["member", "entry_version", "region_version", "timestamp"]

def toJson (s : VersionStamp) : Json := .object [
  ("member", .option Member.toJson s.member),
  ("entry_version", .nat s.entryVersion),
  ("region_version", .nat s.regionVersion),
  ("timestamp", .int s.timestamp)]

def ofJson? : Read VersionStamp := fun j => do
  match ← fieldsNamed fieldNames j with
  | [member, entryVersion, regionVersion, timestamp] =>
    return {
      member := ← member.optional Member.ofJson?
      entryVersion := ← entryVersion.required (asNat 64)
      regionVersion := ← regionVersion.required (asNat 64)
      timestamp := ← timestamp.required (asSigned 64) }
  | _ => none

def parse (s : String) : Option VersionStamp := (Json.parse s).bind ofJson?

end VersionStamp
end DataGrid
