import DataGrid.Version.Tag
import DataGrid.Version.Holder

/-
The version vector of a region copy: for each member, the region versions of
that member's operations that were applied here. It also hands out the owner's
own region versions and remembers, per member, up to which version tombstones
may be collected.

Only a copy's owner takes new versions from its vector. Own versions learnt
from others move `localVersion` forward, so a version is never handed out a
second time.
-/

namespace DataGrid

open Json

inductive VersionError
  | missingMember (member : String)
  | invalidTag (member : String)
deriving DecidableEq, Repr

def VersionError.message : VersionError → String
  | .missingMember member => "No versions recorded for member " ++ member
  | .invalidTag member => "Version tag from " ++ member ++ " carries no valid version"

structure VersionVector where
  owner : Member
  localVersion : Nat := 0
  holders : OrdMap Member Holder := .empty
  gcVersions : OrdMap Member Nat := .empty

namespace VersionVector

/-- What was received from a member; nothing, if the vector does not know it. -/
def holderOf (v : VersionVector) (m : Member) : Holder := (v.holders.find? m).getD {}

/-- Record a version in the holder of `m`, whoever owns the vector. -/
def recordIn (v : VersionVector) (m : Member) (version : Nat) : Checked (Bool × VersionVector) := do
  let (new, h) ← (v.holderOf m).record version
  return (new, { v with holders := v.holders.insert m h })

/-- Take the next region version for an operation of the owner. -/
def next (v : VersionVector) : Checked (Nat × VersionVector) := do
  let version ← Counter.add v.localVersion 1
  let (_, v) ← { v with localVersion := version }.recordIn v.owner version
  return (version, v)

/-- Record a version of `m`: whether it was new. -/
def record (v : VersionVector) (m : Member) (version : Nat) : Checked (Bool × VersionVector) :=
  let seen := if m.same v.owner then max v.localVersion version else v.localVersion
  { v with localVersion := seen }.recordIn m version

/-- Record the region version of a tag, which must have one. -/
def recordTag (v : VersionVector) (t : VersionTag) :
    Checked (Except VersionError (Bool × VersionVector)) :=
  if t.regionVersion = 0 then .ok (.error (.invalidTag t.member.text))
  else do return .ok (← v.record t.member t.regionVersion)

def contains (v : VersionVector) (m : Member) (version : Nat) : Bool :=
  match v.holders.find? m with
  | some h => h.contains version
  | none => version == 0

/-- An unassigned region version is never contained. -/
def containsTag (v : VersionVector) (t : VersionTag) : Bool :=
  t.regionVersion != 0 && v.contains t.member t.regionVersion

def versionOf (v : VersionVector) (m : Member) : Nat := (v.holderOf m).version

def holder (v : VersionVector) (m : Member) : Except VersionError Holder :=
  match v.holders.find? m with
  | some h => .ok h
  | none => .error (.missingMember m.text)

def gcVersion (v : VersionVector) (m : Member) : Nat := (v.gcVersions.find? m).getD 0

/-- Allow tombstones of `m` up to `version` to be collected. -/
def recordGc (v : VersionVector) (m : Member) (version : Nat) : VersionVector :=
  { v with gcVersions := v.gcVersions.upsert m fun old => max (old.getD 0) version }

def isCollectable (v : VersionVector) (m : Member) (version : Nat) : Bool :=
  version ≤ v.gcVersion m

/-- Take in the holder that another vector has for `m`. -/
def mergeHolder (holders : OrdMap Member Holder) (theirs : Member × Holder) :
    Checked (OrdMap Member Holder) := do
  let h ← ((holders.find? theirs.1).getD {}).merge theirs.2
  return holders.insert theirs.1 h

/-- Take in everything another vector has recorded. -/
def merge (v other : VersionVector) : Checked VersionVector := do
  let holders ← other.holders.toList.foldlM mergeHolder v.holders
  let gc := other.gcVersions.toList.foldl
    (fun gc p => gc.upsert p.1 fun old => max (old.getD 0) p.2) v.gcVersions
  let own := ((holders.find? v.owner).getD {}).version
  return { v with holders, gcVersions := gc, localVersion := max v.localVersion own }

/-- Whether everything another vector has recorded is recorded here. -/
def dominates (v other : VersionVector) : Checked Bool :=
  other.holders.toList.foldlM (fun acc p =>
    if acc then
      match v.holders.find? p.1 with
      | some mine => mine.dominates p.2
      | none => .ok (p.2.version == 0)
    else .ok false) true

/-- The version up to which nothing of a member is missing. -/
def completeUpTo (h : Holder) : Checked Nat :=
  match h.gaps with
  | g :: _ => Counter.sub g.low 1
  | [] => .ok h.version

/-- A vector that allows collecting what is complete here. -/
def gcSnapshot (v : VersionVector) : Checked VersionVector :=
  v.holders.toList.foldlM (fun s p => do return s.recordGc p.1 (← completeUpTo p.2))
    { owner := v.owner }

def same (v w : VersionVector) : Bool :=
  v.owner.same w.owner && v.localVersion == w.localVersion
    && v.holders.same w.holders && v.gcVersions.same w.gcVersions

def fieldNames : List String := ["owner", "local_version", "holders", "gc_versions"]

def toJson (v : VersionVector) : Json := .object [
  ("owner", v.owner.toJson),
  ("local_version", .nat v.localVersion),
  ("holders", v.holders.toJson Holder.toJson),
  ("gc_versions", v.gcVersions.toJson Json.nat)]

def ofJson? : Read VersionVector := fun j => do
  match ← fieldsNamed fieldNames j with
  | [owner, localVersion, holders, gcVersions] =>
    return {
      owner := ← owner.required Member.ofJson?
      localVersion := ← localVersion.required (asNat 64)
      holders := ← holders.required (OrdMap.ofJson? Holder.ofJson?)
      gcVersions := ← gcVersions.required (OrdMap.ofJson? (asNat 64)) }
  | _ => none

def parse (s : String) : Option VersionVector := (Json.parse s).bind ofJson?

end VersionVector
end DataGrid
