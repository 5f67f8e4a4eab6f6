import DataGrid.Version.Vector

/-
What becomes of an operation that arrives with a version. Every replica makes
the same comparison, so operations that arrive in different orders end in the
same entries: the higher entry version wins, and between equal ones the
higher member.
-/

namespace DataGrid

inductive Verdict
  | apply
  /-- the entry already shows a newer operation -/
  | stale
  /-- the same operation arrived before -/
  | duplicate
deriving DecidableEq, Repr

/-- Compare a tag with the stamp of the entry it is for. A stamp or tag without a version never
holds an operation up. -/
def VersionStamp.judge (s : VersionStamp) (t : VersionTag) : Verdict :=
  match s.member with
  | none => .apply
  | some current =>
    if t.isValid then
      match (compare t.entryVersion s.entryVersion).then (compare t.member current) with
      | .gt => .apply
      | .lt => .stale
      | .eq => .duplicate
    else .apply

/-- Judge a tag for a key that has no entry: what the vector has seen was applied before. -/
def VersionVector.judgeAbsent (v : VersionVector) (t : VersionTag) : Verdict :=
  if v.containsTag t then .duplicate else .apply

end DataGrid
