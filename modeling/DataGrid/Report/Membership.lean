import DataGrid.Report.Basic
import DataGrid.Member.Json
import DataGrid.View.Listening
import DataGrid.Lock.Grantor

/-
Reports of members in full, of the view, and of locks.
-/

namespace DataGrid

open Report

/-- All that is known of a member. -/
def Member.details (m : Member) : Json := .object [
  part "disp" m, part "addr" m.address.text, part "port" m.port.toNat,
  part "pid" m.processId.toNat, part "view" m.viewId.toInt, part "name" m.name,
  part "tag" m.tag, part "json" m.toJson.render]

/-- Who was told what, and the view as it was then. -/
instance : Report Notice where
  report n :=
    let (what, crashed) := match n.change with
      | .joined _ => ("joined", none)
      | .departed _ crashed => ("departed", some crashed)
    .array [report n.listener, report what, report n.change.member, report crashed,
      report n.seen.id, report n.seen.members.size, report (n.seen.isCurrent n.change.member)]

/-- A notice as it is shown by listeners of these kinds, one for each listener. Those that mind
departures only show no more than that. -/
def Notice.shownBy? (kinds : List String) (n : Notice) : Option Json :=
  if kinds[n.listener]? != some "depart_only" then some (report n)
  else match n.change with
    | .joined _ => none
    | .departed m crashed =>
      some (.array [report n.listener, report "departed_only", report m, report crashed])

/-- The view as parts of a larger report. -/
def View.parts (v : View) : List (String × Json) := [
  part "id" v.id, part "members" v.members, part "len" v.members.size,
  part "empty" v.members.isEmpty]

def LockError.kind : LockError → String
  | .notHeld _ _ => "LockNotHeld"
  | .timeout _ => "LockTimeout"
  | .unknownMember _ => "UnknownMember"

instance : Report LockError := ⟨fun e => failure e.kind e.message⟩

end DataGrid
