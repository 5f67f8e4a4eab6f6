import DataGrid.Report.Clear
import DataGrid.Cluster.Clear

/-
Reports of a cluster and of its members' shares.
-/

namespace DataGrid

open Report

/-- An event, known by a number. -/
def RegionEvent.numbered (n : Nat) (e : RegionEvent) : Json := .array [
  report n, report e.region, report e.origin, report e.operation, report e.originRemote,
  report e.argument, report e.clients]

/-- An outcome in the order of the members, whoever was heard of first. -/
def Outcome.inOrder (o : Outcome) : Json := .array [
  report (o.replies.mergeSort fun a b => (compare a.sender b.sender).isLE),
  report (o.departed.mergeSort fun a b => (compare a b).isLE), report o.isComplete]

/-- The ids that a clear answers, in their order. -/
def clearedInOrder (r : Except ClearError (List Nat)) : Json := report (r.map (·.mergeSort))

def Share.parts (s : Share) : List (String × Json) := [
  ("buckets", s.store.bucketReports Bucket.summary), part "size" s.store.size,
  part "tomb" s.store.tombstoneCount, part "phase" s.coordinator.phase,
  part "requester" s.coordinator.lock.requester, part "change" s.coordinator.membershipChanged,
  part "creation_locked" s.store.isCreationLocked]

def Cluster.parts (c : Cluster) : List (String × Json) := [
  part "view" c.region.view.members, part "view_id" c.region.view.id,
  part "nodes" c.nodes.members]

end DataGrid
