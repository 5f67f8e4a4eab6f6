import DataGrid.View.Basic

/-
A partitioned region as the cluster sees it: the membership view, and which of
its members host the region. A member that leaves the cluster is forgotten, and
only current members count.

In a rehearsal a script answers whether a member hosts the region.
-/

namespace DataGrid

structure RegionHosts where
  path : String
  redundantCopies : Nat
  hosts : OrdSet Member := .empty

namespace RegionHosts

def add (r : RegionHosts) (m : Member) : RegionHosts := { r with hosts := r.hosts.insert m }

/-- Forget a host: whether it was one. -/
def remove (r : RegionHosts) (m : Member) : Bool × RegionHosts :=
  (r.hosts.contains m, { r with hosts := r.hosts.erase m })

/-- The member is current and hosts the region. -/
def hasRegion (r : RegionHosts) (v : View) (m : Member) : Bool :=
  v.isCurrent m && r.hosts.contains m

def current (r : RegionHosts) (v : View) : List Member := r.hosts.toList.filter v.isCurrent

end RegionHosts

structure HostedRegion where
  view : View
  hosts : RegionHosts

namespace HostedRegion

def hasRegion (r : HostedRegion) (m : Member) : Bool := r.hosts.hasRegion r.view m

def hosting (r : HostedRegion) : List Member := r.hosts.current r.view

/-- Make a change of the view: whether it made a difference. A member that leaves is forgotten as
a host. -/
def change (r : HostedRegion) (c : Change) : Bool × HostedRegion :=
  match r.view.change? c with
  | none => (false, r)
  | some v =>
    match c with
    | .joined _ => (true, { r with view := v })
    | .departed m _ => (true, { view := v, hosts := (r.hosts.remove m).2 })

def addHost (r : HostedRegion) (m : Member) : HostedRegion := { r with hosts := r.hosts.add m }

end HostedRegion

/-! ## Rehearsals -/

structure RehearsedRegion where
  region : HostedRegion
  /-- the answers, of which the last is given again and again -/
  script : Option (List Bool) := none

/-- The next of a list of answers, of which the last is given again and again. -/
def nextAnswer {α : Type} : List α → Option (α × List α)
  | [] => none
  | [a] => some (a, [a])
  | a :: r => some (a, r)

/-- Whether a member hosts the region. An empty script denies it. -/
def RehearsedRegion.ask (p : Member) : StateM RehearsedRegion Bool := do
  let r ← get
  match r.script with
  | none => return r.region.hasRegion p
  | some l =>
    let (answer, rest) := (nextAnswer l).getD (false, [])
    set { r with script := some rest }
    return answer

end DataGrid
