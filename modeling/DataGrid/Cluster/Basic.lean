import DataGrid.Cluster.Share
import DataGrid.Bucket.Region
import DataGrid.Clear.Local
import DataGrid.Clear.NodeSet

/-
A cluster whose members share one partitioned region: the membership view, the
hosts of the region, the lock grantor, the recorded nodes, and the members'
shares, each under a label by which it is called.

Messages are handled by the share that registered for a member last. A share
that is added under a label takes the place of the one that was there, which
then handles no messages any more.
-/

namespace DataGrid

structure Cluster where
  name : String
  config : BucketConfig := {}
  clearConfig : ClearConfig := {}
  region : HostedRegion
  grantor : LockGrantor := {}
  nodes : NodeSet := {}
  shares : OrdMap String Share := .empty
  /-- the labels of the shares that handle the messages for members -/
  handlers : OrdMap Member String := .empty
  isShutDown : Bool := false
  /-- how many ids were given out -/
  ids : Nat := 0

namespace Cluster

def new (name : String) (config : BucketConfig) (clearConfig : ClearConfig) : Cluster where
  name := name
  config := config
  clearConfig := clearConfig
  region := {
    view := {}
    hosts := { path := "/" ++ name, redundantCopies := config.redundantCopies } }

def isCurrent (c : Cluster) (m : Member) : Bool := c.region.view.isCurrent m

def share? (c : Cluster) (label : String) : Option Share := c.shares.find? label

def setShare (c : Cluster) (label : String) (s : Share) : Cluster :=
  { c with shares := c.shares.insert label s }

/-- Change a share. -/
def modifyShare (c : Cluster) (label : String) (f : Share → Share) : Cluster :=
  { c with shares := c.shares.modify label f }

/-- An id that was not used before. -/
def newId (c : Cluster) : Ulid × Cluster := (⟨BitVec.ofNat 128 c.ids⟩, { c with ids := c.ids + 1 })

/-! ## The site of a share -/

def bucket? (c : Cluster) (label : String) (id : Nat) : Option Bucket :=
  (c.share? label).bind (·.store.bucket? id)

def modifyStore (c : Cluster) (label : String) (f : BucketStore → BucketStore) : Cluster :=
  c.modifyShare label fun s => { s with store := f s.store }

def modifyBucket (c : Cluster) (label : String) (id : Nat) (f : Bucket → Bucket) : Cluster :=
  c.modifyStore label fun s => { s with buckets := s.buckets.modify id f }

/-- What the coordinator of a share works on; buckets are known by their ids. -/
def site (start : Cluster) (label : String) : Site Cluster Nat where
  region := start.name
  totalBuckets := start.config.totalBuckets
  isCurrent := isCurrent
  buckets c := (c.share? label).map fun s => ⟨s.store.ids, s.store.primaries.map Bucket.id⟩
  bucketId id := id
  hasPrimary id c := ((c.bucket? label id).any (·.advisor.hasPrimary), c)
  clearBucket id c := c.modifyBucket label id (·.clear.2)
  lockBucket id m c :=
    match c.bucket? label id with
    | none => some c
    | some b => (b.lockForClear? m).map fun b => c.modifyBucket label id fun _ => b
  releaseBucket id c := c.modifyBucket label id Bucket.releaseForClear
  lockCreation c :=
    match c.share? label with
    | none => some c
    | some s => s.store.lockCreation?.map fun store => c.modifyStore label fun _ => store
  unlockCreation c := c.modifyStore label BucketStore.unlockCreation
  hasListener c := (c.share? label).any (0 < ·.listeners)
  clients c := ((c.share? label).map Share.clients).getD .empty
  tellListeners e c := c.modifyShare label (·.tellListeners e)
  tellClients e c := c.modifyShare label (·.tellClients e)
  departures c := ([], c)

/-- Have the coordinator of a share do something. None if it does not end. -/
def coordinate {α : Type} (c : Cluster) (label : String) (work : Act Cluster α) :
    Option (α × Cluster) := do
  let s ← c.share? label
  let (a, scene) ← work.run { coordinator := s.coordinator, outside := c }
  return (a, scene.outside.modifyShare label fun s => { s with coordinator := scene.coordinator })

/-! ## Members come and go -/

/-- A share hears that a member left: its buckets, then its coordinator. -/
def shareHearsOf (p : Member) (c : Cluster) (label : String) : Cluster :=
  let c := c.modifyShare label (·.bucketsHearOf c.region.hasRegion p)
  ((c.coordinate label (Coordinator.memberDeparted (c.site label) p)).map (·.2)).getD c

/-- Make a change of the view: whether it made a difference. The locks of a member that leaves are
released. -/
def changeView (c : Cluster) (change : Change) : Bool × Cluster :=
  let (changed, region) := c.region.change change
  let c := { c with region }
  match changed, change with
  | true, .departed m _ =>
    let c := { c with grantor := (c.grantor.releaseAll m).2 }
    (true, c.shares.keys.foldl (shareHearsOf m) c)
  | changed, _ => (changed, c)

/-- Handle no messages for a member any more. -/
def unregister (c : Cluster) (m : Member) : Cluster := { c with handlers := c.handlers.erase m }

/-- A member without buckets. -/
def newShare (c : Cluster) (m : Member) : Share where
  store := { member := m, regionPath := c.region.hosts.path, config := c.config }
  coordinator := { member := m, config := c.clearConfig }

/-- Let a member join and have a share of the region, known by a label. -/
def add (c : Cluster) (label : String) (m : Member) : Cluster :=
  let c := (c.changeView (.joined m)).2
  { c with
    region := c.region.addHost m
    nodes := (c.nodes.add m).2
    shares := c.shares.insert label (c.newShare m)
    handlers := (c.handlers.filter fun _ l => l != label).insert m label }

/-- Take a member out as if it had crashed. -/
def crash (c : Cluster) (m : Member) : Cluster :=
  let c := { c.unregister m with nodes := (c.nodes.remove m).2 }
  (c.changeView (.departed m true)).2

/-! ## What a share is asked for -/

/-- Ask a share for something that may overflow. None if there is no such share. -/
def askShare? {α : Type} (c : Cluster) (label : String) (f : Share → Checked (α × Share)) :
    Checked (Option α × Cluster) :=
  match c.share? label with
  | none => .ok (none, c)
  | some s => do
    let (a, s) ← f s
    return (some a, c.setShare label s)

end Cluster
end DataGrid
