import DataGrid.Entry.Copy

/-
What removes entries of a region copy other than by key: clearing it, and
collecting tombstones that have grown old or that every member has seen.
-/

namespace DataGrid.RegionCopy

/-- A clear that goes up to a vector takes the entries whose version the vector has seen; entries
without a version always go. -/
def isCleared (upTo : Option VersionVector) (e : Entry) : Bool :=
  !e.token.isDetached &&
    match upTo, e.stamp.member with
    | some v, some m => v.contains m e.stamp.regionVersion
    | _, _ => true

/-- Take an entry out of the map, and count one tombstone less if it is one. -/
def clearEntry (c : RegionCopy) (p : Key × Entry) : RegionCopy :=
  { c.detach p.1 with
    stats := if p.2.token.isTombstone then c.stats.addTombstones (-1) else c.stats }

/-- Remove all entries, or those a vector has seen: how many of them were present keys. A clear of
everything also empties the queue of tombstones. -/
def clear (upTo : Option VersionVector) (c : RegionCopy) : Nat × RegionCopy :=
  let gone := c.map.slots.filter fun _ e => isCleared upTo e
  let c := gone.toList.foldl clearEntry c
  let queue := if upTo.isNone then [] else c.map.queue
  ((gone.filter fun _ e => e.token.isLive).size,
    { c with map := { c.map with queue := queue }, stats := c.stats.countClear })

/-- Collect the tombstone of a record, if the entry still holds the one the record was made for. -/
def collect (c : RegionCopy) (r : TombstoneRecord) : Option RegionCopy :=
  match c.map.entry? r.key with
  | some e =>
    if e.token.isTombstone && r.matchesStamp e.stamp then
      let c := c.detach r.key
      some { c with stats := (c.stats.addTombstones (-1)).countTombstoneGc }
    else none
  | none => none

/-- Collect what a list of records stands for: how many tombstones that were. -/
def collectAll (c : RegionCopy) (records : List TombstoneRecord) : Nat × RegionCopy :=
  records.foldl (fun (n, c) r =>
    match c.collect r with
    | some c' => (n + 1, c')
    | none => (n, c)) (0, c)

/-- Collect tombstones that are older than the timeout, at most one batch. -/
def expireTombstones (now : Int) (c : RegionCopy) : Nat × RegionCopy :=
  let (expired, kept) :=
    takeExpired now c.map.config.timeoutMs c.map.config.batchLimit c.map.queue
  { c with map := { c.map with queue := kept } }.collectAll expired

/-- Collect tombstones that a vector allows to be collected. -/
def gcTombstones (gc : VersionVector) (c : RegionCopy) : Nat × RegionCopy :=
  let (collectable, kept) := c.map.queue.partition (·.isCollectable gc)
  { c with map := { c.map with queue := kept } }.collectAll collectable

end DataGrid.RegionCopy
