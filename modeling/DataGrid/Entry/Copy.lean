import DataGrid.Entry.Map
import DataGrid.Entry.Stats
import DataGrid.Version.Conflict

/-
One member's copy of a region: its entries, the version vector if versions are
kept, and the counters. This module has the steps that entry operations are
made of; the operations themselves follow in `Operations`.

What the region decides for its copy are its `Rules`, and what it is told of
an operation are `Notice`s, in order. An operation is worked on as a `Task`:
the copy, the event with what it has learnt, and the notices given so far.
-/

namespace DataGrid

/-- The decisions of the region that owns a copy. -/
structure Rules where
  /-- the region has its initial image -/
  initialized : Bool := true
  concurrencyChecks : Bool
  /-- an operation on this absent key is let pass as having no effect -/
  toleratesMissing : Key → Bool := fun _ => false
  /-- gives a local event its tag, from the stamp of its entry and the time -/
  assignTag : Option VersionVector → VersionStamp → Int →
    Checked (Option VersionTag × Option VersionVector)

namespace Rules

/-- Local events stay without a version. -/
def noTag : Option VersionVector → VersionStamp → Int →
    Checked (Option VersionTag × Option VersionVector) :=
  fun v _ _ => .ok (none, v)

/-- Local events get the next version of their entry and of the region, as done by `local_`. -/
def nextTag (local_ : Member) : Option VersionVector → VersionStamp → Int →
    Checked (Option VersionTag × Option VersionVector)
  | none, _, _ => .ok (none, none)
  | some v, stamp, now => do
    let (regionVersion, v) ← v.next
    return (some (← stamp.nextTag local_ regionVersion now), some v)

end Rules

/-- What the region is told, or asked, in the course of an operation. -/
inductive RegionNotice
  | keyMissing (key : Key)
  | tagWanted (key : Key) (stamp : VersionStamp)
  | invalidated (key : Key) (token : TokenKind) (oldValue : Option Value) (callbacks : Bool)
  | destroyed (token : TokenKind) (oldValue : Option Value)
      (inTokenMode duringRegistration callbacks : Bool)
  | destroyCompleted (token : TokenKind) (inTokenMode duringRegistration callbacks : Bool)
      (expected : Option Value)
  | invalidateCallbacks (key : Key) (callbacks : Bool)
  | putDone (value : Option Value) (operation : Operation) (isCreate : Bool)
  | transactionApplied (token : TokenKind) (operation : Operation)

structure RegionCopy where
  map : EntryMap := {}
  vector : Option VersionVector := none
  stats : Stats := {}

structure Task where
  copy : RegionCopy
  event : EntryEvent
  notices : List RegionNotice := []

/-- The answer of an operation: whether it was applied, or why it could not be. -/
abbrev Applied := Except EntryError Bool

namespace RegionCopy

/-- Change the token of a key and stamp its entry. -/
def write (c : RegionCopy) (k : Key) (t : Token) (tag : Option VersionTag) : RegionCopy :=
  { c with map := c.map.write k t tag }

/-- Take the entry of a key out of the map. -/
def detach (c : RegionCopy) (k : Key) : RegionCopy := { c with map := c.map.detach k }

/-- Let go of an entry that was left behind detached. -/
def dropDetached (c : RegionCopy) (k : Key) : RegionCopy :=
  match c.map.entry? k with
  | some e =>
    if e.token.isDetached then
      { c with map := { c.map with slots := c.map.slots.erase k }, stats := c.stats.countRetry }
    else c
  | none => c

/-- Record the region version of a tag in the vector, if both are there. -/
def recordTag (c : RegionCopy) (tag : Option VersionTag) : Checked RegionCopy :=
  match tag, c.vector with
  | some t, some v =>
    if t.regionVersion = 0 then .ok c
    else do return { c with vector := some (← v.record t.member t.regionVersion).2 }
  | _, _ => .ok c

end RegionCopy

namespace Task

def key (w : Task) : Key := w.event.key

def tell (w : Task) (n : RegionNotice) : Task := { w with notices := w.notices ++ [n] }

def mapCopy (w : Task) (f : RegionCopy → RegionCopy) : Task := { w with copy := f w.copy }

def mapStats (w : Task) (f : Stats → Stats) : Task :=
  w.mapCopy fun c => { c with stats := f c.stats }

def entry? (w : Task) : Option Entry := w.copy.map.entry? w.key

/-- The entry an operation works on, and whether it was made for it. -/
structure Opened where
  entry : Entry
  created : Bool

/-- Look for the entry of the key. -/
def openExisting (w : Task) : Option Opened × Task :=
  let w := w.mapCopy (·.dropDetached w.key)
  (w.entry?.map fun e => ⟨e, false⟩, w)

/-- Look for the entry of the key and put a placeholder where there is none. -/
def openOrCreate (w : Task) : Opened × Task :=
  let w := w.mapCopy (·.dropDetached w.key)
  match w.entry? with
  | some e => (⟨e, false⟩, w)
  | none =>
    let made : Entry := { token := .placeholder, lastModified := w.copy.map.clock + 1 }
    (⟨made, true⟩, w.mapCopy (·.write w.key .placeholder none))

/-- Look for the entry of the key, and make one only if told so. -/
def open_ (w : Task) (create : Bool) : Option Opened × Task :=
  if create then (w.openOrCreate.map some id) else w.openExisting

/-! ## Ends of an operation -/

def done (w : Task) (applied : Bool) : Applied × Task := (.ok applied, w)

/-- The operation has no effect; an entry made for it goes again. -/
def refuse (w : Task) (o : Opened) : Applied × Task :=
  (.ok false, if o.created then w.mapCopy (·.detach w.key) else w)

/-- The operation lost to one that was applied before. -/
def refuseStale (w : Task) (o : Opened) : Applied × Task := (w.mapStats Stats.countConflict).refuse o

/-- The operation needs a key that is present. -/
def missing (w : Task) (rules : Rules) : Applied × Task :=
  let w := w.tell (.keyMissing w.key)
  if rules.toleratesMissing w.key then (.ok false, w) else (.error (.notFound w.key), w)

/-! ## Versions -/

/-- The tag of the event loses against what the entry, or for an absent key the vector, has seen. -/
def isStale (w : Task) (rules : Rules) (e : Entry) : Bool :=
  match w.event.tag with
  | none => false
  | some t =>
    rules.concurrencyChecks &&
      (if e.stamp.isVersioned then e.stamp.judge t != .apply
      else if e.token.isRemoved then
        match w.copy.vector with
        | some v => v.judgeAbsent t != .apply
        | none => false
      else false)

/-- Give a local event without a tag its version. -/
def assignVersion (w : Task) (rules : Rules) (now : Int) (e : Entry) : Checked Task :=
  if rules.concurrencyChecks && !w.event.remote && w.event.tag.isNone then do
    let w := w.tell (.tagWanted w.key e.stamp)
    let (tag, vector) ← rules.assignTag w.copy.vector e.stamp now
    return { w with event := { w.event with tag := tag }, copy := { w.copy with vector := vector } }
  else .ok w

/-! ## Changes -/

/-- Write a token, stamped with the tag of the event. The count of tombstones is left to the
operation, which knows what was there. -/
def write (w : Task) (t : Token) : Task := w.mapCopy (·.write w.key t w.event.tag)

/-- Count one tombstone less, if it was one that the entry held. -/
def countReplaced (w : Task) (old : Token) : Task :=
  w.mapStats fun s => if old.isTombstone then s.addTombstones (-1) else s

def recordVersion (w : Task) : Checked Task := do
  return { w with copy := ← w.copy.recordTag w.event.tag }

/-- Leave a tombstone in place of a token, count it unless that was one too, and queue it for
collection. -/
def bury (w : Task) (now : Int) (old : Token) : Checked Task := do
  let w ← (w.write .tombstone).recordVersion
  let w := w.mapStats fun s => if old.isTombstone then s else s.addTombstones 1
  let record : TombstoneRecord := {
    key := w.key
    stamp := (w.entry?.map Entry.stamp).getD {}
    createdAt := now }
  return w.mapCopy fun c => { c with map := { c.map with queue := c.map.queue ++ [record] } }

/-- The kind of token the entry of the key has now; one that left the map is detached. -/
def tokenNow (w : Task) : TokenKind :=
  match w.entry? with
  | some e => e.token.kind
  | none => .detached

end Task
end DataGrid
