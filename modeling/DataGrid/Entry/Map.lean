import DataGrid.Entry.Event
import DataGrid.Entry.Tombstone

/-
Entries by key. Every change of an entry takes a tick of the map's clock, so
that entries can be ordered by their last change. The clock has no end: a map is
taken to see fewer changes than 64 bits can count.
-/

namespace DataGrid

structure Entry where
  token : Token
  stamp : VersionStamp := {}
  lastModified : Nat

namespace Entry

def value? (e : Entry) : Option Value := e.token.value?

/-- The entry stamped with the tag of an event, if that is valid. -/
def stampedWith (e : Entry) (tag : Option VersionTag) : Entry :=
  match tag with
  | some t => if t.isValid then { e with stamp := .ofTag t } else e
  | none => e

end Entry

structure EntryMap where
  config : TombstoneConfig := {}
  slots : OrdMap Key Entry := .empty
  queue : List TombstoneRecord := []
  clock : Nat := 0

namespace EntryMap

/-! ## What can be seen -/

def entry? (m : EntryMap) (k : Key) : Option Entry := m.slots.find? k

def get? (m : EntryMap) (k : Key) : Option Value := (m.entry? k).bind Entry.value?

def contains (m : EntryMap) (k : Key) : Bool :=
  match m.entry? k with
  | some e => e.token.isLive
  | none => false

/-- The keys that are present. -/
def keys (m : EntryMap) : List Key := (m.slots.filter fun _ e => e.token.isLive).keys

def size (m : EntryMap) : Nat := m.keys.length

def isEmpty (m : EntryMap) : Bool := m.size == 0

def tombstoneCount (m : EntryMap) : Nat :=
  (m.slots.filter fun _ e => e.token.isTombstone).size

/-- The key with a value that was changed the longest time ago. -/
def oldestKey? (m : EntryMap) : Option Key :=
  let older (best : Option (Key × Entry)) (p : Key × Entry) : Option (Key × Entry) :=
    match best with
    | some b => if p.2.lastModified < b.2.lastModified then some p else best
    | none => some p
  (((m.slots.toList.filter fun p => p.2.value?.isSome).foldl older none)).map (·.1)

/-! ## Changes -/

/-- Put an entry with this stamp for a key and stamp it with the tag of the event. -/
def put (m : EntryMap) (k : Key) (t : Token) (old : VersionStamp) (tag : Option VersionTag) :
    EntryMap :=
  let e : Entry := { token := t, stamp := old, lastModified := m.clock + 1 }
  { m with clock := m.clock + 1, slots := m.slots.insert k (e.stampedWith tag) }

/-- Change the token of a key. An entry that is there keeps its stamp unless the tag gives it one. -/
def write (m : EntryMap) (k : Key) (t : Token) (tag : Option VersionTag) : EntryMap :=
  m.put k t (((m.entry? k).map Entry.stamp).getD {}) tag

/-- Install a token received with an initial image, whatever was there before. -/
def install (m : EntryMap) (k : Key) (t : Token) (tag : Option VersionTag) : EntryMap :=
  m.put k t {} tag

/-- Take the entry of a key out of the map. That is a change of the entry too. -/
def detach (m : EntryMap) (k : Key) : EntryMap :=
  { m with clock := m.clock + 1, slots := m.slots.erase k }

end EntryMap
end DataGrid
