import DataGrid.Version.Vector
import DataGrid.Entry.Token

/-
The queue of tombstones that wait to be collected, oldest first. A record
only names a tombstone by key and version: before one is collected the entry
is compared with it, since the key may have been written again meanwhile.
-/

namespace DataGrid

structure TombstoneRecord where
  key : Key
  stamp : VersionStamp
  createdAt : Int

namespace TombstoneRecord

/-- The record was made for an entry with this stamp. -/
def matchesStamp (r : TombstoneRecord) (s : VersionStamp) : Bool :=
  Member.sameOption s.member r.stamp.member && s.regionVersion == r.stamp.regionVersion
    && s.entryVersion == r.stamp.entryVersion

/-- The time at which a tombstone may go. The timeout is added as a signed number, and the sum
stays within the range of times. -/
def deadline (r : TombstoneRecord) (timeoutMs : Nat) : Int :=
  saturatingAdd r.createdAt (signed64 timeoutMs)

def isExpired (r : TombstoneRecord) (now : Int) (timeoutMs : Nat) : Bool :=
  r.deadline timeoutMs ≤ now

/-- The vector allows the tombstone to be collected. -/
def isCollectable (r : TombstoneRecord) (gc : VersionVector) : Bool :=
  match r.stamp.member with
  | some m => gc.isCollectable m r.stamp.regionVersion
  | none => false

end TombstoneRecord

/-- The expired records at the front of the queue, at most `limit`, and the queue without them. -/
def takeExpired (now : Int) (timeoutMs limit : Nat) (queue : List TombstoneRecord) :
    List TombstoneRecord × List TombstoneRecord :=
  let expired := (queue.take limit).takeWhile (·.isExpired now timeoutMs)
  (expired, queue.drop expired.length)

end DataGrid
