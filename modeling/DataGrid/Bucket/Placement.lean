import DataGrid.Entry.Config
import DataGrid.Hash.SipHash

/-
How a region is divided into buckets, and which of them a key belongs to. Every
member finds the same one, from the key and the number of buckets alone.
-/

namespace DataGrid

open Json

structure BucketConfig where
  /-- copies kept beside the primary one -/
  redundantCopies : Nat := 1
  totalBuckets : Nat := 113
  /-- how long to wait for a bucket's primary, or for a clear to let new buckets be made -/
  primaryWaitMs : Nat := 15000
  attributes : RegionAttributes := {}
deriving DecidableEq, Repr

namespace BucketConfig

def fieldNames : List String :=
  ["redundant_copies", "total_buckets", "primary_wait_ms", "attributes"]

def toJson (c : BucketConfig) : Json := .object [
  ("redundant_copies", .nat c.redundantCopies),
  ("total_buckets", .nat c.totalBuckets),
  ("primary_wait_ms", .nat c.primaryWaitMs),
  ("attributes", c.attributes.toJson)]

def ofJson? : Read BucketConfig := fun j => do
  match ← fieldsNamed fieldNames j with
  | [copies, total, wait, attributes] =>
    return {
      redundantCopies := ← copies.required (asNat 32)
      totalBuckets := ← total.required (asNat 32)
      primaryWaitMs := ← wait.required (asNat 64)
      attributes := ← attributes.withDefault {} RegionAttributes.ofJson? }
  | _ => none

end BucketConfig

/-- The bucket of a key, given as the bytes it is hashed by. -/
def bucketOf (totalBuckets : Nat) (bytes : List UInt8) : Nat :=
  (plainHash bytes).toNat % max totalBuckets 1

def bucketOfText (totalBuckets : Nat) (key : String) : Nat := bucketOf totalBuckets (textBytes key)

/-- The bucket of a number of 64 bits. -/
def bucketOfNumber (totalBuckets : Nat) (key : Nat) : Nat := bucketOf totalBuckets (bytesOf 8 key)

end DataGrid
