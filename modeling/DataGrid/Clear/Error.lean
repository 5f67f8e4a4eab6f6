import DataGrid.Bucket.Basic
import DataGrid.Clear.Message
import DataGrid.Lock.Grantor

/-
Why a clear, or another operation on the region as a whole, failed.
-/

namespace DataGrid

inductive ClearError
  /-- a bucket had no primary when the time was over -/
  | primaryNotFound (region : String)
  /-- fewer buckets were cleared than the region has -/
  | incomplete (region : String)
  | lockTimeout (name : String)
  /-- a member left before it replied, and no attempt was left -/
  | memberDeparted (member : Member) (operation : ClearOperation)
  | replyTimeout (pending : Nat)
  /-- another member failed to do its part -/
  | remote (member : Member) (reason : String)
  /-- the member is shutting down -/
  | cancelled
  /-- the cache writer does not let the clear pass -/
  | cacheWriter (reason : String)
  | membership (e : LockError)
  | bucket (e : BucketError)
deriving DecidableEq, Repr

def ClearError.message : ClearError → String
  | .primaryNotFound region =>
    "Unable to find primary bucket region during clear operation for region: " ++ region
  | .incomplete region =>
    "Unable to clear all the buckets from the partitioned region " ++ region
      ++ ", either data (buckets) moved or member departed."
  | .lockTimeout name => "Timed out acquiring distributed lock " ++ name
  | .memberDeparted member operation =>
    "Member " ++ member.text ++ " departed before replying to " ++ operation.name
  | .replyTimeout pending => "Timed out waiting for " ++ toString pending ++ " replies"
  | .remote member reason => "Clear failed on member " ++ member.text ++ ": " ++ reason
  | .cancelled => "Distribution channel is shutting down"
  | .cacheWriter reason => "Cache writer rejected clear: " ++ reason
  | .membership e => e.message
  | .bucket e => e.message

end DataGrid
