import DataGrid.Request.Entry
import DataGrid.Bucket.Advisor
import DataGrid.Bucket.Placement
import DataGrid.Bucket.Region

/-
Requests about buckets: regions, advisors, their delegates and servers.
-/

namespace DataGrid

open Request

instance : Request HostedRegion where
  read j := {
    view := .ofMembers (arg j "members")
    hosts := {
      path := argOr "/pr" j "path"
      redundantCopies := arg j "copies"
      hosts := OrdSet.empty.insertAll (arg j "hosts") } }

instance : Request RehearsedRegion where
  read j :=
    let region : HostedRegion := read j
    match opt j "script" with
    | none => { region }
    | script => {
        region := { region with hosts := { region.hosts with path := "/scripted" } }
        script }

/-- An advisor call, unless the request is another one. -/
def AdvisorCall.requested? (j : Json) : Option AdvisorCall :=
  match text j "do" with
  | "open_gate" => some .openGate
  | "hosting" => some (.setHosting (arg j "on"))
  | "add_hosting" => some (.addHosting (arg j "m"))
  | "remove_hosting" => some (.removeHosting (arg j "m"))
  | "elector" => some (.setElector (arg j "m"))
  | "volunteer" | "reenter" => some .volunteer
  | "become" => some .becomePrimary
  | "resign" => some .resignPrimary
  | "set_primary" => some (.setPrimary (arg j "m"))
  | "wait" => some .awaitPrimary
  | "observe" => some .observe
  | "close" => some .close
  | _ => none

/-- A delegate is written by name, or as its calls, which it then reports. -/
def Delegate.requested : Json → Delegate
  | .text "passive" => .passive
  | .array l => .reporting (l.filterMap AdvisorCall.requested?)
  | _ => .immediate

/-- An advisor that neither hosts its bucket nor may bid yet. -/
instance : Request Advisor where
  read j := {
    bucketId := arg j "id"
    member := arg j "local"
    delegate := .requested (arg j "delegate") }

/-- A server whose address is known, or cannot be had for a reason. -/
instance : Request CacheServer where
  read j :=
    match (opt j "plain" : Option Nat), (opt j "fail" : Option String) with
    | some port, _ => { port, address := .ok ("plain-" ++ toString port) }
    | none, some "bind" => { port := 0, address := .error (.bindAddressNotAvailable (arg j "why")) }
    | none, some _ => { port := 0, address := .error (.illegalState (arg j "why")) }
    | none, none => { port := arg j "port", address := .ok (arg j "host"), groups := arg j "groups" }

/-- A region of four buckets without further copies, whose primaries nobody waits for. -/
instance : Request BucketConfig where
  read j := {
    redundantCopies := arg j "copies"
    totalBuckets := argOr 4 j "total"
    primaryWaitMs := 0
    attributes := arg j "attrs" }

/-- The usual settings, except for those that are given. -/
def BucketConfig.requested (j : Json) : BucketConfig :=
  let c : BucketConfig := {}
  { redundantCopies := argOr c.redundantCopies j "redundant_copies"
    totalBuckets := argOr c.totalBuckets j "total_buckets"
    primaryWaitMs := argOr c.primaryWaitMs j "primary_wait"
    attributes := argOr c.attributes j "attributes" }

end DataGrid
