import DataGrid.Json.Record
import DataGrid.Json.Printer

/-
Cache servers that clients connect to, and the locations advertised for a
bucket.
-/

namespace DataGrid

open Json

inductive ServerError
  /-- the address cannot be found right now, as while a server stops -/
  | bindAddressNotAvailable (server : String)
  | illegalState (reason : String)
deriving DecidableEq, Repr

def ServerError.message : ServerError → String
  | .bindAddressNotAvailable server =>
    "Bind address not available for cache server " ++ server
  | .illegalState reason => "Illegal server state: " ++ reason

structure CacheServer where
  port : Nat
  running : Bool := true
  /-- where clients reach the server, or why that is not known -/
  address : Except ServerError String
  groups : List String := []

namespace CacheServer

def stop (s : CacheServer) : CacheServer := { s with running := false }

/-- The server still runs but has no address any more. -/
def loseAddress (s : CacheServer) : CacheServer :=
  { s with address := .error (.bindAddressNotAvailable ("port " ++ toString s.port)) }

end CacheServer

structure ServerLocation where
  bucketId : Nat
  host : String
  port : Nat
  isPrimary : Bool
  /-- the version of the metadata for which the location was found -/
  version : Nat
  groups : List String
deriving DecidableEq, Repr

namespace ServerLocation

def text (l : ServerLocation) : String :=
  "bucket " ++ toString l.bucketId ++ " at " ++ l.host ++ ":" ++ toString l.port
    ++ (if l.isPrimary then " (primary)" else "")

def fieldNames : List String := ["bucket_id", "host", "port", "is_primary", "version", "groups"]

def toJson (l : ServerLocation) : Json := .object [
  ("bucket_id", .nat l.bucketId),
  ("host", .text l.host),
  ("port", .nat l.port),
  ("is_primary", .bool l.isPrimary),
  ("version", .nat l.version),
  ("groups", .list .text l.groups)]

def ofJson? : Read ServerLocation := fun j => do
  match ← fieldsNamed fieldNames j with
  | [bucketId, host, port, isPrimary, version, groups] =>
    return {
      bucketId := ← bucketId.required (asNat 32)
      host := ← host.required asText
      port := ← port.required (asNat 16)
      isPrimary := ← isPrimary.required asBool
      version := ← version.required (asNat 32)
      groups := ← groups.required (asList asText) }
  | _ => none

def parse (s : String) : Option ServerLocation := (Json.parse s).bind ofJson?

end ServerLocation
end DataGrid
