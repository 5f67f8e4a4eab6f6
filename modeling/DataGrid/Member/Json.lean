import DataGrid.Member.Basic
import DataGrid.Address.Reader
import DataGrid.Json.Record
import DataGrid.Json.Printer
import DataGrid.Ordered.Set

/-
Members, sets of members and maps from members as JSON. A map is an array of
pairs, since its keys are no texts.
-/

namespace DataGrid

open Json

namespace Member

def fieldNames : List String :=
  ["address", "membership_port", "process_id", "view_id", "name", "unique_tag"]

def toJson (m : Member) : Json := .object [
  ("address", .text m.address.text),
  ("membership_port", .nat m.port.toNat),
  ("process_id", .nat m.processId.toNat),
  ("view_id", .int m.viewId.toInt),
  ("name", .option .text m.name),
  ("unique_tag", .option .text m.tag)]

def asAddress : Read Address := fun j => (asText j).bind Address.parse

def ofJson? : Read Member := fun j => do
  match ← fieldsNamed fieldNames j with
  | [address, port, processId, viewId, name, tag] =>
    return {
      address := ← address.required asAddress
      port := UInt16.ofNat (← port.required (asNat 16))
      processId := UInt32.ofNat (← processId.required (asNat 32))
      viewId := Int32.ofInt (← viewId.required (asSigned 32))
      name := ← name.optional asText
      tag := ← tag.optional asText }
  | _ => none

def parse (s : String) : Option Member := (Json.parse s).bind ofJson?

end Member

/-- A set as an array in ascending order. -/
def OrdSet.toJson (s : OrdSet Member) : Json := .list Member.toJson s.toList

/-- The elements are put in one after the other, so of equal ones the first is kept. -/
def OrdSet.ofJson? : Read (OrdSet Member) := fun j =>
  (asList Member.ofJson? j).map (OrdSet.empty.insertAll ·)

def OrdMap.toJson {ν : Type} (value : ν → Json) (m : OrdMap Member ν) : Json :=
  .list (fun p => .array [p.1.toJson, value p.2]) m.toList

/-- The pairs are taken all at once, so of equal keys the last is kept. -/
def OrdMap.ofJson? {ν : Type} (value : Read ν) : Read (OrdMap Member ν) := fun j =>
  (asList (asPair Member.ofJson? value) j).map OrdMap.ofList

end DataGrid
