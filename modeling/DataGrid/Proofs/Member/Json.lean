import DataGrid.Member.Json
import DataGrid.Ordered.Lemmas
import DataGrid.Proofs.Address.RoundTrip
import DataGrid.Proofs.Json.Record

/-
Members, sets of members and maps from members survive as JSON
(`Member.survives`, `OrdMap.survives`): every field of a member comes back,
also those that do not tell members apart, and every key of a map with its value.
-/

namespace DataGrid

open Json

theorem Address.survives (a : Address) : Survives (.text ·.text) Member.asAddress a :=
  ⟨.text _, by simp [Member.asAddress, asText, Address.parse_text]⟩

namespace Member

theorem survives_port (p : UInt16) : Survives .nat (asNat 16) p.toNat := survives_nat p.toNat_lt

theorem survives_process (p : UInt32) : Survives .nat (asNat 32) p.toNat := survives_nat p.toNat_lt

theorem survives_view (v : Int32) : Survives .int (asSigned 32) v.toInt :=
  survives_int v.le_toInt (Int.le_sub_one_of_lt v.toInt_lt)

/-- A member comes back with all its fields. -/
theorem survives (m : Member) : Survives toJson ofJson? m := by
  have haddress := m.address.survives
  have hport := survives_port m.port
  have hprocess := survives_process m.processId
  have hview := survives_view m.viewId
  have hname := survives_text? m.name
  have htag := survives_text? m.tag
  have hfields : fieldsNamed fieldNames m.toJson = some [
      .given (.text m.address.text), .given (.nat m.port.toNat), .given (.nat m.processId.toNat),
      .given (.int m.viewId.toInt), .given (.option .text m.name), .given (.option .text m.tag)] :=
    fieldsNamed_object rfl (by decide)
  refine ⟨.object ?_, ?_⟩
  · simp [haddress.whole, hport.whole, hprocess.whole, hview.whole, hname.whole, htag.whole]
  · simp [ofJson?, hfields, Field.required, Field.optional, haddress.reads, hport.reads,
      hprocess.reads, hview.reads, hname.reads, htag.reads]

theorem toJson_ne_null (m : Member) : m.toJson ≠ .null := nofun

end Member

variable {ν : Type} {write : ν → Json} {read : Read ν}

theorem OrdSet.survives (s : OrdSet Member) : Survives OrdSet.toJson OrdSet.ofJson? s := by
  have hlist : Survives (.list Member.toJson) (asList Member.ofJson?) s.toList :=
    .list fun m _ => m.survives
  exact ⟨hlist.whole, by simp [OrdSet.ofJson?, OrdSet.toJson, hlist.reads, insertAll_toList]⟩

/-- A map from members survives if its values do. -/
theorem OrdMap.survives {m : OrdMap Member ν} (h : ∀ p ∈ m.toList, Survives write read p.2) :
    Survives (OrdMap.toJson write) (OrdMap.ofJson? read) m := by
  have hlist : Survives (.list fun p => .array [p.1.toJson, write p.2])
      (asList (asPair Member.ofJson? read)) m.toList :=
    .list fun p hp => .pair p.1.survives (h p hp)
  exact ⟨hlist.whole, by simp [OrdMap.ofJson?, OrdMap.toJson, hlist.reads, ofList_toList]⟩

end DataGrid
