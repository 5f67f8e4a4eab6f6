import DataGrid.Json.Record
import DataGrid.Proofs.Json.RoundTrip

/-
Records survive being written and read: `Survives` says so of one value, of
its JSON and of the text. It holds of the parts of a record first, and then of
the record, whose fields are found by their names (`fieldsNamed_object`).
-/

namespace DataGrid.Json

variable {α β : Type} {write : α → Json} {read : Read α} {write' : β → Json} {read' : Read β}

/-- What is written for a value is whole, and the value is read back from it. -/
structure Survives (write : α → Json) (read : Read α) (a : α) : Prop where
  whole : (write a).Whole
  reads : read (write a) = some a

/-- A value that survives is read back from its text. -/
theorem Survives.parse {a : α} (h : Survives write read a) :
    (Json.parse (write a).render).bind read = some a := by
  rw [parse_render h.whole, Option.bind_some, h.reads]

/-! ## Parts of records -/

theorem survives_bool (b : Bool) : Survives .bool asBool b := ⟨.bool b, rfl⟩

theorem survives_text (s : String) : Survives .text asText s := ⟨.text s, rfl⟩

theorem survives_nat {bits n : Nat} (h : n < 1 <<< bits) : Survives .nat (asNat bits) n := by
  refine ⟨.int n, ?_⟩
  have hrange : (0 : Int) ≤ n ∧ (n : Int) ≤ (1 <<< bits : Nat) - 1 := by omega
  rw [asNat, nat, asIntBetween, if_pos hrange, Option.map_some, Int.toNat_natCast]

theorem survives_int {bits : Nat} {n : Int} (hlow : -(1 <<< (bits - 1) : Nat) ≤ n)
    (hhigh : n ≤ (1 <<< (bits - 1) : Nat) - 1) : Survives .int (asSigned bits) n := by
  refine ⟨.int n, ?_⟩
  rw [asSigned, asIntBetween, if_pos ⟨hlow, hhigh⟩]

/-- What may be missing survives if nothing that is there is written as null. -/
theorem Survives.option {a : Option α} (h : ∀ x ∈ a, Survives write read x)
    (hnull : ∀ x, write x ≠ .null) : Survives (.option write) (asOption read) a := by
  cases a with
  | none => exact ⟨.null, rfl⟩
  | some x =>
    obtain ⟨hwhole, hread⟩ := h x rfl
    refine ⟨hwhole, ?_⟩
    rw [Json.option, asOption, hread]
    · rfl
    · exact hnull x

theorem survives_text? (t : Option String) : Survives (.option .text) (asOption asText) t :=
  .option (fun s _ => survives_text s) nofun

theorem Survives.list {l : List α} (h : ∀ x ∈ l, Survives write read x) :
    Survives (.list write) (asList read) l := by
  refine ⟨.array fun j hj => ?_, ?_⟩
  · obtain ⟨x, hx, rfl⟩ := List.mem_map.1 hj
    exact (h x hx).whole
  · have heach : l.mapM (fun x => read (write x)) = some (l.map id) :=
      mapM_eq_some fun x hx => (h x hx).reads
    rw [Json.list, asList, List.mapM_map]
    exact heach.trans (by rw [List.map_id])

theorem Survives.pair {p : α × β} (h : Survives write read p.1) (h' : Survives write' read' p.2) :
    Survives (fun p => .array [write p.1, write' p.2]) (asPair read read') p := by
  refine ⟨.array fun j hj => ?_, ?_⟩
  · rcases List.mem_cons.1 hj with rfl | hj
    · exact h.whole
    · exact List.mem_singleton.1 hj ▸ h'.whole
  · simp [asPair, h.reads, h'.reads]

/-! ## Fields -/

theorem valuesOf_eq {fields : List (String × Json)} (hnames : (fields.map (·.1)).Nodup)
    {f : String × Json} (hf : f ∈ fields) : valuesOf f.1 fields = [f.2] := by
  induction fields with
  | nil => cases hf
  | cons g fields ih =>
    rw [List.map_cons, List.nodup_cons] at hnames
    obtain ⟨hfresh, hnames⟩ := hnames
    rcases List.mem_cons.1 hf with rfl | hf
    · have hnone : fields.filter (fun g => g.1 == f.1) = [] := by
        refine List.filter_eq_nil_iff.2 fun g hg heq => hfresh ?_
        rw [← eq_of_beq heq]
        exact List.mem_map_of_mem hg
      simp [valuesOf, hnone]
    · have hne : (g.1 == f.1) = false := by
        rw [beq_eq_false_iff_ne]
        rintro heq
        exact hfresh (heq ▸ List.mem_map_of_mem hf)
      rw [← ih hnames hf, valuesOf, List.filter_cons_of_neg (by simp [hne]), valuesOf]

/-- A record that is written as an object gives all its fields. -/
theorem fieldsNamed_object {names : List String} {fields : List (String × Json)}
    (hfields : fields.map (·.1) = names) (hnames : names.Nodup) :
    fieldsNamed names (.object fields) = some (fields.map fun f => .given f.2) := by
  subst hfields
  rw [fieldsNamed, List.mapM_map]
  refine mapM_eq_some fun f hf => ?_
  simp only [Function.comp_apply, valuesOf_eq hnames hf]

end DataGrid.Json
