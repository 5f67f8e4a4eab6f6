import DataGrid.Json.Basic
import DataGrid.Member.Basic
import DataGrid.Ordered.Set
import DataGrid.Counter

/-
Reports: what someone who watches the grid is shown of a value, as JSON. A
report is for reading only. The JSON in which members exchange records is
another matter and stands with the records.
-/

namespace DataGrid

class Report (α : Type) where
  report : α → Json

namespace Report

/-- A named part of a report. -/
def part {α : Type} [Report α] (name : String) (a : α) : String × Json := (name, report a)

/-- What is shown of a failure: its kind and its text. -/
def failure (kind message : String) : Json :=
  .object [("error", .text kind), ("message", .text message)]

end Report

export Report (report part)

section

variable {α β : Type}

instance : Report Json := ⟨id⟩
instance : Report Unit := ⟨fun _ => .null⟩
instance : Report Bool := ⟨.bool⟩
instance : Report Nat := ⟨.nat⟩
instance : Report Int := ⟨.int⟩
instance : Report String := ⟨.text⟩
instance [Report α] : Report (Option α) := ⟨.option report⟩
instance [Report α] : Report (List α) := ⟨.list report⟩
instance [Report α] [Report β] : Report (α × β) := ⟨fun p => .array [report p.1, report p.2]⟩

instance [Report α] [Report β] : Report (Except α β) where
  report
    | .error e => report e
    | .ok a => report a

/-- A member is shown by its text. -/
instance : Report Member := ⟨fun m => .text m.text⟩

instance [Ord α] [Report α] : Report (OrdSet α) := ⟨fun s => report s.toList⟩
instance [Ord α] [Report α] [Report β] : Report (OrdMap α β) := ⟨fun m => report m.toList⟩

instance : Report Overflow := ⟨fun e => Report.failure "panic" e.message⟩

end
end DataGrid
