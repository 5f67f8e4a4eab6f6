import DataGrid.Proofs.Address.RoundTrip
import DataGrid.Proofs.Version.Vector

/-
The order of members, level by level (`compare_levels`), and that equality and
hash go with it: members are the same just if they agree in what the levels
look at (`same_iff_agree`), and are then fed to a hash as the same bytes.

That the order is transitive is in the type: each level is a transitive order
of its own, and so is their chain.
-/

namespace DataGrid.Member

variable {a b : Member}

/-- The last level compares tags, and views only where neither member has a tag. -/
theorem compare_last (a b : Member) :
    (compare a.tag b.tag).then (compare a.orderedView b.orderedView) =
      match a.tag, b.tag with
      | none, none => compare a.viewId b.viewId
      | none, some _ => .lt
      | some _, none => .gt
      | some s, some t => compare s t := by
  cases ha : a.tag with
  | none =>
    cases hb : b.tag with
    | none => simp [orderedView, ha, hb]
    | some t => rfl
  | some s =>
    cases hb : b.tag with
    | none => rfl
    | some t =>
      have hview : compare a.orderedView b.orderedView = .eq := by simp [orderedView, ha, hb]
      rw [hview, Ordering.then_eq]
      rfl

/-- The levels of the order, one after the other. -/
theorem compare_levels (a b : Member) :
    compare a b =
      ((compare a.port b.port).then <|
        (compare a.address.octets b.address.octets).then <|
        (compare a.name b.name).then <|
        match a.tag, b.tag with
        | none, none => compare a.viewId b.viewId
        | none, some _ => .lt
        | some _, none => .gt
        | some s, some t => compare s t) := by
  rw [← compare_last]
  rfl

/-- The same tag, or none and the same view. -/
def SameMark (a b : Member) : Prop :=
  (∃ t, a.tag = some t ∧ b.tag = some t) ∨ (a.tag = none ∧ b.tag = none ∧ a.viewId = b.viewId)

/-- Members are the same just if they agree at every level. -/
theorem same_iff_agree :
    a.same b = true ↔
      a.port = b.port ∧ a.address = b.address ∧ a.name = b.name ∧ a.SameMark b := by
  have haddress : a.address.octets = b.address.octets ↔ a.address = b.address :=
    ⟨Address.octets_injective, congrArg Address.octets⟩
  rw [same_iff, compare_levels]
  cases ha : a.tag with
  | none => cases hb : b.tag <;> simp [SameMark, ha, hb, Ordering.then_eq_eq, haddress]
  | some s =>
    cases hb : b.tag with
    | none => simp [SameMark, ha, hb, Ordering.then_eq_eq]
    | some t => simp [SameMark, ha, hb, Ordering.then_eq_eq, haddress, eq_comm (a := t)]

/-- Members that are the same are fed to a hash as the same bytes. -/
theorem hashBytes_of_same (h : a.same b = true) : a.hashBytes = b.hashBytes := by
  obtain ⟨hport, haddress, hname, hmark⟩ := same_iff_agree.1 h
  rcases hmark with ⟨t, ha, hb⟩ | ⟨ha, hb, hview⟩
  · simp only [hashBytes, hport, haddress, hname, ha, hb]
  · simp only [hashBytes, hport, haddress, hname, ha, hb, hview]

/--
The order of members is total and its equality an equality: it is reflexive, turns about
when the members are exchanged, is antisymmetric up to `same`, transitive and total. Members
are the same just if port, address and name agree and they have the same tag, or neither has
one and their views agree; the process never matters, and the view of a tagged member does
not. The same members are fed to a hash as the same bytes, and stand alike to every third.
-/
theorem order_lawful (a b c : Member) :
    compare a a = .eq ∧
      compare b a = (compare a b).swap ∧
      ((compare a b).isLE = true → (compare b a).isLE = true → a.same b = true) ∧
      ((compare a b).isLE = true → (compare b c).isLE = true → (compare a c).isLE = true) ∧
      ((compare a b).isLE = true ∨ (compare b a).isLE = true) ∧
      (a.same b = true ↔
        a.port = b.port ∧ a.address = b.address ∧ a.name = b.name ∧ a.SameMark b) ∧
      (a.same b = true → a.hashBytes = b.hashBytes ∧ compare a c = compare b c ∧
        compare c a = compare c b) := by
  have hswap : compare b a = (compare a b).swap := Std.OrientedCmp.eq_swap
  refine ⟨Std.ReflCmp.compare_self, hswap, fun hab hba => ?_, Std.TransCmp.isLE_trans, ?_,
    same_iff_agree, fun h => ?_⟩
  · rw [hswap] at hba
    rw [same_iff]
    cases hcmp : compare a b <;> simp_all
  · rw [hswap]
    cases compare a b <;> simp
  · have heq : compare a b = .eq := same_iff.1 h
    exact ⟨hashBytes_of_same h, Std.TransCmp.congr_left heq, Std.TransCmp.congr_right heq⟩

def unspecified : Member :=
  { address := .v6 (.replicate 8 0), port := 7, viewId := 3, name := some "a", tag := some "x" }

/-- Another process under the same tag, which joined later. -/
def restarted : Member := { unspecified with processId := 41, viewId := 9 }

def untagged : Member := { address := .v4 10 0 0 1, port := 7, viewId := 2 }

def named : Member := { untagged with name := some "a" }

/-- Addresses of both kinds, with and without names and tags. -/
theorem order_lawful_mixed :
    (compare unspecified untagged).isLE = true ∧ (compare untagged named).isLE = true ∧
      (compare unspecified named).isLE = true ∧ unspecified.same restarted = true ∧
      unspecified.hashBytes = restarted.hashBytes ∧
      compare named unspecified = compare named restarted := by
  have hfirst : (compare unspecified untagged).isLE = true := by decide
  have hsecond : (compare untagged named).isLE = true := by decide
  obtain ⟨-, -, -, htrans, -⟩ := order_lawful unspecified untagged named
  obtain ⟨-, -, hanti, -, -, -, hsame⟩ := order_lawful unspecified restarted named
  have hle : unspecified.same restarted = true := hanti (by decide) (by decide)
  obtain ⟨hhash, -, hthird⟩ := hsame hle
  exact ⟨hfirst, hsecond, htrans hfirst hsecond, hle, hhash, hthird⟩

end DataGrid.Member
