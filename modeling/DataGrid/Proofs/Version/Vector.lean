import DataGrid.Version.Conflict
import DataGrid.Ordered.Lemmas
import DataGrid.Proofs.Version.Holder

/-
What a vector stands for: for each member a set of versions. Taking the next
version and recording one add a version of a member and forget none
(`VersionVector.Recorded`), and neither overflows while the versions fit.
-/

namespace DataGrid

open Counter

theorem Member.same_iff {m m' : Member} : m.same m' = true ↔ compare m m' = .eq := by
  simp [Member.same]

theorem Member.same_trans {a b c : Member} (h : a.same b = true) (h' : b.same c = true) :
    a.same c = true := by
  rw [Member.same_iff] at h h' ⊢
  exact Std.TransCmp.eq_trans h h'

namespace VersionVector

/-- All holders of the vector are in canonical form. -/
def Sound (v : VersionVector) : Prop := ∀ m h, v.holders.find? m = some h → h.Canonical

/-- The vector `v'` is `v` with one version of a member recorded besides. -/
structure Recorded (v : VersionVector) (m : Member) (version : Nat) (v' : VersionVector) : Prop where
  sound : v'.Sound
  owner : v'.owner = v.owner
  contains : ∀ m' w, v'.contains m' w = (v.contains m' w || (m'.same m && w == version))

theorem contains_eq_holderOf (v : VersionVector) (m : Member) (w : Nat) :
    v.contains m w = (v.holderOf m).contains w := by
  simp only [contains, holderOf]
  cases v.holders.find? m with
  | none => simp [Holder.contains_empty]
  | some h => rfl

theorem contains_congr (v : VersionVector) {m m' : Member} (hs : m.same m' = true) (w : Nat) :
    v.contains m w = v.contains m' w := by
  rw [Member.same_iff] at hs
  simp only [contains, OrdMap.find?_congr _ hs]

theorem Sound.holderOf {v : VersionVector} (hv : v.Sound) (m : Member) :
    (v.holderOf m).Canonical := by
  unfold VersionVector.holderOf
  cases h : v.holders.find? m with
  | none => exact Holder.canonical_empty
  | some x => exact hv m x h

/-- A new vector contains no version but the unassigned one. -/
theorem contains_new (m owner : Member) (w : Nat) :
    VersionVector.contains { owner := owner } m w = (w == 0) := rfl

theorem sound_new (owner : Member) : VersionVector.Sound { owner := owner } := by
  intro m h hf
  simp at hf

theorem Recorded.of_contains {v v' : VersionVector} {m : Member} {n : Nat}
    (h : v.Recorded m n v') : v'.contains m n = true := by
  rw [h.contains, Member.same_refl]
  simp

theorem Recorded.mono {v v' : VersionVector} {m m' : Member} {n w : Nat} (h : v.Recorded m n v')
    (hc : v.contains m' w = true) : v'.contains m' w = true := by
  rw [h.contains, hc, Bool.true_or]

/-- Recording a version that is there changes no answer. -/
theorem Recorded.contains_of_contains {v v' : VersionVector} {m : Member} {n : Nat}
    (h : v.Recorded m n v') (hc : v.contains m n = true) (m' : Member) (w : Nat) :
    v'.contains m' w = v.contains m' w := by
  rw [h.contains]
  cases hs : m'.same m with
  | false => simp
  | true =>
    cases hw : w == n with
    | false => simp
    | true =>
      rw [contains_congr v hs, eq_of_beq hw, hc]
      rfl

theorem recordIn_eq {v : VersionVector} (hv : v.Sound) (m : Member) {n : Nat}
    (hn : n ≤ counterMax) :
    ∃ v', v.recordIn m n = .ok (!v.contains m n, v') ∧ v.Recorded m n v' ∧
      v'.localVersion = v.localVersion ∧ v'.gcVersions = v.gcVersions := by
  obtain ⟨h', hrec, hcan, -, hcont⟩ := Holder.record_eq (hv.holderOf m) hn
  refine ⟨{ v with holders := v.holders.insert m h' }, ?_, ⟨?_, rfl, ?_⟩, rfl, rfl⟩
  · simp only [recordIn, hrec, contains_eq_holderOf, bind, Except.bind, pure, Except.pure]
  · intro m' h hf
    simp only [OrdMap.find?_insert] at hf
    split at hf
    · cases hf
      exact hcan
    · exact hv m' h hf
  · intro m' w
    simp only [contains_eq_holderOf, VersionVector.holderOf, OrdMap.find?_insert]
    by_cases he : compare m' m = .eq
    · have hs : m'.same m = true := Member.same_iff.2 he
      simp only [he, if_true, Option.getD_some, hcont, hs, Bool.true_and]
      rw [VersionVector.holderOf, OrdMap.find?_congr _ he]
    · have hs : m'.same m = false := by
        rw [Bool.eq_false_iff]
        exact fun h => he (Member.same_iff.1 h)
      simp only [he, if_false, hs, Bool.false_and, Bool.or_false]

/-- The next version of the owner is one more than the last. -/
theorem next_eq {v : VersionVector} (hv : v.Sound) (hl : v.localVersion < counterMax) :
    ∃ v', v.next = .ok (v.localVersion + 1, v') ∧ v.Recorded v.owner (v.localVersion + 1) v' ∧
      v'.localVersion = v.localVersion + 1 := by
  have hadd : add v.localVersion 1 = .ok (v.localVersion + 1) := add_eq_ok (by omega)
  obtain ⟨v', hrec, ⟨hsound, howner, hcont⟩, hlocal, -⟩ :=
    recordIn_eq (v := { v with localVersion := v.localVersion + 1 }) hv v.owner (n := v.localVersion + 1)
      (by omega)
  refine ⟨v', ?_, ⟨hsound, howner, hcont⟩, hlocal⟩
  simp only [next, hadd, hrec, bind, Except.bind, pure, Except.pure]

/-- A version that was taken is one more than the last, and recorded. -/
theorem of_next {v v' : VersionVector} {n : Nat} (hv : v.Sound) (h : v.next = .ok (n, v')) :
    n = v.localVersion + 1 ∧ n ≤ counterMax ∧ v.Recorded v.owner n v' := by
  obtain ⟨_, hadd, -⟩ := bind_ok h
  obtain ⟨rfl, hle⟩ := of_add hadd
  obtain ⟨u, hnext, hrec, -⟩ := next_eq hv hle
  rw [hnext] at h
  cases h
  exact ⟨rfl, hle, hrec⟩

theorem record_eq {v : VersionVector} (hv : v.Sound) (m : Member) {n : Nat} (hn : n ≤ counterMax) :
    ∃ v', v.record m n = .ok (!v.contains m n, v') ∧ v.Recorded m n v' ∧
      v'.localVersion = if m.same v.owner then max v.localVersion n else v.localVersion := by
  obtain ⟨v', hrec, ⟨hsound, howner, hcont⟩, hlocal, -⟩ :=
    recordIn_eq (v := { v with
      localVersion := if m.same v.owner then max v.localVersion n else v.localVersion }) hv m hn
  exact ⟨v', hrec, ⟨hsound, howner, hcont⟩, hlocal⟩

/-- The vector lets a tag for an absent key pass if it has not seen its region version. -/
theorem judgeAbsent_eq_apply_iff {v : VersionVector} {t : VersionTag} :
    v.judgeAbsent t = .apply ↔ v.containsTag t = false := by
  unfold judgeAbsent
  split <;> simp_all

end VersionVector
end DataGrid
