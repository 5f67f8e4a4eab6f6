import DataGrid.Counter

/-
Finite maps whose keys are kept in ascending order.

Keys that compare equal need not be identical, so two ways of writing are
told apart: `insert` keeps the key that is already there, `replace` takes the
new one. `find?_upsert_self` and `find?_upsert_other` say what a write does to
later look-ups; `ofList` builds a map from a whole list, the last of equal
keys winning.
-/

namespace DataGrid

variable {κ ν μ : Type} [Ord κ]

/-- Each key is smaller than all the keys after it. -/
def Ascending (l : List (κ × ν)) : Prop :=
  l.Pairwise fun a b => compare a.1 b.1 = .lt

structure OrdMap (κ ν : Type) [Ord κ] where
  toList : List (κ × ν)
  ascending : Ascending toList

namespace OrdMap

/-! ## On lists of pairs -/

def findIn (k : κ) : List (κ × ν) → Option ν
  | [] => none
  | (k', v) :: r => if compare k k' = .eq then some v else findIn k r

/-- Give `k` the value `f` makes of its present one. A key already there stays as it is. -/
def upsertIn (k : κ) (f : Option ν → ν) : List (κ × ν) → List (κ × ν)
  | [] => [(k, f none)]
  | (k', v) :: r =>
    match compare k k' with
    | .lt => (k, f none) :: (k', v) :: r
    | .eq => (k', f (some v)) :: r
    | .gt => (k', v) :: upsertIn k f r

/-- Write the pair `(k, v)`, in place of the one with an equal key if there is one. -/
def replaceIn (k : κ) (v : ν) : List (κ × ν) → List (κ × ν)
  | [] => [(k, v)]
  | (k', v') :: r =>
    match compare k k' with
    | .lt => (k, v) :: (k', v') :: r
    | .eq => (k, v) :: r
    | .gt => (k', v') :: replaceIn k v r

def eraseIn (k : κ) (l : List (κ × ν)) : List (κ × ν) :=
  l.filter fun p => compare k p.1 ≠ .eq

theorem mem_upsertIn {k : κ} {f : Option ν → ν} {p : κ × ν} {l : List (κ × ν)}
    (h : p ∈ upsertIn k f l) : p.1 = k ∨ ∃ q ∈ l, q.1 = p.1 := by
  induction l with
  | nil => simp only [upsertIn, List.mem_singleton] at h; exact .inl (by rw [h])
  | cons q r ih =>
    obtain ⟨k', v⟩ := q
    unfold upsertIn at h
    split at h
    · rcases List.mem_cons.1 h with rfl | h
      · exact .inl rfl
      · exact .inr ⟨p, h, rfl⟩
    · rcases List.mem_cons.1 h with rfl | h
      · exact .inr ⟨(k', v), by simp, rfl⟩
      · exact .inr ⟨p, List.mem_cons_of_mem _ h, rfl⟩
    · rcases List.mem_cons.1 h with rfl | h
      · exact .inr ⟨(k', v), by simp, rfl⟩
      · rcases ih h with h | ⟨q, hq, he⟩
        · exact .inl h
        · exact .inr ⟨q, List.mem_cons_of_mem _ hq, he⟩

theorem mem_replaceIn {k : κ} {v : ν} {p : κ × ν} {l : List (κ × ν)}
    (h : p ∈ replaceIn k v l) : p = (k, v) ∨ p ∈ l := by
  induction l with
  | nil => exact .inl (by simpa [replaceIn] using h)
  | cons q r ih =>
    obtain ⟨k', v'⟩ := q
    unfold replaceIn at h
    split at h
    · exact (List.mem_cons.1 h).imp id id
    · exact (List.mem_cons.1 h).imp id (List.mem_cons_of_mem _)
    · rcases List.mem_cons.1 h with rfl | h
      · exact .inr (by simp)
      · exact (ih h).imp id (List.mem_cons_of_mem _)

variable [Std.TransOrd κ]

theorem ascending_upsertIn (k : κ) (f : Option ν → ν) {l : List (κ × ν)} (h : Ascending l) :
    Ascending (upsertIn k f l) := by
  induction l with
  | nil => simp [upsertIn, Ascending]
  | cons q r ih =>
    obtain ⟨k', v⟩ := q
    have hr := List.pairwise_cons.1 h
    unfold upsertIn
    split
    · rename_i hlt
      refine List.pairwise_cons.2 ⟨fun p hp => ?_, h⟩
      rcases List.mem_cons.1 hp with rfl | hp
      · exact hlt
      · exact Std.TransCmp.lt_trans hlt (hr.1 p hp)
    · exact List.pairwise_cons.2 ⟨hr.1, hr.2⟩
    · rename_i hgt
      refine List.pairwise_cons.2 ⟨fun p hp => ?_, ih hr.2⟩
      rcases mem_upsertIn hp with he | ⟨q, hq, he⟩
      · simp only [he]; exact Std.OrientedCmp.lt_of_gt hgt
      · simp only [← he]; exact hr.1 q hq

theorem ascending_replaceIn (k : κ) (v : ν) {l : List (κ × ν)} (h : Ascending l) :
    Ascending (replaceIn k v l) := by
  induction l with
  | nil => simp [replaceIn, Ascending]
  | cons q r ih =>
    obtain ⟨k', v'⟩ := q
    have hr := List.pairwise_cons.1 h
    unfold replaceIn
    split
    · rename_i hlt
      refine List.pairwise_cons.2 ⟨fun p hp => ?_, h⟩
      rcases List.mem_cons.1 hp with rfl | hp
      · exact hlt
      · exact Std.TransCmp.lt_trans hlt (hr.1 p hp)
    · rename_i heq
      refine List.pairwise_cons.2 ⟨fun p hp => ?_, hr.2⟩
      simp only [Std.TransCmp.congr_left heq]
      exact hr.1 p hp
    · rename_i hgt
      refine List.pairwise_cons.2 ⟨fun p hp => ?_, ih hr.2⟩
      rcases mem_replaceIn hp with rfl | hp
      · exact Std.OrientedCmp.lt_of_gt hgt
      · exact hr.1 p hp

theorem findIn_upsertIn_self (k : κ) (f : Option ν → ν) (l : List (κ × ν)) (h : Ascending l) :
    findIn k (upsertIn k f l) = some (f (findIn k l)) := by
  induction l with
  | nil => simp [upsertIn, findIn]
  | cons q r ih =>
    obtain ⟨k', v⟩ := q
    have hr := List.pairwise_cons.1 h
    unfold upsertIn
    split
    · rename_i hlt
      have hnone : findIn k r = none := by
        clear ih h
        induction r with
        | nil => rfl
        | cons q r ih =>
          obtain ⟨k'', v''⟩ := q
          have h1 : compare k k'' = .lt := Std.TransCmp.lt_trans hlt (hr.1 (k'', v'') (by simp))
          have h2 := List.pairwise_cons.1 hr.2
          simp only [findIn, h1]
          exact ih ⟨fun p hp => hr.1 p (List.mem_cons_of_mem _ hp), h2.2⟩
      simp [findIn, hlt, hnone]
    · rename_i heq; simp [findIn, heq]
    · rename_i hgt; simp [findIn, hgt, ih hr.2]

theorem findIn_upsertIn_other {k k' : κ} (f : Option ν → ν) (l : List (κ × ν))
    (hne : compare k' k ≠ .eq) : findIn k' (upsertIn k f l) = findIn k' l := by
  induction l with
  | nil => simp [upsertIn, findIn, hne]
  | cons q r ih =>
    obtain ⟨k'', v⟩ := q
    unfold upsertIn
    split
    · simp [findIn, hne]
    · rename_i heq
      have : compare k' k'' ≠ .eq := by
        rw [← Std.TransCmp.congr_right heq]; exact hne
      simp [findIn, this]
    · simp only [findIn, ih]

/-! ## On maps -/

omit [Std.TransOrd κ] in
def empty : OrdMap κ ν := ⟨[], .nil⟩

def find? (m : OrdMap κ ν) (k : κ) : Option ν := findIn k m.toList

def contains (m : OrdMap κ ν) (k : κ) : Bool := (m.find? k).isSome

def size (m : OrdMap κ ν) : Nat := m.toList.length

def keys (m : OrdMap κ ν) : List κ := m.toList.map (·.1)

def values (m : OrdMap κ ν) : List ν := m.toList.map (·.2)

def upsert (m : OrdMap κ ν) (k : κ) (f : Option ν → ν) : OrdMap κ ν :=
  ⟨upsertIn k f m.toList, ascending_upsertIn k f m.ascending⟩

/-- Set the value of `k`. An equal key already there stays. -/
def insert (m : OrdMap κ ν) (k : κ) (v : ν) : OrdMap κ ν := m.upsert k fun _ => v

/-- Write the pair `(k, v)` in place of the one with an equal key. -/
def replace (m : OrdMap κ ν) (k : κ) (v : ν) : OrdMap κ ν :=
  ⟨replaceIn k v m.toList, ascending_replaceIn k v m.ascending⟩

/-- The map of a list of pairs: of equal keys the last is kept, with its value. -/
def ofList (l : List (κ × ν)) : OrdMap κ ν := l.foldl (fun m p => m.replace p.1 p.2) empty

def erase (m : OrdMap κ ν) (k : κ) : OrdMap κ ν :=
  ⟨eraseIn k m.toList, m.ascending.filter _⟩

def filter (m : OrdMap κ ν) (p : κ → ν → Bool) : OrdMap κ ν :=
  ⟨m.toList.filter fun q => p q.1 q.2, m.ascending.filter _⟩

def mapValues (m : OrdMap κ ν) (f : κ → ν → μ) : OrdMap κ μ :=
  ⟨m.toList.map fun q => (q.1, f q.1 q.2), by
    rw [Ascending, List.pairwise_map]; exact m.ascending⟩

/-- Change the value of `k`, if it has one. -/
def modify (m : OrdMap κ ν) (k : κ) (f : ν → ν) : OrdMap κ ν :=
  m.mapValues fun k' v => if compare k k' = .eq then f v else v

/-- Equal keys with equal values, whichever of the equal keys each map holds. -/
def same [BEq ν] (m n : OrdMap κ ν) : Bool :=
  m.size == n.size
    && (m.toList.zip n.toList).all fun (p, q) => compare p.1 q.1 == .eq && p.2 == q.2

theorem find?_upsert_self (m : OrdMap κ ν) (k : κ) (f : Option ν → ν) :
    (m.upsert k f).find? k = some (f (m.find? k)) :=
  findIn_upsertIn_self k f m.toList m.ascending

theorem find?_upsert_other (m : OrdMap κ ν) {k k' : κ} (f : Option ν → ν)
    (hne : compare k' k ≠ .eq) : (m.upsert k f).find? k' = m.find? k' :=
  findIn_upsertIn_other f m.toList hne

end OrdMap
end DataGrid
