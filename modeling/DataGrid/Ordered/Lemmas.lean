import DataGrid.Ordered.Set

/-
What the operations on ordered maps and sets do to look-ups. Keys are told
apart by the order alone, so "another key" means one that does not compare
equal. A map or set made of all that another holds is that one again
(`OrdMap.ofList_toList`, `OrdSet.insertAll_toList`).
-/

namespace DataGrid

variable {κ ν μ : Type} [Ord κ]

namespace OrdMap

/-! ## On lists of pairs -/

theorem findIn_eq_some {k : κ} {v : ν} {l : List (κ × ν)} (h : findIn k l = some v) :
    ∃ k', compare k k' = .eq ∧ (k', v) ∈ l := by
  induction l with
  | nil => simp [findIn] at h
  | cons q r ih =>
    obtain ⟨k', v'⟩ := q
    unfold findIn at h
    split at h
    · rename_i he
      cases h
      exact ⟨k', he, List.mem_cons_self⟩
    · obtain ⟨k'', he, hm⟩ := ih h
      exact ⟨k'', he, List.mem_cons_of_mem _ hm⟩

theorem findIn_eq_none_iff {k : κ} {l : List (κ × ν)} :
    findIn k l = none ↔ ∀ p ∈ l, compare k p.1 ≠ .eq := by
  induction l with
  | nil => simp [findIn]
  | cons q r ih =>
    obtain ⟨k', v⟩ := q
    simp only [findIn, List.forall_mem_cons]
    split
    · rename_i he; simp [he]
    · rename_i he; simp [he, ih]

theorem findIn_map (k : κ) (f : ν → μ) (l : List (κ × ν)) :
    findIn k (l.map fun q => (q.1, f q.2)) = (findIn k l).map f := by
  induction l with
  | nil => rfl
  | cons q r ih =>
    obtain ⟨k', v⟩ := q
    simp only [List.map_cons, findIn]
    split
    · rfl
    · exact ih

variable [Std.TransOrd κ]

theorem findIn_of_mem {k k' : κ} {v : ν} {l : List (κ × ν)} (h : Ascending l) (hm : (k', v) ∈ l)
    (he : compare k k' = .eq) : findIn k l = some v := by
  induction l with
  | nil => simp at hm
  | cons q r ih =>
    obtain ⟨k'', v''⟩ := q
    have hr := List.pairwise_cons.1 h
    unfold findIn
    rcases List.mem_cons.1 hm with hq | hm
    · cases hq; simp [he]
    · have hlt : compare k'' k' = .lt := hr.1 (k', v) hm
      have hne : compare k k'' ≠ .eq := by
        intro heq
        have : compare k' k'' = .eq := by
          rw [← Std.TransCmp.congr_left he]; exact heq
        rw [Std.OrientedCmp.eq_symm this] at hlt
        cases hlt
      simp [hne, ih hr.2 hm]

theorem findIn_below {k : κ} {q : κ × ν} {r : List (κ × ν)} (h : Ascending (q :: r))
    (hlt : compare k q.1 = .lt) : findIn k (q :: r) = none := by
  refine findIn_eq_none_iff.2 fun p hp he => ?_
  rcases List.mem_cons.1 hp with rfl | hp
  · rw [hlt] at he
    cases he
  · have := Std.TransCmp.lt_trans hlt ((List.pairwise_cons.1 h).1 p hp)
    rw [this] at he
    cases he

theorem findIn_tail {k : κ} {q : κ × ν} {r : List (κ × ν)} (h : Ascending (q :: r)) :
    findIn k r = if compare k q.1 = .eq then none else findIn k (q :: r) := by
  split
  next he =>
    refine findIn_eq_none_iff.2 fun p hp heq => ?_
    have hlt := (List.pairwise_cons.1 h).1 p hp
    rw [← Std.TransCmp.congr_left he, heq] at hlt
    cases hlt
  next hne => simp only [findIn, hne, if_false]

/-! ## On maps -/

theorem find?_eq_some_iff (m : OrdMap κ ν) {k : κ} {v : ν} :
    m.find? k = some v ↔ ∃ k', compare k k' = .eq ∧ (k', v) ∈ m.toList :=
  ⟨findIn_eq_some, fun ⟨_, he, hm⟩ => findIn_of_mem m.ascending hm he⟩

/-- Keys that compare equal find the same. -/
theorem find?_congr (m : OrdMap κ ν) {k k' : κ} (he : compare k k' = .eq) :
    m.find? k = m.find? k' := by
  refine Option.ext fun v => ?_
  rw [find?_eq_some_iff, find?_eq_some_iff]
  simp only [Std.TransCmp.congr_left he]

omit [Std.TransOrd κ] in
@[simp] theorem find?_empty (k : κ) : (empty : OrdMap κ ν).find? k = none := rfl

@[simp] theorem find?_insert_self (m : OrdMap κ ν) (k : κ) (v : ν) :
    (m.insert k v).find? k = some v := m.find?_upsert_self k _

theorem find?_insert_other (m : OrdMap κ ν) {k k' : κ} (v : ν) (hne : compare k' k ≠ .eq) :
    (m.insert k v).find? k' = m.find? k' := m.find?_upsert_other _ hne

theorem find?_insert (m : OrdMap κ ν) (k k' : κ) (v : ν) :
    (m.insert k v).find? k' = if compare k' k = .eq then some v else m.find? k' := by
  split
  next he => rw [find?_congr _ he, find?_insert_self]
  next hne => exact m.find?_insert_other v hne

theorem find?_filter (m : OrdMap κ ν) (p : ν → Bool) (k : κ) :
    (m.filter fun _ v => p v).find? k = (m.find? k).filter p := by
  refine Option.ext fun v => ?_
  rw [find?_eq_some_iff, Option.filter_eq_some_iff, find?_eq_some_iff]
  simp only [filter, List.mem_filter]
  constructor
  · rintro ⟨k', he, hm, hp⟩; exact ⟨⟨k', he, hm⟩, hp⟩
  · rintro ⟨⟨k', he, hm⟩, hp⟩; exact ⟨k', he, hm, hp⟩

omit [Std.TransOrd κ] in
@[simp] theorem find?_erase_self (m : OrdMap κ ν) (k : κ) : (m.erase k).find? k = none := by
  rw [find?, findIn_eq_none_iff]
  intro p hp
  simpa using (List.mem_filter.1 hp).2

theorem find?_erase_other (m : OrdMap κ ν) {k k' : κ} (hne : compare k' k ≠ .eq) :
    (m.erase k).find? k' = m.find? k' := by
  refine Option.ext fun v => ?_
  rw [find?_eq_some_iff, find?_eq_some_iff]
  simp only [erase, eraseIn, List.mem_filter]
  constructor
  · rintro ⟨k'', he, hm, _⟩; exact ⟨k'', he, hm⟩
  · rintro ⟨k'', he, hm⟩
    refine ⟨k'', he, hm, ?_⟩
    have : compare k k'' ≠ .eq := by
      intro h
      apply hne
      rw [Std.TransCmp.congr_right h]; exact he
    simpa using this

omit [Std.TransOrd κ] in
theorem find?_mapValues (m : OrdMap κ ν) (f : ν → μ) (k : κ) :
    (m.mapValues fun _ v => f v).find? k = (m.find? k).map f := findIn_map k f m.toList

theorem contains_insert (m : OrdMap κ ν) (k k' : κ) (v : ν) :
    (m.insert k v).contains k' = (compare k' k == .eq || m.contains k') := by
  by_cases h : compare k' k = .eq <;> simp [contains, find?_insert, h]

theorem findIn_replaceIn_self (k : κ) (v : ν) {l : List (κ × ν)} (h : Ascending l) :
    findIn k (replaceIn k v l) = some v :=
  findIn_of_mem (ascending_replaceIn k v h) (by
    clear h
    induction l with
    | nil => simp [replaceIn]
    | cons q r ih =>
      unfold replaceIn
      split
      · exact List.mem_cons_self
      · exact List.mem_cons_self
      · exact List.mem_cons_of_mem _ ih) Std.ReflCmp.compare_self

theorem findIn_replaceIn_other {k k' : κ} (v : ν) (l : List (κ × ν)) (hne : compare k' k ≠ .eq) :
    findIn k' (replaceIn k v l) = findIn k' l := by
  induction l with
  | nil => simp [replaceIn, findIn, hne]
  | cons q r ih =>
    obtain ⟨k'', v'⟩ := q
    unfold replaceIn
    split
    · simp [findIn, hne]
    next he =>
      have : compare k' k'' ≠ .eq := by
        rw [← Std.TransCmp.congr_right he]
        exact hne
      simp [findIn, hne, this]
    · simp only [findIn, ih]

theorem find?_replace (m : OrdMap κ ν) (k k' : κ) (v : ν) :
    (m.replace k v).find? k' = if compare k' k = .eq then some v else m.find? k' := by
  split
  next he =>
    rw [find?_congr _ he]
    exact findIn_replaceIn_self k v m.ascending
  next hne => exact findIn_replaceIn_other v m.toList hne

/-! ## Values changed in place -/

omit [Std.TransOrd κ] in
theorem keys_mapValues (m : OrdMap κ ν) (f : κ → ν → μ) : (m.mapValues f).keys = m.keys := by
  simp [keys, mapValues]

omit [Std.TransOrd κ] in
theorem mapValues_mapValues {ξ : Type} (m : OrdMap κ ν) (f : κ → ν → μ) (g : κ → μ → ξ) :
    (m.mapValues f).mapValues g = m.mapValues fun k v => g k (f k v) := by
  simp [mapValues, Function.comp_def]

omit [Std.TransOrd κ] in
theorem mapValues_congr {m : OrdMap κ ν} {f g : κ → ν → μ}
    (h : ∀ k v, (k, v) ∈ m.toList → f k v = g k v) : m.mapValues f = m.mapValues g := by
  have hl : (m.toList.map fun q => (q.1, f q.1 q.2)) = m.toList.map fun q => (q.1, g q.1 q.2) :=
    List.map_congr_left fun q hq => by rw [h q.1 q.2 hq]
  simp only [mapValues, hl]

omit [Std.TransOrd κ] in
theorem mapValues_self {m : OrdMap κ ν} {f : κ → ν → ν}
    (h : ∀ k v, (k, v) ∈ m.toList → f k v = v) : m.mapValues f = m := by
  have hl : (m.toList.map fun q => (q.1, f q.1 q.2)) = m.toList := by
    refine (List.map_congr_left fun q hq => ?_).trans (List.map_id _)
    rw [h q.1 q.2 hq]
    rfl
  cases m
  simp only [mapValues, mk.injEq]
  exact hl

omit [Std.TransOrd κ] in
theorem modify_modify (m : OrdMap κ ν) (k : κ) (f g : ν → ν) :
    (m.modify k f).modify k g = m.modify k fun v => g (f v) := by
  rw [modify, modify, mapValues_mapValues]
  refine mapValues_congr fun k' v _ => ?_
  split <;> rfl

/-- Only the value that is there matters to a change. -/
theorem modify_congr {m : OrdMap κ ν} {k : κ} {f g : ν → ν}
    (h : ∀ v, m.find? k = some v → f v = g v) : m.modify k f = m.modify k g := by
  refine mapValues_congr fun k' v hm => ?_
  split
  next he => exact h v ((find?_eq_some_iff m).2 ⟨k', he, hm⟩)
  next => rfl

theorem modify_self {m : OrdMap κ ν} {k : κ} {f : ν → ν}
    (h : ∀ v, m.find? k = some v → f v = v) : m.modify k f = m := by
  refine mapValues_self fun k' v hm => ?_
  split
  next he => exact h v ((find?_eq_some_iff m).2 ⟨k', he, hm⟩)
  next => rfl

/-! ## Writing a whole list -/

/-- What a key has once an ascending list was written pair by pair. -/
theorem find?_foldl_upsert (f : Option μ → ν → μ) {l : List (κ × ν)} (h : Ascending l)
    (m : OrdMap κ μ) (k : κ) :
    (l.foldl (fun m p => m.upsert p.1 fun old => f old p.2) m).find? k =
      match findIn k l with
      | some v => some (f (m.find? k) v)
      | none => m.find? k := by
  induction l generalizing m with
  | nil => rfl
  | cons q r ih =>
    rw [List.foldl_cons, ih (List.pairwise_cons.1 h).2]
    by_cases he : compare k q.1 = .eq
    · have hnone : findIn k r = none := by rw [findIn_tail h, if_pos he]
      simp only [findIn, he, if_true, hnone, find?_congr _ he, find?_upsert_self]
    · simp only [findIn, he, if_false, find?_upsert_other _ _ he]

/-! ## Counting values -/

theorem countIn_upsertIn (k : κ) (f : Option ν → ν) (p : ν → Bool) {l : List (κ × ν)}
    (h : Ascending l) :
    ((upsertIn k f l).filter fun q => p q.2).length + (if (findIn k l).any p then 1 else 0) =
      (l.filter fun q => p q.2).length + if p (f (findIn k l)) then 1 else 0 := by
  induction l with
  | nil => by_cases hp : p (f none) <;> simp [upsertIn, findIn, hp]
  | cons q r ih =>
    obtain ⟨k', v⟩ := q
    have ih := ih (List.pairwise_cons.1 h).2
    unfold upsertIn
    split
    next hlt =>
      rw [findIn_below h hlt]
      by_cases hp : p (f none) <;> simp [hp]
    next heq =>
      simp only [findIn, heq, if_true, Option.any_some, List.filter_cons]
      by_cases hv : p v <;> by_cases hf : p (f (some v)) <;> simp [hv, hf]
    next hgt =>
      simp only [findIn, hgt, reduceCtorEq, if_false, List.filter_cons]
      by_cases hv : p v
      · simp only [hv, if_true, List.length_cons]
        omega
      · simpa only [hv, Bool.false_eq_true, if_false] using ih

omit [Std.TransOrd κ] in
theorem eraseIn_of_findIn {k : κ} {l : List (κ × ν)} (h : findIn k l = none) :
    eraseIn k l = l := by
  refine List.filter_eq_self.2 fun q hq => ?_
  simpa using findIn_eq_none_iff.1 h q hq

theorem countIn_eraseIn (k : κ) (p : ν → Bool) {l : List (κ × ν)} (h : Ascending l) :
    ((eraseIn k l).filter fun q => p q.2).length + (if (findIn k l).any p then 1 else 0) =
      (l.filter fun q => p q.2).length := by
  induction l with
  | nil => rfl
  | cons q r ih =>
    obtain ⟨k', v⟩ := q
    have ih := ih (List.pairwise_cons.1 h).2
    by_cases he : compare k k' = .eq
    · have hr : eraseIn k ((k', v) :: r) = r := by
        have htail := findIn_tail (k := k) h
        rw [if_pos he] at htail
        rw [← eraseIn_of_findIn htail]
        simp [eraseIn, he]
      simp only [hr, findIn, he, if_true, Option.any_some, List.filter_cons]
      by_cases hv : p v <;> simp [hv]
    · have hr : eraseIn k ((k', v) :: r) = (k', v) :: eraseIn k r := by simp [eraseIn, he]
      simp only [hr, findIn, he, if_false, List.filter_cons]
      by_cases hv : p v
      · simp only [hv, if_true, List.length_cons]
        omega
      · simpa only [hv, Bool.false_eq_true, if_false] using ih

/-- An insert makes up for the value that was there. -/
theorem size_filter_insert (m : OrdMap κ ν) (p : ν → Bool) (k : κ) (v : ν) :
    ((m.insert k v).filter fun _ w => p w).size + (if (m.find? k).any p then 1 else 0) =
      (m.filter fun _ w => p w).size + if p v then 1 else 0 :=
  countIn_upsertIn k (fun _ => v) p m.ascending

theorem size_filter_erase (m : OrdMap κ ν) (p : ν → Bool) (k : κ) :
    ((m.erase k).filter fun _ w => p w).size + (if (m.find? k).any p then 1 else 0) =
      (m.filter fun _ w => p w).size := countIn_eraseIn k p m.ascending

theorem size_erase (m : OrdMap κ ν) {k : κ} (h : m.contains k = true) :
    (m.erase k).size + 1 = m.size := by
  have hcount := m.size_filter_erase (fun _ => true) k
  have hall : ∀ n : OrdMap κ ν, (n.filter fun _ _ => true).size = n.size := fun n =>
    congrArg List.length (List.filter_eq_self.2 fun _ _ => rfl)
  obtain ⟨v, hv⟩ := Option.isSome_iff_exists.1 h
  simpa only [hall, hv, Option.any_some, if_true] using hcount

omit [Std.TransOrd κ] in
/-- The values of one kind are those that are also of another, and those that are not. -/
theorem size_filter_add (m : OrdMap κ ν) (p q : ν → Bool) :
    ((m.filter fun _ v => !p v).filter fun _ v => q v).size +
      (m.filter fun _ v => p v && q v).size = (m.filter fun _ v => q v).size := by
  have hsplit := m.toList.countP_eq_countP_filter_add (fun a => q a.2) fun a => p a.2
  have hboth : ((m.toList.filter fun a => p a.2).filter fun a => q a.2) =
      m.toList.filter fun a => p a.2 && q a.2 := by
    simp only [List.filter_filter, Bool.and_comm]
  simp only [List.countP_eq_length_filter, hboth] at hsplit
  rw [Nat.add_comm]
  exact hsplit.symm

/-! ## Maps with the same look-ups -/

/-- Ascending lists in which every key finds the same have equal keys with equal values, in the same
places. -/
theorem sameIn_of_findIn [BEq ν] [ReflBEq ν] {l l' : List (κ × ν)} (h : Ascending l)
    (h' : Ascending l') (hf : ∀ k, findIn k l = findIn k l') :
    (l.length == l'.length
      && (l.zip l').all fun (p, q) => compare p.1 q.1 == .eq && p.2 == q.2) = true := by
  induction l generalizing l' with
  | nil =>
    cases l' with
    | nil => rfl
    | cons q r' => simpa [findIn] using hf q.1
  | cons p r ih =>
    cases l' with
    | nil => simpa [findIn] using hf p.1
    | cons q r' =>
      have hfind := hf p.1
      have hfind' := hf q.1
      have he : compare p.1 q.1 = .eq := by
        cases hc : compare p.1 q.1 with
        | eq => rfl
        | lt =>
          rw [findIn_below h' hc] at hfind
          simp [findIn] at hfind
        | gt =>
          rw [findIn_below h (Std.OrientedCmp.lt_of_gt hc)] at hfind'
          simp [findIn] at hfind'
      have hv : p.2 = q.2 := by simpa [findIn, he] using hfind
      have hrest := ih (List.pairwise_cons.1 h).2 (List.pairwise_cons.1 h').2 fun k => by
        rw [findIn_tail h, findIn_tail h', hf, Std.TransCmp.congr_right he]
      simp only [Bool.and_eq_true, beq_iff_eq] at hrest
      simp [hrest, he, hv]

theorem same_of_find? [BEq ν] [ReflBEq ν] {m n : OrdMap κ ν} (h : ∀ k, m.find? k = n.find? k) :
    m.same n = true := sameIn_of_findIn m.ascending n.ascending h

section

variable [Std.LawfulEqOrd κ]

omit [Std.TransOrd κ] in
theorem findIn_map_key (k : κ) (f : κ → ν → μ) (l : List (κ × ν)) :
    findIn k (l.map fun q => (q.1, f q.1 q.2)) = (findIn k l).map (f k) := by
  induction l with
  | nil => rfl
  | cons q r ih =>
    simp only [List.map_cons, findIn, Std.compare_eq_iff_eq]
    split
    next he => rw [Std.compare_eq_iff_eq.1 he]; rfl
    next => exact ih

omit [Std.TransOrd κ] in
/-- Changes that depend on the key, where equal keys are identical. -/
theorem find?_mapValues_key (m : OrdMap κ ν) (f : κ → ν → μ) (k : κ) :
    (m.mapValues f).find? k = (m.find? k).map (f k) := findIn_map_key k f m.toList

omit [Std.TransOrd κ] in
theorem find?_modify [DecidableEq κ] (m : OrdMap κ ν) (k k' : κ) (f : ν → ν) :
    (m.modify k f).find? k' = if k' = k then (m.find? k').map f else m.find? k' := by
  rw [modify, find?_mapValues_key]
  by_cases he : k' = k
  · simp [he]
  · have hne : ¬ k = k' := fun h => he h.symm
    simp [he, hne]

theorem mem_toList_iff {m : OrdMap κ ν} {k : κ} {v : ν} :
    (k, v) ∈ m.toList ↔ m.find? k = some v := by
  rw [find?_eq_some_iff]
  simp

theorem mem_keys_iff {m : OrdMap κ ν} {k : κ} : k ∈ m.keys ↔ (m.find? k).isSome = true := by
  simp only [keys, List.mem_map, Option.isSome_iff_exists, ← mem_toList_iff]
  constructor
  · rintro ⟨⟨k, v⟩, h, rfl⟩
    exact ⟨v, h⟩
  · rintro ⟨v, h⟩
    exact ⟨(k, v), h, rfl⟩

theorem mem_values_iff {m : OrdMap κ ν} {v : ν} : v ∈ m.values ↔ ∃ k, m.find? k = some v := by
  simp only [values, List.mem_map, ← mem_toList_iff]
  constructor
  · rintro ⟨⟨k, v⟩, h, rfl⟩
    exact ⟨k, h⟩
  · rintro ⟨k, h⟩
    exact ⟨(k, v), h, rfl⟩

omit [Std.LawfulEqOrd κ] in
theorem nodup_keys (m : OrdMap κ ν) : m.keys.Nodup := by
  simp only [keys, List.Nodup, List.pairwise_map]
  refine m.ascending.imp fun {a b} hlt he => ?_
  have hself : compare b.1 b.1 = .eq := Std.ReflCmp.compare_self
  rw [he, hself] at hlt
  cases hlt

end

/-! ## Made of a list -/

omit [Std.TransOrd κ] in
theorem toList_injective {m n : OrdMap κ ν} (h : m.toList = n.toList) : m = n := by
  cases m
  cases n
  cases h
  rfl

/-- Where keys that compare equal are equal, a map is known by its look-ups. -/
theorem eq_of_find? [Std.LawfulEqOrd κ] {m n : OrdMap κ ν} (h : ∀ k, m.find? k = n.find? k) :
    m = n := by
  have hnodup : ∀ m : OrdMap κ ν, m.toList.Nodup := fun m =>
    List.Pairwise.of_map _ (fun _ _ hne heq => hne (congrArg Prod.fst heq)) m.nodup_keys
  have hmem : ∀ p : κ × ν, p ∈ m.toList ↔ p ∈ n.toList := fun ⟨k, v⟩ => by
    rw [mem_toList_iff, mem_toList_iff, h]
  have hperm := (List.perm_ext_iff_of_nodup (hnodup m) (hnodup n)).2 hmem
  refine toList_injective (hperm.eq_of_pairwise (fun a b _ _ hlt hgt => ?_) m.ascending n.ascending)
  rw [Std.OrientedCmp.gt_of_lt hlt] at hgt
  cases hgt

theorem upsertIn_above {k : κ} (f : Option ν → ν) {l : List (κ × ν)}
    (h : ∀ p ∈ l, compare p.1 k = .lt) : upsertIn k f l = l ++ [(k, f none)] := by
  induction l with
  | nil => rfl
  | cons p l ih =>
    have hgt : compare k p.1 = .gt := Std.OrientedCmp.gt_of_lt (h p (.head _))
    simp only [upsertIn, hgt, ih fun q hq => h q (.tail _ hq), List.cons_append]

theorem replaceIn_above {k : κ} {v : ν} {l : List (κ × ν)}
    (h : ∀ p ∈ l, compare p.1 k = .lt) : replaceIn k v l = l ++ [(k, v)] := by
  induction l with
  | nil => rfl
  | cons p l ih =>
    have hgt : compare k p.1 = .gt := Std.OrientedCmp.gt_of_lt (h p (.head _))
    simp only [replaceIn, hgt, ih fun q hq => h q (.tail _ hq), List.cons_append]

omit [Std.TransOrd κ] in
/-- Pairs that are put in in ascending order end up behind each other, if each goes last. -/
theorem foldl_above {put : OrdMap κ ν → κ × ν → OrdMap κ ν}
    (hput : ∀ m p, (∀ q ∈ m.toList, compare q.1 p.1 = .lt) → (put m p).toList = m.toList ++ [p])
    {l : List (κ × ν)} {m : OrdMap κ ν} (h : Ascending (m.toList ++ l)) :
    (l.foldl put m).toList = m.toList ++ l := by
  induction l generalizing m with
  | nil => exact (List.append_nil _).symm
  | cons p l ih =>
    have hlist : (put m p).toList = m.toList ++ [p] :=
      hput m p fun q hq => (List.pairwise_append.1 h).2.2 q hq p (.head _)
    have happend : (put m p).toList ++ l = m.toList ++ p :: l := by
      rw [hlist, List.append_assoc]
      rfl
    rw [List.foldl_cons, ih (by rwa [happend]), happend]

theorem ofList_toList (m : OrdMap κ ν) : ofList m.toList = m :=
  toList_injective (foldl_above (fun _ _ => replaceIn_above) m.ascending)

end OrdMap

namespace OrdSet

variable [Std.TransOrd κ]

theorem contains_insert (s : OrdSet κ) (k k' : κ) :
    (s.insert k).contains k' = (compare k' k == .eq || s.contains k') :=
  s.map.contains_insert k k' ()

omit [Std.TransOrd κ] in
@[simp] theorem contains_erase_self (s : OrdSet κ) (k : κ) : (s.erase k).contains k = false := by
  simp [contains, erase, OrdMap.contains]

theorem contains_erase_other (s : OrdSet κ) {k k' : κ} (hne : compare k' k ≠ .eq) :
    (s.erase k).contains k' = s.contains k' := by
  simp [contains, erase, OrdMap.contains, s.map.find?_erase_other hne]

/-- Elements that compare equal are in the same sets. -/
theorem contains_congr (s : OrdSet κ) {k k' : κ} (he : compare k k' = .eq) :
    s.contains k = s.contains k' := by
  simp only [contains, OrdMap.contains, OrdMap.find?_congr _ he]

theorem contains_iff_mem (s : OrdSet κ) (k : κ) :
    s.contains k = true ↔ ∃ k' ∈ s.toList, compare k k' = .eq := by
  simp only [contains, OrdMap.contains, Option.isSome_iff_exists, OrdMap.find?_eq_some_iff, toList,
    OrdMap.keys, List.mem_map]
  constructor
  · rintro ⟨v, k', he, hm⟩
    exact ⟨k', ⟨_, hm, rfl⟩, he⟩
  · rintro ⟨_, ⟨⟨k', v⟩, hm, rfl⟩, he⟩
    exact ⟨v, k', he, hm⟩

theorem isEmpty_of_contains {s : OrdSet κ} (h : ∀ k, s.contains k = false) : s.isEmpty = true := by
  simp only [isEmpty, size, OrdMap.size, beq_iff_eq, List.length_eq_zero_iff]
  refine List.eq_nil_iff_forall_not_mem.2 fun q hq => ?_
  have hc : s.contains q.1 = true :=
    (s.contains_iff_mem q.1).2 ⟨q.1, List.mem_map_of_mem hq, Std.ReflCmp.compare_self⟩
  rw [h] at hc
  cases hc

theorem contains_of_isEmpty {s : OrdSet κ} (h : s.isEmpty = true) (k : κ) :
    s.contains k = false := by
  rw [Bool.eq_false_iff]
  intro hc
  obtain ⟨k', hk', -⟩ := (s.contains_iff_mem k).1 hc
  have hnil : s.map.toList = [] := by simpa [isEmpty, size, OrdMap.size] using h
  simp [toList, OrdMap.keys, hnil] at hk'

omit [Std.TransOrd κ] in
/-- The elements of a set do not compare equal. -/
theorem pairwise_toList (s : OrdSet κ) : s.toList.Pairwise fun a b => compare a b ≠ .eq := by
  simp only [toList, OrdMap.keys, List.pairwise_map]
  refine s.map.ascending.imp fun {a b} hlt he => ?_
  rw [hlt] at he
  cases he

theorem size_erase (s : OrdSet κ) (k : κ) :
    (s.erase k).size + (if s.contains k then 1 else 0) = s.size := by
  cases hc : s.contains k with
  | true => exact s.map.size_erase hc
  | false =>
    have hnone : OrdMap.findIn k s.map.toList = none :=
      Option.isNone_iff_eq_none.1 (Option.isSome_eq_false_iff.1 hc)
    exact congrArg List.length (OrdMap.eraseIn_of_findIn hnone)

theorem contains_ofList (l : List κ) (k : κ) :
    (ofList l).contains k = true ↔ ∃ k' ∈ l, compare k k' = .eq := by
  have hfold : ∀ (l : List κ) (m : OrdMap κ Unit),
      ((l.map fun k => (k, ())).foldl (fun m p => m.replace p.1 p.2) m).contains k = true ↔
        (∃ k' ∈ l, compare k k' = .eq) ∨ m.contains k = true := by
    intro l
    induction l with
    | nil => simp
    | cons x r ih =>
      intro m
      rw [List.map_cons, List.foldl_cons, ih]
      simp only [OrdMap.contains, OrdMap.find?_replace, List.mem_cons, exists_eq_or_imp]
      by_cases he : compare k x = .eq <;> simp [he]
  simp only [contains, ofList, OrdMap.ofList, hfold]
  simp [OrdMap.contains]

theorem insertAll_toList (s : OrdSet κ) : empty.insertAll s.toList = s := by
  have hpairs : (empty.insertAll s.toList).map =
      s.map.toList.foldl (fun m p => m.insert p.1 ()) .empty := by
    rw [insertAll, toList, OrdMap.keys, List.foldl_map]
    exact (List.foldl_hom OrdSet.map fun _ _ => rfl).symm
  have hmap : (empty.insertAll s.toList).map = s.map := by
    rw [hpairs]
    exact OrdMap.toList_injective
      (OrdMap.foldl_above (fun _ _ => OrdMap.upsertIn_above _) s.map.ascending)
  exact congrArg OrdSet.mk hmap

end OrdSet
end DataGrid
