import DataGrid.Proofs.Version.Lattice
import DataGrid.Proofs.Version.Vector
import Mathlib.Data.List.Basic

/-
Vectors under merging. Member by member the holders are merged, and of the
versions up to which tombstones may go the higher is kept
(`VersionVector.merge_eq`). A member that is not known, and one of which
nothing was received, are alike for what is contained and not for whether two
vectors are the same; but the members known are united as the versions are, so
the laws of holders hold of vectors too.

They need the counter of each vector to be the highest version of its owner
(`VersionVector.Abreast`), which no call on a vector ends.
-/

namespace DataGrid

open Counter

namespace VersionVector

/-! ## What a vector contains -/

variable {u v w : VersionVector}

theorem contains_of_find? {m : Member} {h : Holder} (hf : v.holders.find? m = some h) (n : Nat) :
    v.contains m n = h.contains n := by
  simp only [contains, hf]

@[simp] theorem contains_zero (v : VersionVector) (m : Member) : v.contains m 0 = true := by
  rw [contains_eq_holderOf, Holder.contains_zero]

/-- The highest version recorded of a member is the greatest one contained. -/
theorem Sound.versionOf (hv : v.Sound) (m : Member) :
    v.contains m (v.versionOf m) = true ∧ ∀ n, v.contains m n = true → n ≤ v.versionOf m := by
  simp only [contains_eq_holderOf]
  exact (hv.holderOf m).greatest

theorem Sound.versionOf_mono (hv : v.Sound) (hw : w.Sound) {m : Member}
    (h : ∀ n, v.contains m n = true → w.contains m n = true) : v.versionOf m ≤ w.versionOf m :=
  (hw.versionOf m).2 _ (h _ (hv.versionOf m).1)

theorem versionOf_congr (v : VersionVector) {m m' : Member} (hs : m.same m' = true) :
    v.versionOf m = v.versionOf m' := by
  rw [Member.same_iff] at hs
  simp only [VersionVector.versionOf, VersionVector.holderOf, OrdMap.find?_congr _ hs]

/-- Holders are the same where the same members are known with the same versions. -/
theorem Sound.find?_ext (hv : v.Sound) (hw : w.Sound)
    (hknown : ∀ m, (v.holders.find? m).isSome = (w.holders.find? m).isSome)
    (hcont : ∀ m n, v.contains m n = w.contains m n) (m : Member) :
    v.holders.find? m = w.holders.find? m := by
  have hk := hknown m
  cases hfv : v.holders.find? m with
  | none =>
    rw [hfv, Option.isSome_none] at hk
    exact (Option.isNone_iff_eq_none.1 (by rw [← Option.not_isSome, ← hk, Bool.not_false])).symm
  | some h =>
    rw [hfv, Option.isSome_some] at hk
    obtain ⟨h', hfw⟩ := Option.isSome_iff_exists.1 hk.symm
    have heq : h = h' := (hv m h hfv).ext (hw m h' hfw) fun n => by
      rw [← contains_of_find? hfv, ← contains_of_find? hfw, hcont]
    rw [hfw, heq]

/-- A vector whose counter is the highest version of its owner. -/
structure Abreast (v : VersionVector) : Prop where
  sound : v.Sound
  counter : v.localVersion = v.versionOf v.owner

/-- Such vectors are the same if they have the same owner, know the same members, and contain the
same versions. -/
theorem Abreast.same (hv : v.Abreast) (hw : w.Abreast) (howner : v.owner.same w.owner = true)
    (hknown : ∀ m, (v.holders.find? m).isSome = (w.holders.find? m).isSome)
    (hcont : ∀ m n, v.contains m n = w.contains m n)
    (hgc : ∀ m, v.gcVersions.find? m = w.gcVersions.find? m) : v.same w = true := by
  have hfind := hv.sound.find?_ext hw.sound hknown hcont
  have hlocal : v.localVersion = w.localVersion := by
    rw [hv.counter, hw.counter, versionOf_congr v howner]
    simp only [VersionVector.versionOf, VersionVector.holderOf, hfind]
  simp only [VersionVector.same, howner, hlocal, BEq.rfl, OrdMap.same_of_find? hfind,
    OrdMap.same_of_find? hgc, Bool.and_self]

/-! ## Merging -/

theorem Sound.mergeHolder (hv : v.Sound) {p : Member × Holder} (hp : p.2.Canonical) :
    ∃ holders, mergeHolder v.holders p = .ok holders ∧ Sound { v with holders := holders } ∧
      (∀ m, (holders.find? m).isSome = ((v.holders.find? m).isSome || m.same p.1)) ∧
      ∀ m n, contains { v with holders := holders } m n =
        (v.contains m n || (m.same p.1 && p.2.contains n)) := by
  obtain ⟨h, hmerge, hu⟩ := Holder.merge_eq (hv.holderOf p.1) hp
  refine ⟨v.holders.insert p.1 h, ?_, fun m h' hf => ?_, fun m => ?_, fun m n => ?_⟩
  · simp only [VersionVector.holderOf] at hmerge
    simp only [VersionVector.mergeHolder, hmerge, bind, Except.bind, pure, Except.pure]
  · simp only [OrdMap.find?_insert] at hf
    split at hf
    · cases hf
      exact hu.canonical
    · exact hv m h' hf
  · rw [OrdMap.find?_insert]
    by_cases he : compare m p.1 = .eq <;> simp [Member.same, he]
  · simp only [contains_eq_holderOf, VersionVector.holderOf, OrdMap.find?_insert]
    by_cases he : compare m p.1 = .eq
    · simp only [he, if_true, Option.getD_some, hu.contains, Member.same, BEq.rfl, Bool.true_and]
      rw [VersionVector.holderOf, OrdMap.find?_congr _ he]
    · have hs : m.same p.1 = false := by simpa [Member.same] using he
      simp only [he, if_false, hs, Bool.false_and, Bool.or_false]

/-- All holders of a list are taken in. -/
theorem Sound.mergeHolders (hv : v.Sound) {l : List (Member × Holder)}
    (hl : ∀ p ∈ l, p.2.Canonical) :
    ∃ holders, l.foldlM VersionVector.mergeHolder v.holders = .ok holders ∧
      Sound { v with holders := holders } ∧
      (∀ m, (holders.find? m).isSome = true ↔
        (v.holders.find? m).isSome = true ∨ ∃ p ∈ l, m.same p.1 = true) ∧
      ∀ m n, contains { v with holders := holders } m n = true ↔
        v.contains m n = true ∨ ∃ p ∈ l, m.same p.1 = true ∧ p.2.contains n = true := by
  induction l generalizing v with
  | nil => exact ⟨v.holders, rfl, hv, by simp, by simp⟩
  | cons p r ih =>
    obtain ⟨hs, hstep, hsound, hknown, hcont⟩ := hv.mergeHolder (hl p List.mem_cons_self)
    obtain ⟨hs', hrest, hsound', hknown', hcont'⟩ :=
      ih hsound fun q hq => hl q (List.mem_cons_of_mem _ hq)
    refine ⟨hs', ?_, hsound', fun m => ?_, fun m n => ?_⟩
    · simp only [List.foldlM_cons, hstep, bind, Except.bind]
      exact hrest
    · rw [hknown', hknown, Bool.or_eq_true, List.exists_mem_cons_iff, or_assoc]
    · rw [hcont', hcont, Bool.or_eq_true, Bool.and_eq_true, List.exists_mem_cons_iff, or_assoc]

/-- The vector `u` is `v` with everything that `other` has recorded. -/
structure Merged (v other u : VersionVector) : Prop where
  sound : u.Sound
  owner : u.owner = v.owner
  counter : u.localVersion = max v.localVersion (u.versionOf v.owner)
  known : ∀ m, (u.holders.find? m).isSome =
    ((v.holders.find? m).isSome || (other.holders.find? m).isSome)
  contains : ∀ m n, u.contains m n = (v.contains m n || other.contains m n)
  gc : ∀ m, u.gcVersions.find? m = (v.gcVersions.find? m).merge max (other.gcVersions.find? m)

/-- The holders of a vector, pair by pair. -/
theorem mem_holders {m : Member} (v : VersionVector) :
    ((v.holders.find? m).isSome = true ↔ ∃ p ∈ v.holders.toList, m.same p.1 = true) ∧
      ∀ n, v.contains m n = true ↔
        n = 0 ∨ ∃ p ∈ v.holders.toList, m.same p.1 = true ∧ p.2.contains n = true := by
  have hmem : ∀ h, v.holders.find? m = some h ↔ ∃ p ∈ v.holders.toList, m.same p.1 = true ∧ p.2 = h := by
    intro h
    rw [OrdMap.find?_eq_some_iff]
    constructor
    · rintro ⟨k, he, hk⟩
      exact ⟨(k, h), hk, Member.same_iff.2 he, rfl⟩
    · rintro ⟨p, hp, hs, rfl⟩
      exact ⟨p.1, Member.same_iff.1 hs, hp⟩
  refine ⟨?_, fun n => ?_⟩
  · rw [Option.isSome_iff_exists]
    constructor
    · rintro ⟨h, hf⟩
      obtain ⟨p, hp, hs, -⟩ := (hmem h).1 hf
      exact ⟨p, hp, hs⟩
    · rintro ⟨p, hp, hs⟩
      exact ⟨p.2, (hmem p.2).2 ⟨p, hp, hs, rfl⟩⟩
  · constructor
    · intro hc
      cases hf : v.holders.find? m with
      | none =>
        simp only [VersionVector.contains, hf] at hc
        exact .inl (eq_of_beq hc)
      | some h =>
        obtain ⟨p, hp, hs, rfl⟩ := (hmem h).1 hf
        exact .inr ⟨p, hp, hs, by rw [← contains_of_find? hf, hc]⟩
    · rintro (rfl | ⟨p, hp, hs, hc⟩)
      · exact contains_zero v m
      · rw [contains_of_find? ((hmem p.2).2 ⟨p, hp, hs, rfl⟩), hc]

theorem Sound.canonical_of_mem (hv : v.Sound) {p : Member × Holder} (hp : p ∈ v.holders.toList) :
    p.2.Canonical :=
  hv p.1 p.2 ((OrdMap.find?_eq_some_iff _).2 ⟨p.1, Std.ReflCmp.compare_self, hp⟩)

theorem merge_eq (hv : v.Sound) (hw : w.Sound) : ∃ u, v.merge w = .ok u ∧ Merged v w u := by
  obtain ⟨holders, hrun, hsound, hknown, hcont⟩ :=
    hv.mergeHolders fun p hp => hw.canonical_of_mem hp
  have hmerge : v.merge w = .ok { v with
      localVersion := max v.localVersion ((holders.find? v.owner).getD {}).version
      holders := holders
      gcVersions := w.gcVersions.toList.foldl
        (fun gc p => gc.upsert p.1 fun old => max (old.getD 0) p.2) v.gcVersions } := by
    simp only [merge, hrun, bind, Except.bind, pure, Except.pure]
  refine ⟨_, hmerge, hsound, rfl, rfl, fun m => ?_, fun m n => ?_, fun m => ?_⟩
  · rw [Bool.eq_iff_iff, Bool.or_eq_true, (mem_holders w).1]
    exact hknown m
  · rw [Bool.eq_iff_iff, Bool.or_eq_true, (mem_holders w).2]
    refine (hcont m n).trans ?_
    constructor
    · rintro (h | h)
      · exact .inl h
      · exact .inr (.inr h)
    · rintro (h | rfl | h)
      · exact .inl h
      · exact .inl (contains_zero v m)
      · exact .inr h
  · refine (OrdMap.find?_foldl_upsert (fun old n => max (old.getD 0) n) w.gcVersions.ascending
      v.gcVersions m).trans ?_
    rw [show OrdMap.findIn m w.gcVersions.toList = w.gcVersions.find? m from rfl]
    cases v.gcVersions.find? m <;> cases w.gcVersions.find? m <;> simp [Option.merge]

/-! ## Laws of merging -/

variable {a b c ab ba bc abc abc' : VersionVector}

theorem Merged.mono_left (h : Merged a b ab) {m : Member} {n : Nat} (hc : a.contains m n = true) :
    ab.contains m n = true := by rw [h.contains, hc, Bool.true_or]

theorem Merged.gcVersion (h : Merged a b ab) (m : Member) :
    ab.gcVersion m = max (a.gcVersion m) (b.gcVersion m) := by
  simp only [VersionVector.gcVersion, h.gc]
  cases a.gcVersions.find? m <;> cases b.gcVersions.find? m <;> simp [Option.merge]

theorem Merged.abreast (ha : a.Abreast) (h : Merged a b ab) : ab.Abreast := by
  have hle := ha.sound.versionOf_mono h.sound (m := a.owner) fun _ => h.mono_left
  refine ⟨h.sound, ?_⟩
  rw [h.counter, h.owner, ha.counter]
  exact Nat.max_eq_right hle

/-- In which order two vectors of one owner are merged does not matter. -/
theorem Merged.comm (ha : a.Abreast) (hb : b.Abreast) (howner : a.owner.same b.owner = true)
    (h : Merged a b ab) (h' : Merged b a ba) : ab.same ba = true := by
  refine (h.abreast ha).same (h'.abreast hb) (by rw [h.owner, h'.owner, howner]) (fun m => ?_)
    (fun m n => ?_) fun m => ?_
  · rw [h.known, h'.known, Bool.or_comm]
  · rw [h.contains, h'.contains, Bool.or_comm]
  · have hcomm : Std.Commutative (Option.merge (max : Nat → Nat → Nat)) := inferInstance
    rw [h.gc, h'.gc, hcomm.comm]

/-- Nor does it matter how three vectors are grouped. -/
theorem Merged.assoc (ha : a.Abreast) (hab : Merged a b ab) (hbc : Merged b c bc)
    (h : Merged ab c abc) (h' : Merged a bc abc') : abc.same abc' = true := by
  refine (h.abreast (hab.abreast ha)).same (h'.abreast ha) ?_ (fun m => ?_) (fun m n => ?_)
    fun m => ?_
  · rw [h.owner, h'.owner, hab.owner, Member.same_refl]
  · rw [h.known, h'.known, hab.known, hbc.known, Bool.or_assoc]
  · rw [h.contains, h'.contains, hab.contains, hbc.contains, Bool.or_assoc]
  · have hassoc : Std.Associative (Option.merge (max : Nat → Nat → Nat)) := inferInstance
    rw [h.gc, h'.gc, hab.gc, hbc.gc, hassoc.assoc]

/-- A vector gains nothing from itself. -/
theorem Merged.self (ha : a.Abreast) (h : Merged a a ab) : ab.same a = true := by
  refine (h.abreast ha).same ha (by rw [h.owner, Member.same_refl]) (fun m => ?_) (fun m n => ?_)
    fun m => ?_
  · rw [h.known, Bool.or_self]
  · rw [h.contains, Bool.or_self]
  · have hself : Std.IdempotentOp (Option.merge (max : Nat → Nat → Nat)) := inferInstance
    rw [h.gc, hself.idempotent]

/-! ## Domination is inclusion -/

/-- Whether everything that one holder has received of a member was received here. -/
def dominatesHolder (v : VersionVector) (p : Member × Holder) : Checked Bool :=
  match v.holders.find? p.1 with
  | some mine => mine.dominates p.2
  | none => .ok (p.2.version == 0)

theorem dominatesHolder_eq (hv : v.Sound) {p : Member × Holder} (hp : p.2.Canonical) :
    ∃ r, v.dominatesHolder p = .ok r ∧
      (r = true ↔ ∀ n, p.2.contains n = true → v.contains p.1 n = true) := by
  simp only [dominatesHolder]
  cases hf : v.holders.find? p.1 with
  | some mine =>
    simp only [contains_of_find? hf]
    exact Holder.dominates_eq (hv p.1 mine hf) hp
  | none =>
    refine ⟨_, rfl, ?_⟩
    simp only [contains, hf, beq_iff_eq]
    constructor
    · intro h0 n hn
      have := hp.greatest.2 n hn
      omega
    · exact fun h => h _ hp.greatest.1

theorem dominates_eq (hv : v.Sound) (hw : w.Sound) :
    ∃ r, v.dominates w = .ok r ∧
      (r = true ↔ ∀ m n, w.contains m n = true → v.contains m n = true) := by
  -- along the list the answer stands for the holders passed so far
  have hfold : ∀ l : List (Member × Holder), (∀ p ∈ l, p.2.Canonical) → ∀ acc,
      ∃ r, l.foldlM (fun acc p => if acc then v.dominatesHolder p else .ok false) acc = .ok r ∧
        (r = true ↔ acc = true ∧
          ∀ p ∈ l, ∀ n, p.2.contains n = true → v.contains p.1 n = true) := by
    intro l hl
    induction l with
    | nil => exact fun acc => ⟨acc, rfl, by simp⟩
    | cons p r ih =>
      intro acc
      have hrest := ih fun q hq => hl q (List.mem_cons_of_mem _ hq)
      obtain ⟨one, hone, hiff⟩ := dominatesHolder_eq hv (hl p List.mem_cons_self)
      simp only [List.foldlM_cons, List.forall_mem_cons]
      cases acc with
      | false =>
        obtain ⟨out, hout, hall⟩ := hrest false
        exact ⟨out, hout, by rw [hall]; simp⟩
      | true =>
        obtain ⟨out, hout, hall⟩ := hrest one
        refine ⟨out, ?_, by rw [hall, hiff]; simp⟩
        simp only [if_true, hone, bind, Except.bind]
        exact hout
  obtain ⟨r, hr, hiff⟩ := hfold w.holders.toList (fun p hp => hw.canonical_of_mem hp) true
  refine ⟨r, hr, ?_⟩
  simp only [hiff, true_and, (mem_holders w).2]
  constructor
  · rintro hall m n (rfl | ⟨p, hp, hs, hc⟩)
    · exact contains_zero v m
    · rw [contains_congr v hs]
      exact hall p hp n hc
  · exact fun hall p hp n hc => hall p.1 n (.inr ⟨p, hp, Member.same_refl _, hc⟩)

end VersionVector
end DataGrid
