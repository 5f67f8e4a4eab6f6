import DataGrid.Proofs.Version.Intersection

/-
Holders under merging. To merge two holders is to take the union of what they
contain, and one dominates another if it contains all that the other does
(`Holder.merge_eq`, `Holder.dominates_eq`). As a canonical holder is settled by
what it contains (`Holder.Canonical.ext`), every law of unions and inclusions
holds of holders as an equation.
-/

namespace DataGrid

open Counter

namespace Gap

/-- Gaps cut off above a limit. -/
def clip (limit : Nat) (gaps : List Gap) : List Gap :=
  (gaps.filter (·.low ≤ limit)).map fun g => ⟨g.low, min g.high limit⟩

theorem clip_cons (limit : Nat) (g : Gap) (r : List Gap) :
    clip limit (g :: r) =
      if g.low ≤ limit then ⟨g.low, min g.high limit⟩ :: clip limit r else clip limit r := by
  by_cases hg : g.low ≤ limit <;> simp [clip, hg]

theorem Ascend.clip {floor top : Nat} {gaps : List Gap} (h : Ascend floor top gaps) (limit : Nat) :
    Ascend floor (min top (limit + 1)) (clip limit gaps) := by
  induction gaps generalizing floor with
  | nil => trivial
  | cons g r ih =>
    obtain ⟨h1, h2, h3, h4⟩ := h
    rw [clip_cons]
    split
    · exact ⟨h1, by simp only; omega, by simp only; omega, (ih h4).mono (by simp only; omega)⟩
    · exact (ih h4).mono (by omega)

theorem covers_clip (limit : Nat) (gaps : List Gap) (w : Nat) :
    covers (clip limit gaps) w = (decide (w ≤ limit) && covers gaps w) := by
  induction gaps with
  | nil => simp [clip]
  | cons g r ih =>
    have hcut : ∀ high, Gap.contains ⟨g.low, min high limit⟩ w =
        (decide (w ≤ limit) && Gap.contains ⟨g.low, high⟩ w) := by
      intro high
      rw [Bool.eq_iff_iff]
      simp only [Gap.contains, Bool.and_eq_true, decide_eq_true_eq, Nat.le_min]
      omega
    rw [clip_cons, covers_cons, Bool.and_or_distrib_left, ← ih]
    split
    · rw [covers_cons, hcut]
    next hlow =>
      have hout : (decide (w ≤ limit) && g.contains w) = false := by
        rw [Bool.eq_false_iff, Ne, Bool.and_eq_true, decide_eq_true_eq]
        rintro ⟨hw, hg⟩
        simp only [Gap.contains, Bool.and_eq_true, decide_eq_true_eq] at hg
        omega
      rw [hout, Bool.false_or]

end Gap

namespace Holder

open Gap (Ascend covers)

variable {a b c h m : Holder}

/-! ## Merging is union, domination is inclusion -/

/-- Whatever is not contained is missing, up to any limit. -/
theorem missingUpTo_eq (hc : h.Canonical) {limit : Nat} (hl : limit ≤ counterMax) :
    ∃ gaps, h.missingUpTo limit = .ok gaps ∧ Ascend 1 (limit + 1) gaps ∧
      ∀ w, covers gaps w = (decide (w ≤ limit) && !h.contains w) := by
  have hclip := hc.gaps.clip limit
  by_cases hlt : h.version < limit
  · have hadd : add h.version 1 = .ok (h.version + 1) := add_eq_ok (by omega)
    refine ⟨Gap.clip limit h.gaps ++ [⟨h.version + 1, limit⟩], ?_, ?_, fun w => ?_⟩
    · simp only [missingUpTo, hlt, if_true, hadd, bind, Except.bind, pure, Except.pure]
      rfl
    · rw [Gap.ascend_concat]
      exact ⟨hclip.raise (by simp only; omega), by simp only; omega, hlt, by simp only; omega⟩
    · rw [Gap.covers_append, Gap.covers_clip, Gap.covers_cons, Gap.covers_nil, Bool.or_false]
      by_cases hw : w ≤ h.version
      · rw [hc.covers_eq hw, Gap.contains_eq_false (by simp only; omega), Bool.or_false]
      · rw [(hc.above (by omega)).1, (hc.above (by omega)).2, Bool.and_false, Bool.false_or,
          Bool.not_false, Bool.and_true, Bool.eq_iff_iff]
        simp only [Gap.contains, Bool.and_eq_true, decide_eq_true_eq]
        omega
  · refine ⟨Gap.clip limit h.gaps, ?_, hclip.raise (by omega), fun w => ?_⟩
    · simp only [missingUpTo, hlt, if_false]
      rfl
    · rw [Gap.covers_clip]
      by_cases hw : w ≤ limit
      · rw [hc.covers_eq (by omega)]
      · simp [hw]

/-- A holder that contains what one or the other of two contains. -/
structure Union (a b m : Holder) : Prop where
  canonical : m.Canonical
  version : m.version = max a.version b.version
  contains : ∀ w, m.contains w = (a.contains w || b.contains w)

theorem merge_eq (ha : a.Canonical) (hb : b.Canonical) : ∃ m, a.merge b = .ok m ∧ Union a b m := by
  have hmax : max a.version b.version ≤ counterMax := by
    have := ha.small
    have := hb.small
    omega
  obtain ⟨mine, hmine, hminea, hminec⟩ := missingUpTo_eq ha hmax
  obtain ⟨theirs, htheirs, htheirsa, htheirsc⟩ := missingUpTo_eq hb hmax
  obtain ⟨gaps, hgaps, hasc, hcov⟩ := Gap.intersect_eq (hminea.apart (by omega) (by omega))
    (htheirsa.apart (by omega) (by omega))
  have hcov' : ∀ w, covers gaps w =
      (decide (w ≤ max a.version b.version) && !(a.contains w || b.contains w)) := by
    intro w
    rw [hcov, hminec, htheirsc, Bool.not_or]
    cases decide (w ≤ max a.version b.version) <;> simp
  -- the highest version is contained in the holder that has it
  have htop : (a.contains (max a.version b.version) || b.contains (max a.version b.version)) = true := by
    rcases Nat.le_total a.version b.version with hle | hle
    · rw [Nat.max_eq_right hle, hb.greatest.1, Bool.or_true]
    · rw [Nat.max_eq_left hle, ha.greatest.1, Bool.true_or]
  have hbelow : Ascend 1 (max a.version b.version) gaps := by
    refine hasc.lower fun w hw => ?_
    rw [hcov', Bool.and_eq_true, decide_eq_true_eq, Bool.not_eq_true'] at hw
    have hne : w ≠ max a.version b.version := by
      rintro rfl
      rw [htop] at hw
      cases hw.2
    omega
  refine ⟨⟨max a.version b.version, gaps⟩, ?_, ⟨hbelow, hmax⟩, rfl, fun w => ?_⟩
  · simp only [merge, hmine, htheirs, hgaps, bind, Except.bind, pure, Except.pure]
  · rw [contains_eq]
    simp only [hcov']
    by_cases hw : w ≤ max a.version b.version
    · cases w with
      | zero => simp
      | succ w => simp [hw]
    · rw [(ha.above (by omega)).1, (hb.above (by omega)).1]
      simp only [hw, decide_false, Bool.false_and, Bool.or_false, beq_eq_false_iff_ne]
      omega

theorem dominates_eq (ha : a.Canonical) (hb : b.Canonical) :
    ∃ r, a.dominates b = .ok r ∧
      (r = true ↔ ∀ w, b.contains w = true → a.contains w = true) := by
  obtain ⟨mine, hmine, hminea, hminec⟩ := missingUpTo_eq ha hb.small
  obtain ⟨theirs, htheirs, htheirsa, htheirsc⟩ := missingUpTo_eq hb hb.small
  have hsmall := hb.small
  obtain ⟨gaps, hgaps, hasc, hcov⟩ := Gap.intersect_eq (hminea.apart (by omega) (by omega))
    (htheirsa.apart (by omega) (by omega))
  refine ⟨gaps == mine, ?_, ?_⟩
  · simp only [dominates, hmine, htheirs, hgaps, bind, Except.bind, pure, Except.pure]
  rw [beq_iff_eq]
  constructor
  · intro heq w hw
    have hle := hb.greatest.2 w hw
    -- the version is not missing there, so it is not missing here
    have hw' := hcov w
    rw [heq, hminec, htheirsc, hw] at hw'
    simpa [hle] using hw'
  · intro hsub
    refine hasc.ext hminea fun w => ?_
    rw [hcov, hminec, htheirsc]
    cases hbw : b.contains w with
    | true => simp [hsub w hbw]
    | false => cases decide (w ≤ b.version) <;> simp

/-! ## Laws -/

/-- A holder is settled by the two that it is the union of. -/
theorem Union.unique {m' : Holder} (h : Union a b m) (h' : Union a b m') : m = m' :=
  h.canonical.ext h'.canonical fun w => by rw [h.contains, h'.contains]

theorem Union.symm (h : Union a b m) : Union b a m :=
  ⟨h.canonical, by rw [h.version, Nat.max_comm], fun w => by rw [h.contains, Bool.or_comm]⟩

theorem Union.assoc {ab bc abc abc' : Holder} (hab : Union a b ab) (hbc : Union b c bc)
    (h : Union ab c abc) (h' : Union a bc abc') : abc = abc' :=
  h.canonical.ext h'.canonical fun w => by
    rw [h.contains, h'.contains, hab.contains, hbc.contains, Bool.or_assoc]

theorem merge_self (ha : a.Canonical) : a.merge a = .ok a := by
  obtain ⟨m, hm, hu⟩ := merge_eq ha ha
  rw [hm, hu.canonical.ext ha fun w => by rw [hu.contains, Bool.or_self]]

theorem dominates_iff (ha : a.Canonical) (hb : b.Canonical) :
    a.dominates b = .ok true ↔ ∀ w, b.contains w = true → a.contains w = true := by
  obtain ⟨r, hr, hiff⟩ := dominates_eq ha hb
  rw [hr, Except.ok.injEq, hiff]

/-- What recording and merging make of new holders. -/
inductive Reached : Holder → Prop
  | new : Reached {}
  | upTo {n : Nat} (hn : n ≤ counterMax) : Reached (Holder.upTo n)
  | record {h h' : Holder} {v : Nat} {new : Bool} (hr : Reached h) (hv : v ≤ counterMax)
      (he : h.record v = .ok (new, h')) : Reached h'
  | merge {a b m : Holder} (ha : Reached a) (hb : Reached b) (hm : a.merge b = .ok m) : Reached m

theorem Reached.canonical (hr : h.Reached) : h.Canonical := by
  induction hr with
  | new => exact canonical_empty
  | upTo hn => exact canonical_upTo hn
  | record _ hv he ih =>
    obtain ⟨h', hrec, hg⟩ := record_eq ih hv
    rw [hrec] at he
    cases he
    exact hg.canonical
  | merge _ _ hm iha ihb =>
    obtain ⟨m, hmerge, hu⟩ := merge_eq iha ihb
    rw [hmerge] at hm
    cases hm
    exact hu.canonical

/-- Holders however recorded and merged form a lattice of sets. None of the counters overflows. The
merge of two contains exactly what one or the other contains, in the one form in which holders stand;
it does not depend on the order of the two, on how three are grouped, or on a holder being merged
with itself. To dominate is to contain whatever the other contains, so two that dominate each other
are equal, and the merge is the least holder that dominates both. -/
theorem merge_lattice (ha : a.Reached) (hb : b.Reached) (hc : c.Reached) :
    ∃ ab bc abc, a.merge b = .ok ab ∧ b.merge c = .ok bc ∧
      (∀ v, ab.contains v = (a.contains v || b.contains v)) ∧
      (ab.contains ab.version = true ∧ ∀ v, ab.contains v = true → v ≤ ab.version) ∧
      (ab.gaps.Pairwise (fun g g' => g.high < g'.low) ∧ ∀ g, g ∈ ab.gaps ↔ ab.MissingRun g) ∧
      b.merge a = .ok ab ∧
      (ab.merge c = .ok abc ∧ a.merge bc = .ok abc) ∧
      a.merge a = .ok a ∧
      (∃ r, a.dominates b = .ok r ∧ (r = true ↔ ∀ v, b.contains v = true → a.contains v = true)) ∧
      (a.dominates b = .ok true → b.dominates a = .ok true → a = b) ∧
      (ab.dominates a = .ok true ∧ ab.dominates b = .ok true) ∧
      (c.dominates a = .ok true → c.dominates b = .ok true → c.dominates ab = .ok true) ∧
      ∀ v ≤ counterMax, ∃ new h, a.record v = .ok (new, h) := by
  have hca := ha.canonical
  have hcb := hb.canonical
  have hcc := hc.canonical
  obtain ⟨ab, hab, huab⟩ := merge_eq hca hcb
  obtain ⟨ba, hba, huba⟩ := merge_eq hcb hca
  obtain ⟨bc, hbc, hubc⟩ := merge_eq hcb hcc
  obtain ⟨abc, habc, hu⟩ := merge_eq huab.canonical hcc
  obtain ⟨abc', habc', hu'⟩ := merge_eq hca hubc.canonical
  have hcab := huab.canonical
  refine ⟨ab, bc, abc, hab, hbc, huab.contains, hcab.greatest,
    ⟨hcab.gaps.pairwise.imp fun hgap => by omega, hcab.mem_gaps⟩, ?_, ⟨habc, ?_⟩, merge_self hca,
    dominates_eq hca hcb, fun h h' => ?_, ⟨?_, ?_⟩, fun h h' => ?_, fun v hv => ?_⟩
  · rw [hba, huba.symm.unique huab]
  · rw [habc', Union.assoc huab hubc hu hu']
  · rw [dominates_iff hca hcb] at h
    rw [dominates_iff hcb hca] at h'
    exact hca.ext hcb fun w => Bool.eq_iff_iff.2 ⟨h' w, h w⟩
  · rw [dominates_iff hcab hca]
    intro w hw
    rw [huab.contains, hw, Bool.true_or]
  · rw [dominates_iff hcab hcb]
    intro w hw
    rw [huab.contains, hw, Bool.or_true]
  · rw [dominates_iff hcc hca] at h
    rw [dominates_iff hcc hcb] at h'
    rw [dominates_iff hcc hcab]
    intro w hw
    rw [huab.contains, Bool.or_eq_true] at hw
    exact hw.elim (h w) (h' w)
  · obtain ⟨h', hrec, -⟩ := record_eq hca hv
    exact ⟨_, h', hrec⟩

/-- Gaps that overlap in part, at the end of the range too. -/
theorem merge_lattice_overlapping :
    Reached ⟨9, [⟨3, 5⟩, ⟨8, 8⟩]⟩ ∧ Reached ⟨counterMax, [⟨1, 3⟩, ⟨5, 8⟩, ⟨10, counterMax - 1⟩]⟩ ∧
      ∃ ab, Holder.merge ⟨9, [⟨3, 5⟩, ⟨8, 8⟩]⟩
          ⟨counterMax, [⟨1, 3⟩, ⟨5, 8⟩, ⟨10, counterMax - 1⟩]⟩ = .ok ab ∧
        ab = ⟨counterMax, [⟨3, 3⟩, ⟨5, 5⟩, ⟨8, 8⟩, ⟨10, counterMax - 1⟩]⟩ ∧
        ab.dominates ⟨9, [⟨3, 5⟩, ⟨8, 8⟩]⟩ = .ok true := by
  have ha : Reached ⟨9, [⟨3, 5⟩, ⟨8, 8⟩]⟩ := by
    refine .record (v := 9) (.record (v := 7)
      (.record (v := 6) (.upTo (n := 2) (by decide)) (by decide) rfl) (by decide) rfl)
      (by decide) rfl
  have hb : Reached ⟨counterMax, [⟨1, 3⟩, ⟨5, 8⟩, ⟨10, counterMax - 1⟩]⟩ := by
    refine .record (v := counterMax) (.record (v := 9)
      (.record (v := 4) .new (by decide) rfl) (by decide) rfl) (by decide) rfl
  obtain ⟨ab, -, -, hab, -, -, -, -, -, -, -, -, -, hdom, -⟩ := merge_lattice ha hb .new
  have hrun : Holder.merge ⟨9, [⟨3, 5⟩, ⟨8, 8⟩]⟩
      ⟨counterMax, [⟨1, 3⟩, ⟨5, 8⟩, ⟨10, counterMax - 1⟩]⟩ =
      .ok ⟨counterMax, [⟨3, 3⟩, ⟨5, 5⟩, ⟨8, 8⟩, ⟨10, counterMax - 1⟩]⟩ := by cbv
  refine ⟨ha, hb, ab, hab, ?_, hdom.1⟩
  rw [hrun] at hab
  exact (Except.ok.inj hab).symm

end Holder
end DataGrid
