import DataGrid.Version.Holder

/-
What a holder stands for: the set of versions it contains. Recording a version
adds that version and no other, never overflows, and keeps the gaps in the one
form in which each set has them (`Holder.Canonical`): ascending, none of them
empty, and between two of them at least one version that was received.
-/

namespace DataGrid

open Counter

namespace Gap

/-- Gaps in ascending order from `floor` on and below `top`, that do not touch. -/
def Ascend (floor top : Nat) : List Gap → Prop
  | [] => True
  | g :: r => floor ≤ g.low ∧ g.low ≤ g.high ∧ g.high < top ∧ Ascend (g.high + 2) top r

/-- The version lies in one of the gaps. -/
def covers (gaps : List Gap) (w : Nat) : Bool := gaps.any (·.contains w)

@[simp] theorem covers_nil (w : Nat) : covers [] w = false := rfl

@[simp] theorem covers_cons (g : Gap) (r : List Gap) (w : Nat) :
    covers (g :: r) w = (g.contains w || covers r w) := rfl

@[simp] theorem covers_append (gs r : List Gap) (w : Nat) :
    covers (gs ++ r) w = (covers gs w || covers r w) := by simp [covers]

/-- Gaps that are empty cover nothing. -/
theorem covers_nonempty (gaps : List Gap) (w : Nat) :
    covers (gaps.filter (!·.isEmpty)) w = covers gaps w := by
  simp only [covers, List.any_filter]
  congr 1
  funext g
  by_cases hg : g.contains w = true
  · simp only [Gap.contains, Bool.and_eq_true, decide_eq_true_eq] at hg
    have hlow : ¬ g.high < g.low := by omega
    simp [Gap.isEmpty, hlow]
  · simp [hg]

theorem Ascend.mono {floor floor' top : Nat} {gaps : List Gap} (h : Ascend floor top gaps)
    (hle : floor' ≤ floor) : Ascend floor' top gaps := by
  cases gaps with
  | nil => trivial
  | cons g r =>
    obtain ⟨h1, h2, h3, h4⟩ := h
    exact ⟨by omega, h2, h3, h4⟩

theorem Ascend.bounds {floor top w : Nat} {gaps : List Gap} (h : Ascend floor top gaps)
    (hc : covers gaps w = true) : floor ≤ w ∧ w < top := by
  induction gaps generalizing floor with
  | nil => simp at hc
  | cons g r ih =>
    obtain ⟨h1, h2, h3, h4⟩ := h
    simp only [covers_cons, Gap.contains, Bool.or_eq_true, Bool.and_eq_true,
      decide_eq_true_eq] at hc
    rcases hc with hc | hc
    · omega
    · have := ih h4 hc
      omega

theorem Ascend.covers_eq_false {floor top w : Nat} {gaps : List Gap} (h : Ascend floor top gaps)
    (hw : top ≤ w) : covers gaps w = false := by
  rw [Bool.eq_false_iff]
  intro hc
  have := h.bounds hc
  omega

/-- A gap from the top on may follow, if it ends below the new top. -/
theorem Ascend.snoc {floor top high : Nat} {gaps : List Gap} (h : Ascend floor top gaps)
    (hf : floor ≤ top + 1) (hh : top + 1 ≤ high) :
    Ascend floor (high + 1) (gaps ++ [⟨top + 1, high⟩]) := by
  induction gaps generalizing floor with
  | nil => exact ⟨hf, hh, by simp, trivial⟩
  | cons g r ih =>
    obtain ⟨h1, h2, h3, h4⟩ := h
    exact ⟨h1, h2, by omega, ih h4 (by omega)⟩

theorem Ascend.raise {floor top top' : Nat} {gaps : List Gap} (h : Ascend floor top gaps)
    (hle : top ≤ top') : Ascend floor top' gaps := by
  induction gaps generalizing floor with
  | nil => trivial
  | cons g r ih =>
    obtain ⟨h1, h2, h3, h4⟩ := h
    exact ⟨h1, h2, by omega, ih h4⟩

end Gap

namespace Holder

open Gap (Ascend covers)

/-- The form in which a holder keeps what is missing. -/
structure Canonical (h : Holder) : Prop where
  gaps : Ascend 1 h.version h.gaps
  small : h.version ≤ counterMax

theorem canonical_upTo {n : Nat} (hn : n ≤ counterMax) : (Holder.upTo n).Canonical :=
  ⟨trivial, hn⟩

theorem canonical_empty : ({} : Holder).Canonical := canonical_upTo (Nat.zero_le _)

theorem contains_eq (h : Holder) (w : Nat) :
    h.contains w = (w == 0 || (decide (w ≤ h.version) && !covers h.gaps w)) := rfl

@[simp] theorem contains_zero (h : Holder) : h.contains 0 = true := by simp [contains_eq]

theorem contains_empty (w : Nat) : ({} : Holder).contains w = (w == 0) := by
  simp only [contains_eq, Gap.covers_nil, Bool.not_false, Bool.and_true]
  cases w <;> simp

/-- Splitting a gap at a version in it leaves the gap without that version. -/
theorem splitGap_eq {v top : Nat} {g : Gap} {r : List Gap} {floor : Nat} (hf : 1 ≤ floor)
    (htop : top ≤ counterMax) (h : Ascend floor top (g :: r)) (hv : g.contains v = true) :
    ∃ parts, splitGap v g = .ok parts ∧ Ascend floor top (parts ++ r) ∧
      ∀ w, covers parts w = (g.contains w && w != v) := by
  obtain ⟨h1, h2, h3, h4⟩ := h
  simp only [Gap.contains, Bool.and_eq_true, decide_eq_true_eq] at hv
  obtain ⟨hl, hh⟩ := hv
  have hsub : sub v 1 = .ok (v - 1) := sub_eq_ok (by omega)
  have hadd : add v 1 = .ok (v + 1) := add_eq_ok (by omega)
  refine ⟨[⟨g.low, v - 1⟩, ⟨v + 1, g.high⟩].filter (!·.isEmpty), ?_, ?_, fun w => ?_⟩
  · simp only [splitGap, hsub, hadd, bind, Except.bind, pure, Except.pure]
  · -- each part is left out when the version is the gap's own bound
    by_cases hlow : v = g.low <;> by_cases hhigh : v = g.high
    · have ha : v - 1 < g.low := by omega
      have hb : g.high < v + 1 := by omega
      simp only [List.filter, Gap.isEmpty, ha, hb, decide_true, Bool.not_true, List.nil_append]
      exact h4.mono (by omega)
    · have ha : v - 1 < g.low := by omega
      have hb : ¬ g.high < v + 1 := by omega
      simp only [List.filter, Gap.isEmpty, ha, hb, decide_true, decide_false, Bool.not_true,
        Bool.not_false, List.cons_append, List.nil_append]
      exact ⟨by simp only; omega, by simp only; omega, h3, h4⟩
    · have ha : ¬ v - 1 < g.low := by omega
      have hb : g.high < v + 1 := by omega
      simp only [List.filter, Gap.isEmpty, ha, hb, decide_true, decide_false, Bool.not_true,
        Bool.not_false, List.cons_append, List.nil_append]
      exact ⟨h1, by simp only; omega, by simp only; omega, h4.mono (by simp only; omega)⟩
    · have ha : ¬ v - 1 < g.low := by omega
      have hb : ¬ g.high < v + 1 := by omega
      simp only [List.filter, Gap.isEmpty, ha, hb, decide_false, Bool.not_false,
        List.cons_append, List.nil_append]
      exact ⟨h1, by simp only; omega, by simp only; omega, by simp only; omega,
        by simp only; omega, h3, h4⟩
  · rw [Gap.covers_nonempty]
    simp only [Gap.covers_cons, Gap.covers_nil, Gap.contains, Bool.or_false]
    rw [Bool.eq_iff_iff]
    simp only [Bool.or_eq_true, Bool.and_eq_true, decide_eq_true_eq, bne_iff_ne, ne_eq]
    omega

/-- Filling a version in takes it out of the gaps, and nothing else. -/
theorem fillGap_eq {v top floor : Nat} {gaps : List Gap} (hf : 1 ≤ floor)
    (htop : top ≤ counterMax) (h : Ascend floor top gaps) (hv : covers gaps v = true) :
    ∃ gaps', fillGap v gaps = .ok gaps' ∧ Ascend floor top gaps' ∧
      ∀ w, covers gaps' w = (covers gaps w && w != v) := by
  induction gaps generalizing floor with
  | nil => simp at hv
  | cons g r ih =>
    have hall := h
    obtain ⟨h1, h2, h3, h4⟩ := h
    by_cases hg : g.contains v = true
    · obtain ⟨parts, hs, ha, hc⟩ := splitGap_eq hf htop hall hg
      refine ⟨parts ++ r, ?_, ha, fun w => ?_⟩
      · simp only [fillGap, hg, if_true, hs, bind, Except.bind, pure, Except.pure]
      · rw [Gap.covers_append, Gap.covers_cons, hc w]
        have hr : covers r w = true → w ≠ v := by
          intro hr
          have := h4.bounds hr
          simp only [Gap.contains, Bool.and_eq_true, decide_eq_true_eq] at hg
          omega
        cases hcr : covers r w with
        | false => simp
        | true => simp [hr hcr]
    · have hr : covers r v = true := by simpa [hg] using hv
      obtain ⟨r', hs, ha, hc⟩ := ih (by omega) h4 hr
      refine ⟨g :: r', ?_, ⟨h1, h2, h3, ha⟩, fun w => ?_⟩
      · simp only [fillGap, hg, if_false, hs, bind, Except.bind, pure, Except.pure,
          Bool.false_eq_true]
      · rw [Gap.covers_cons, Gap.covers_cons, hc w]
        have hgw : g.contains w = true → w ≠ v := fun hw he => hg (he ▸ hw)
        cases hcg : g.contains w with
        | false => simp
        | true => simp [hgw hcg]

/-- A holder that contains one version more, if it was missing. -/
structure Gains (h : Holder) (v : Nat) (h' : Holder) : Prop where
  canonical : h'.Canonical
  version : h'.version = max h.version v
  contains : ∀ w, h'.contains w = (h.contains w || w == v)

theorem record_known {h : Holder} (hc : h.Canonical) {v : Nat} (hin : h.contains v = true) :
    h.record v = .ok (false, h) ∧ h.Gains v h := by
  refine ⟨by simp [record, hin], hc, ?_, fun w => ?_⟩
  · simp only [contains_eq, Bool.or_eq_true, beq_iff_eq, Bool.and_eq_true,
      decide_eq_true_eq] at hin
    omega
  · by_cases hw : w = v
    · subst hw
      simp [hin]
    · simp [hw]

/-- Nothing above the highest version is contained, nor is it counted as missing. -/
theorem Canonical.above {h : Holder} (hc : h.Canonical) {w : Nat} (hw : h.version < w) :
    h.contains w = false ∧ covers h.gaps w = false := by
  have hout : covers h.gaps w = false := hc.gaps.covers_eq_false (by omega)
  refine ⟨?_, hout⟩
  simp only [contains_eq, Bool.or_eq_false_iff, beq_eq_false_iff_ne, Bool.and_eq_false_iff,
    decide_eq_false_iff_not]
  omega

/-- A version that skips some leaves them missing. -/
theorem record_beyond {h : Holder} (hc : h.Canonical) {v : Nat} (hv : v ≤ counterMax)
    (hlt : h.version + 1 < v) :
    ∃ h', h.record v = .ok (true, h') ∧ h.Gains v h' := by
  have hnot := (hc.above (w := v) (by omega)).1
  have hadd : add h.version 1 = .ok (h.version + 1) := add_eq_ok (by omega)
  have hsub : sub v 1 = .ok (v - 1) := sub_eq_ok (by omega)
  have hover : h.version < v := by omega
  refine ⟨{ version := v, gaps := h.gaps ++ [⟨h.version + 1, v - 1⟩] }, ?_, ⟨?_, hv⟩,
    by simp only; omega, fun w => ?_⟩
  · simp only [record, hnot, if_false, hover, if_true, hadd, hlt, hsub, bind, Except.bind,
      pure, Except.pure, Bool.false_eq_true]
  · have hgap := hc.gaps.snoc (by omega) (show h.version + 1 ≤ v - 1 by omega)
    rwa [show v - 1 + 1 = v by omega] at hgap
  · rw [Bool.eq_iff_iff]
    simp only [contains_eq, Gap.covers_append, Gap.covers_cons, Gap.covers_nil, Gap.contains,
      Bool.or_false, Bool.not_or, Bool.or_eq_true, Bool.and_eq_true, beq_iff_eq,
      decide_eq_true_eq, Bool.not_eq_true', Bool.and_eq_false_iff, decide_eq_false_iff_not]
    by_cases hw : h.version < w
    · simp only [(hc.above hw).2, true_and]
      omega
    · grind

theorem record_next {h : Holder} (hc : h.Canonical) (hv : h.version + 1 ≤ counterMax) :
    ∃ h', h.record (h.version + 1) = .ok (true, h') ∧ h.Gains (h.version + 1) h' := by
  have hnot := (hc.above (w := h.version + 1) (by omega)).1
  have hadd : add h.version 1 = .ok (h.version + 1) := add_eq_ok hv
  refine ⟨{ h with version := h.version + 1 }, ?_, ⟨hc.gaps.raise (by simp only; omega), hv⟩,
    by simp only; omega, fun w => ?_⟩
  · simp only [record, hnot, if_false, Nat.lt_succ_self, if_true, hadd, Nat.lt_irrefl, bind,
      Except.bind, pure, Except.pure, Bool.false_eq_true]
  · rw [Bool.eq_iff_iff]
    simp only [contains_eq, Bool.or_eq_true, Bool.and_eq_true, beq_iff_eq, decide_eq_true_eq,
      Bool.not_eq_true']
    by_cases hw : h.version < w
    · simp only [(hc.above hw).2, and_true]
      omega
    · grind

theorem record_missing {h : Holder} (hc : h.Canonical) {v : Nat} (hle : ¬ h.version < v)
    (hnot : h.contains v = false) (hcov : covers h.gaps v = true) :
    ∃ h', h.record v = .ok (true, h') ∧ h.Gains v h' := by
  obtain ⟨gaps', hs, ha, hg⟩ := fillGap_eq (Nat.le_refl 1) hc.small hc.gaps hcov
  refine ⟨{ h with gaps := gaps' }, ?_, ⟨ha, hc.small⟩, by simp only; omega, fun w => ?_⟩
  · simp only [record, hnot, if_false, hle, hs, bind, Except.bind, pure, Except.pure,
      Bool.false_eq_true]
  · rw [Bool.eq_iff_iff]
    simp only [contains_eq, hg w, Bool.or_eq_true, Bool.and_eq_true, beq_iff_eq,
      decide_eq_true_eq, Bool.not_eq_true', Bool.and_eq_false_iff, bne_eq_false_iff_eq]
    by_cases hw : w = v
    · subst hw
      simp only [or_true, and_true]
      grind
    · simp [hw]

/-- Recording a version adds it to the versions contained, and tells whether it was new. -/
theorem record_eq {h : Holder} (hc : h.Canonical) {v : Nat} (hv : v ≤ counterMax) :
    ∃ h', h.record v = .ok (!h.contains v, h') ∧ h.Gains v h' := by
  cases hin : h.contains v with
  | true => exact ⟨h, record_known hc hin⟩
  | false =>
    by_cases hlt : h.version < v
    · by_cases hnext : h.version + 1 < v
      · exact record_beyond hc hv hnext
      · obtain rfl : v = h.version + 1 := by omega
        exact record_next hc hv
    · have hcov : covers h.gaps v = true := by
        simp only [contains_eq, Bool.or_eq_false_iff, Bool.and_eq_false_iff, decide_eq_false_iff_not,
          Bool.not_eq_false'] at hin
        exact hin.2.resolve_left fun hn => hn (by omega)
      exact record_missing hc hlt hin hcov

end Holder
end DataGrid
