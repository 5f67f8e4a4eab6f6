import DataGrid.Proofs.Version.Holder
import Mathlib.Tactic.ByContra

/-
The canonical form is read off the versions that a holder contains: the highest
one, and below it the runs of missing versions, each as long as it can be, in
ascending order. So two canonical holders of the same versions are equal, and
what a holder becomes does not depend on the order in which versions arrive.
-/

namespace DataGrid

namespace Gap

/-- A run of covered versions that no longer run of covered versions holds. -/
structure Maximal (gaps : List Gap) (g : Gap) : Prop where
  ordered : g.low ≤ g.high
  covered : ∀ w, g.low ≤ w → w ≤ g.high → covers gaps w = true
  before : covers gaps (g.low - 1) = false
  after : covers gaps (g.high + 1) = false

theorem Ascend.bounds_of_mem {floor top : Nat} {gaps : List Gap} {g : Gap}
    (h : Ascend floor top gaps) (hg : g ∈ gaps) :
    floor ≤ g.low ∧ g.low ≤ g.high ∧ g.high < top := by
  induction gaps generalizing floor with
  | nil => simp at hg
  | cons a r ih =>
    obtain ⟨h1, h2, h3, h4⟩ := h
    rcases List.mem_cons.mp hg with rfl | hg
    · exact ⟨h1, h2, h3⟩
    · obtain ⟨i1, i2, i3⟩ := ih h4 hg
      exact ⟨by omega, i2, i3⟩

/-- Between a gap and a later one at least one version is left out. -/
theorem Ascend.pairwise {floor top : Nat} {gaps : List Gap} (h : Ascend floor top gaps) :
    gaps.Pairwise fun a b => a.low ≤ a.high ∧ a.high + 1 < b.low := by
  induction gaps generalizing floor with
  | nil => exact .nil
  | cons a r ih =>
    obtain ⟨-, h2, -, h4⟩ := h
    exact .cons (fun b hb => ⟨h2, (h4.bounds_of_mem hb).1⟩) (ih h4)

theorem Ascend.covers_below {floor top w : Nat} {gaps : List Gap} (h : Ascend floor top gaps)
    (hw : w < floor) : covers gaps w = false := by
  rw [Bool.eq_false_iff]
  intro hc
  have := h.bounds hc
  omega

theorem contains_eq_false {g : Gap} {w : Nat} (h : w < g.low ∨ g.high < w) :
    g.contains w = false := by
  rw [Bool.eq_false_iff, Gap.contains, Ne, Bool.and_eq_true, decide_eq_true_eq,
    decide_eq_true_eq]
  omega

theorem contains_eq_true {g : Gap} {w : Nat} (hl : g.low ≤ w) (hh : w ≤ g.high) :
    g.contains w = true := by simp [Gap.contains, hl, hh]

theorem Ascend.maximal_of_mem {floor top : Nat} {gaps : List Gap} {g : Gap} (hf : 1 ≤ floor)
    (h : Ascend floor top gaps) (hg : g ∈ gaps) : Maximal gaps g := by
  induction gaps generalizing floor with
  | nil => simp at hg
  | cons a r ih =>
    obtain ⟨h1, h2, -, h4⟩ := h
    rcases List.mem_cons.mp hg with rfl | hg
    · refine ⟨h2, fun w hl hh => ?_, ?_, ?_⟩
      · rw [covers_cons, contains_eq_true hl hh, Bool.true_or]
      · rw [covers_cons, contains_eq_false (by omega), h4.covers_below (by omega), Bool.or_self]
      · rw [covers_cons, contains_eq_false (by omega), h4.covers_below (by omega), Bool.or_self]
    · have hr := ih (by omega) h4 hg
      have hb := h4.bounds_of_mem hg
      refine ⟨hr.ordered, fun w hl hh => ?_, ?_, ?_⟩
      · rw [covers_cons, hr.covered w hl hh, Bool.or_true]
      · rw [covers_cons, contains_eq_false (by omega), hr.before, Bool.or_self]
      · rw [covers_cons, contains_eq_false (by omega), hr.after, Bool.or_self]

/-- A maximal run that begins in the first gap is the first gap. -/
theorem Maximal.eq_head {floor top : Nat} {a g : Gap} {r : List Gap}
    (h : Ascend floor top (a :: r)) (hf : 1 ≤ floor) (hg : Maximal (a :: r) g)
    (hin : a.contains g.low = true) : g = a := by
  obtain ⟨h1, -, -, h4⟩ := h
  simp only [Gap.contains, Bool.and_eq_true, decide_eq_true_eq] at hin
  have hlow : g.low = a.low := by
    by_contra hne
    have hc : a.contains (g.low - 1) = true := contains_eq_true (by omega) (by omega)
    have hb := hg.before
    simp [hc] at hb
  have hhigh : g.high = a.high := by
    rcases Nat.lt_trichotomy g.high a.high with hlt | heq | hgt
    · -- the run could be made longer
      have hc : a.contains (g.high + 1) = true :=
        contains_eq_true (by have := hg.ordered; omega) (by omega)
      have ha := hg.after
      simp [hc] at ha
    · exact heq
    · -- the run would go on through a version that is left out
      have hc := hg.covered (a.high + 1) (by omega) (by omega)
      rw [covers_cons, contains_eq_false (by omega), h4.covers_below (by omega)] at hc
      simp at hc
  cases g
  cases a
  simp_all

/-- A maximal run that begins after the first gap is one of the other gaps. -/
theorem Maximal.tail {floor top : Nat} {a g : Gap} {r : List Gap}
    (h : Ascend floor top (a :: r)) (hg : Maximal (a :: r) g)
    (hout : a.contains g.low = false) : Maximal r g := by
  obtain ⟨-, -, -, h4⟩ := h
  have hcov : covers r g.low = true := by
    simpa [hout] using hg.covered g.low (Nat.le_refl _) hg.ordered
  have hlow := (h4.bounds hcov).1
  refine ⟨hg.ordered, fun w hl hh => ?_, ?_, ?_⟩
  · have hc := hg.covered w hl hh
    rwa [covers_cons, contains_eq_false (by omega), Bool.false_or] at hc
  · exact (Bool.or_eq_false_iff.mp hg.before).2
  · exact (Bool.or_eq_false_iff.mp hg.after).2

/-- The gaps are the maximal runs of the versions they cover. -/
theorem Ascend.mem_iff {floor top : Nat} {gaps : List Gap} (hf : 1 ≤ floor)
    (h : Ascend floor top gaps) (g : Gap) : g ∈ gaps ↔ Maximal gaps g := by
  refine ⟨h.maximal_of_mem hf, fun hg => ?_⟩
  induction gaps generalizing floor with
  | nil =>
    have hc := hg.covered g.low (Nat.le_refl _) hg.ordered
    simp at hc
  | cons a r ih =>
    cases hin : a.contains g.low with
    | true => exact hg.eq_head h hf hin ▸ List.mem_cons_self
    | false => exact List.mem_cons_of_mem _ (ih (by omega) h.2.2.2 (hg.tail h hin))

/-- What begins the one list is covered by the other, and so not below where that begins. -/
theorem Ascend.low_le {floor top floor' top' : Nat} {a b : Gap} {r s : List Gap}
    (ha : Ascend floor top (a :: r)) (hb : Ascend floor' top' (b :: s))
    (h : ∀ w, covers (a :: r) w = covers (b :: s) w) : b.low ≤ a.low := by
  obtain ⟨-, ha2, -, -⟩ := ha
  have hstart : covers (b :: s) a.low = true := by
    rw [← h, covers_cons, contains_eq_true (Nat.le_refl _) ha2, Bool.true_or]
  have hfrom : Ascend b.low top' (b :: s) := ⟨Nat.le_refl _, hb.2⟩
  exact (hfrom.bounds hstart).1

/-- The version after the first gap of the one list is left out, and so by the other. -/
theorem Ascend.high_le {floor top : Nat} {a b : Gap} {r s : List Gap}
    (hb : Ascend floor top (b :: s)) (h : ∀ w, covers (a :: r) w = covers (b :: s) w)
    (hlow : a.low = b.low) : a.high ≤ b.high := by
  obtain ⟨-, hb2, -, hb4⟩ := hb
  by_contra hlt
  have hout : covers (b :: s) (b.high + 1) = false := by
    rw [covers_cons, contains_eq_false (by omega), hb4.covers_below (by omega), Bool.or_self]
  have hin : covers (a :: r) (b.high + 1) = true := by
    rw [covers_cons, contains_eq_true (by omega) (by omega), Bool.true_or]
  rw [h, hout] at hin
  cases hin

/-- Gaps in ascending order are settled by what they cover. -/
theorem Ascend.ext {floor top floor' top' : Nat} {as bs : List Gap} (ha : Ascend floor top as)
    (hb : Ascend floor' top' bs) (h : ∀ w, covers as w = covers bs w) : as = bs := by
  induction as generalizing floor floor' bs with
  | nil =>
    cases bs with
    | nil => rfl
    | cons b s =>
      have hstart := h b.low
      rw [covers_nil, covers_cons, contains_eq_true (Nat.le_refl _) hb.2.1, Bool.true_or] at hstart
      cases hstart
  | cons a r ih =>
    cases bs with
    | nil =>
      have hstart := h a.low
      rw [covers_nil, covers_cons, contains_eq_true (Nat.le_refl _) ha.2.1, Bool.true_or] at hstart
      cases hstart
    | cons b s =>
      have hlow : a.low = b.low :=
        Nat.le_antisymm (hb.low_le ha fun w => (h w).symm) (ha.low_le hb h)
      have hhigh : a.high = b.high :=
        Nat.le_antisymm (hb.high_le h hlow) (ha.high_le (fun w => (h w).symm) hlow.symm)
      obtain rfl : a = b := by
        cases a
        cases b
        cases hlow
        cases hhigh
        rfl
      obtain ⟨-, -, -, ha4⟩ := ha
      obtain ⟨-, -, -, hb4⟩ := hb
      rw [ih ha4 hb4 fun w => ?_]
      -- above the first gap only the others cover anything, and below their floor none of them does
      by_cases hw : w < a.high + 2
      · rw [ha4.covers_below hw, hb4.covers_below hw]
      · have hrest := h w
        rwa [covers_cons, covers_cons, contains_eq_false (by omega), Bool.false_or,
          Bool.false_or] at hrest

end Gap

namespace Holder

open Gap (Ascend covers)

/-- A run of missing versions below the highest one, as long as it can be. -/
structure MissingRun (h : Holder) (g : Gap) : Prop where
  ordered : g.low ≤ g.high
  below : g.high < h.version
  missing : ∀ v, g.low ≤ v → v ≤ g.high → h.contains v = false
  before : h.contains (g.low - 1) = true
  after : h.contains (g.high + 1) = true

/-- The highest version is the greatest one contained. -/
theorem Canonical.greatest {h : Holder} (hc : h.Canonical) :
    h.contains h.version = true ∧ ∀ v, h.contains v = true → v ≤ h.version := by
  refine ⟨?_, fun v hv => Nat.le_of_not_lt fun hlt => ?_⟩
  · simp [contains_eq, hc.gaps.covers_eq_false (Nat.le_refl _)]
  · simp [(hc.above hlt).1] at hv

/-- A version is missing from a gap exactly when it is not contained, up to the highest. -/
theorem Canonical.covers_eq {h : Holder} (hc : h.Canonical) {w : Nat} (hw : w ≤ h.version) :
    covers h.gaps w = !h.contains w := by
  cases w with
  | zero => simp [hc.gaps.covers_below Nat.zero_lt_one]
  | succ w => simp [contains_eq, hw]

theorem Canonical.missingRun_iff {h : Holder} (hc : h.Canonical) (g : Gap) :
    h.MissingRun g ↔ Gap.Maximal h.gaps g := by
  constructor
  · intro hr
    obtain ⟨ho, hb, hm, hbefore, hafter⟩ := hr
    refine ⟨ho, fun w hl hh => ?_, ?_, ?_⟩
    · rw [hc.covers_eq (by omega), hm w hl hh, Bool.not_false]
    · rw [hc.covers_eq (by omega), hbefore, Bool.not_true]
    · rw [hc.covers_eq hb, hafter, Bool.not_true]
  · intro hm
    obtain ⟨ho, hcov, hbefore, hafter⟩ := hm
    have hb := hc.gaps.bounds (hcov g.high ho (Nat.le_refl _))
    refine ⟨ho, hb.2, fun v hl hh => ?_, ?_, ?_⟩
    · simpa [hc.covers_eq (show v ≤ h.version by omega)] using hcov v hl hh
    · simpa [hc.covers_eq (show g.low - 1 ≤ h.version by omega)] using hbefore
    · simpa [hc.covers_eq (show g.high + 1 ≤ h.version from hb.2)] using hafter

/-- The gaps are exactly the runs of missing versions. -/
theorem Canonical.mem_gaps {h : Holder} (hc : h.Canonical) (g : Gap) :
    g ∈ h.gaps ↔ h.MissingRun g := by
  rw [hc.missingRun_iff, hc.gaps.mem_iff (Nat.le_refl 1)]

/-- Canonical holders of the same versions are the same holder. -/
theorem Canonical.ext {h k : Holder} (hh : h.Canonical) (hk : k.Canonical)
    (hs : ∀ v, h.contains v = k.contains v) : h = k := by
  have hv : h.version = k.version :=
    Nat.le_antisymm (hk.greatest.2 _ (hs _ ▸ hh.greatest.1))
      (hh.greatest.2 _ ((hs _).symm ▸ hk.greatest.1))
  have hg : h.gaps = k.gaps := hh.gaps.ext hk.gaps fun w => by
    by_cases hw : w ≤ h.version
    · rw [hh.covers_eq hw, hk.covers_eq (hv ▸ hw), hs]
    · rw [(hh.above (by omega)).2, (hk.above (by omega)).2]
  cases h
  cases k
  simp_all

/-- Record versions one after the other. -/
def recordAll (h : Holder) (versions : List Nat) : Checked Holder :=
  versions.foldlM (fun h v => do return (← h.record v).2) h

/-- Recording a list of versions adds them to the versions contained. -/
theorem recordAll_eq {h : Holder} (hc : h.Canonical) {versions : List Nat}
    (hv : ∀ v ∈ versions, v ≤ counterMax) :
    ∃ h', h.recordAll versions = .ok h' ∧ h'.Canonical ∧
      ∀ w, h'.contains w = (h.contains w || versions.contains w) := by
  induction versions generalizing h with
  | nil => exact ⟨h, rfl, hc, by simp⟩
  | cons v vs ih =>
    obtain ⟨h₁, hr, hg⟩ := record_eq hc (hv v List.mem_cons_self)
    obtain ⟨h', hrest, hc', hall⟩ :=
      ih hg.canonical fun w hw => hv w (List.mem_cons_of_mem _ hw)
    refine ⟨h', ?_, hc', fun w => ?_⟩
    · simp only [recordAll, List.foldlM_cons, hr, bind, Except.bind, pure, Except.pure]
      exact hrest
    · rw [hall, hg.contains, List.contains_cons, Bool.or_assoc]

/-- A holder of all versions up to `n` (with `n = 0` the empty one) in which versions are recorded,
in any order and with repetitions: nothing overflows; it contains what it began with and what was recorded; its version
is the greatest of these and its gaps are the runs of those missing, in ascending order; the next
version is reported new exactly if it was missing; and any other list of the same versions
leads to the same holder. -/
theorem recordAll_upTo {n : Nat} (hn : n ≤ counterMax) (versions : List Nat)
    (hv : ∀ v ∈ versions, v ≤ counterMax) :
    ∃ h, (Holder.upTo n).recordAll versions = .ok h ∧
      (∀ v, h.contains v = true ↔ v = 0 ∨ v ≤ n ∨ v ∈ versions) ∧
      (h.contains h.version = true ∧ ∀ v, h.contains v = true → v ≤ h.version) ∧
      (h.gaps.Pairwise (fun a b => a.high < b.low) ∧ ∀ g, g ∈ h.gaps ↔ h.MissingRun g) ∧
      (∀ v ≤ counterMax, ∃ h', h.record v = .ok (!h.contains v, h')) ∧
      ∀ versions', (∀ v, v ∈ versions' ↔ v ∈ versions) →
        (Holder.upTo n).recordAll versions' = .ok h := by
  obtain ⟨h, hrun, hc, hall⟩ := recordAll_eq (canonical_upTo hn) hv
  refine ⟨h, hrun, fun v => ?_, hc.greatest,
    ⟨hc.gaps.pairwise.imp fun hab => by omega, hc.mem_gaps⟩, fun v hle => ?_,
    fun versions' hsame => ?_⟩
  · simp [hall, contains_eq, upTo, or_assoc]
  · obtain ⟨h', hr, -⟩ := record_eq hc hle
    exact ⟨h', hr⟩
  · obtain ⟨h', hrun', hc', hall'⟩ :=
      recordAll_eq (canonical_upTo hn) fun v hw => hv v ((hsame v).mp hw)
    have heq : h' = h := hc'.ext hc fun w => by
      rw [hall', hall]
      congr 1
      rw [Bool.eq_iff_iff]
      simp [hsame]
    rw [hrun', heq]

/-- Out of order, with a repetition and with both ends of the range. -/
theorem recordAll_upTo_ends :
    ∃ h, (Holder.upTo 2).recordAll [counterMax, 0, 5, 5] = .ok h ∧ h.version = counterMax ∧
      h.gaps = [⟨3, 4⟩, ⟨6, counterMax - 1⟩] ∧
      (Holder.upTo 2).recordAll [5, 0, counterMax] = .ok h := by
  obtain ⟨h, hrun, -, -, -, -, hsame⟩ :=
    recordAll_upTo (n := 2) (by decide) [counterMax, 0, 5, 5] (by decide)
  have hrun' : (Holder.upTo 2).recordAll [counterMax, 0, 5, 5] =
      .ok ⟨counterMax, [⟨3, 4⟩, ⟨6, counterMax - 1⟩]⟩ := by rfl
  obtain rfl : h = ⟨counterMax, [⟨3, 4⟩, ⟨6, counterMax - 1⟩]⟩ := by
    rw [hrun] at hrun'
    exact Except.ok.inj hrun'
  exact ⟨_, hrun, rfl, rfl, hsame _ (by simp; grind)⟩

end Holder
end DataGrid
