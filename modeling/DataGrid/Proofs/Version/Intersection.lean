import DataGrid.Proofs.Version.Canonical

/-
What two lists of gaps miss alike. The lists are walked side by side, and each
step leaves everything behind up to the end that comes first; what both lists
cover up to there is among the gaps found (`Gap.intersectInto_eq`). The gaps
found ascend and do not touch, whatever touched in the lists, and no counter
passes its end on the way. Ranges that do not touch are determined by what they
cover, so the answer is the one such list for both (`Gap.intersect_canonical`).
-/

namespace DataGrid

open Counter

namespace Gap

/-- Gaps in ascending order from `floor` on, within the range of a counter. They may touch. -/
def Apart (floor : Nat) : List Gap → Prop
  | [] => floor ≤ counterMax + 1
  | g :: r => floor ≤ g.low ∧ g.low ≤ g.high ∧ Apart (g.high + 1) r

theorem Apart.le {floor : Nat} {gaps : List Gap} (h : Apart floor gaps) :
    floor ≤ counterMax + 1 := by
  induction gaps generalizing floor with
  | nil => exact h
  | cons g r ih =>
    obtain ⟨h1, h2, h3⟩ := h
    have := ih h3
    omega

theorem Apart.covers_below {floor w : Nat} {gaps : List Gap} (h : Apart floor gaps)
    (hw : w < floor) : covers gaps w = false := by
  induction gaps generalizing floor with
  | nil => rfl
  | cons g r ih =>
    obtain ⟨h1, h2, h3⟩ := h
    rw [covers_cons, contains_eq_false (by omega), ih h3 (by omega), Bool.or_self]

/-- Gaps that do not touch are apart. -/
theorem Ascend.apart {floor top : Nat} {gaps : List Gap} (h : Ascend floor top gaps)
    (hf : floor ≤ counterMax + 1) (ht : top ≤ counterMax + 1) : Apart floor gaps := by
  induction gaps generalizing floor with
  | nil => exact hf
  | cons g r ih =>
    obtain ⟨h1, h2, h3, h4⟩ := h
    exact ⟨h1, h2, ih (h4.mono (by omega)) (by omega)⟩

/-- The last of several gaps leaves at least one version out above those before it. -/
theorem ascend_concat {floor top : Nat} {gaps : List Gap} {g : Gap} :
    Ascend floor top (gaps ++ [g]) ↔
      Ascend floor (g.low - 1) gaps ∧ floor ≤ g.low ∧ g.low ≤ g.high ∧ g.high < top := by
  induction gaps generalizing floor with
  | nil => simp [Ascend]
  | cons a r ih =>
    simp only [List.cons_append, Ascend, ih]
    constructor
    · rintro ⟨h1, h2, -, hr, hlow, hg⟩
      exact ⟨⟨h1, h2, by omega, hr⟩, by omega, hg⟩
    · rintro ⟨⟨h1, h2, h3, hr⟩, -, hg, hhigh⟩
      exact ⟨h1, h2, by omega, hr, by omega, hg, hhigh⟩

/-- The top can be lowered to whatever lies above all that is covered. -/
theorem Ascend.lower {floor top top' : Nat} {gaps : List Gap} (h : Ascend floor top gaps)
    (hc : ∀ w, covers gaps w = true → w < top') : Ascend floor top' gaps := by
  induction gaps generalizing floor with
  | nil => trivial
  | cons g r ih =>
    obtain ⟨h1, h2, h3, h4⟩ := h
    refine ⟨h1, h2, hc g.high ?_, ih h4 fun w hw => hc w ?_⟩
    · rw [covers_cons, contains_eq_true h2 (Nat.le_refl _), Bool.true_or]
    · rw [covers_cons, hw, Bool.or_true]

theorem covers_reverse (gaps : List Gap) (w : Nat) : covers gaps.reverse w = covers gaps w := by
  simp [covers]

/-! ## One step -/

/-- What two gaps have in common; empty if that is nothing. -/
def meet (a b : Gap) : Gap := ⟨max a.low b.low, min a.high b.high⟩

theorem contains_meet (a b : Gap) (w : Nat) :
    (meet a b).contains w = (a.contains w && b.contains w) := by
  rw [Bool.eq_iff_iff]
  simp only [meet, Gap.contains, Bool.and_eq_true, decide_eq_true_eq, Nat.max_le, Nat.le_min]
  omega

/-- Add a gap above all those found, which stand last first. An empty one is left out, and one that
touches the last of them is joined to it. -/
def push (out : List Gap) (g : Gap) : Checked (List Gap) :=
  if g.high < g.low then .ok out else
    match out with
    | [] => .ok [g]
    | last :: older => do
      let next ← Counter.add last.high 1
      .ok (if next = g.low then ⟨last.low, g.high⟩ :: older else g :: last :: older)

theorem intersectInto_cons (out : List Gap) (a b : Gap) (as bs : List Gap) :
    intersectInto out (a :: as) (b :: bs) = (do
      let out ← push out (meet a b)
      if a.high < b.high then intersectInto out as (b :: bs)
      else intersectInto out (a :: as) bs) := by
  by_cases hempty : min a.high b.high < max a.low b.low
  · have hpush : push out (meet a b) = .ok out := if_pos hempty
    cases out <;> simp only [intersectInto, if_pos hempty, hpush]
  · cases out with
    | nil =>
      have hpush : push [] (meet a b) = .ok [meet a b] := if_neg hempty
      simp only [intersectInto, if_neg hempty, hpush]
      rfl
    | cons last older =>
      rw [push, if_neg (show ¬ (meet a b).high < (meet a b).low from hempty)]
      simp only [intersectInto, if_neg hempty]
      cases add last.high 1 <;> rfl

theorem intersectInto_nil_left (out bs : List Gap) : intersectInto out [] bs = .ok out := by
  simp [intersectInto]

theorem intersectInto_nil_right (out as : List Gap) : intersectInto out as [] = .ok out := by
  simp [intersectInto]

/-- The gap is among those found, besides those before it. -/
theorem push_eq {floor top : Nat} {out : List Gap} {g : Gap}
    (hout : Ascend floor top out.reverse) (hlow : top ≤ g.low) (hf : floor ≤ g.low)
    (hmax : g.high ≤ counterMax) :
    ∃ out', push out g = .ok out' ∧ Ascend floor (max top (g.high + 1)) out'.reverse ∧
      ∀ w, covers out' w = (covers out w || g.contains w) := by
  by_cases hempty : g.high < g.low
  · refine ⟨out, by simp only [push, if_pos hempty], hout.raise (by omega), fun w => ?_⟩
    rw [contains_eq_false (by omega), Bool.or_false]
  cases out with
  | nil =>
    refine ⟨[g], by simp only [push, if_neg hempty], ⟨hf, by omega, by omega, trivial⟩,
      fun w => ?_⟩
    simp
  | cons last older =>
    rw [List.reverse_cons, ascend_concat] at hout
    obtain ⟨holder, hlf, hlh, hlt⟩ := hout
    have hadd : add last.high 1 = .ok (last.high + 1) := add_eq_ok (by omega)
    simp only [push, if_neg hempty, hadd, bind, Except.bind]
    by_cases htouch : last.high + 1 = g.low
    · refine ⟨⟨last.low, g.high⟩ :: older, by rw [if_pos htouch], ?_, fun w => ?_⟩
      · rw [List.reverse_cons, ascend_concat]
        exact ⟨holder, hlf, by simp only; omega, by simp only; omega⟩
      · have hjoined : Gap.contains ⟨last.low, g.high⟩ w = (last.contains w || g.contains w) := by
          rw [Bool.eq_iff_iff]
          simp only [Gap.contains, Bool.or_eq_true, Bool.and_eq_true, decide_eq_true_eq]
          omega
        rw [covers_cons, covers_cons, hjoined, Bool.or_right_comm]
    · refine ⟨g :: last :: older, by rw [if_neg htouch], ?_, fun w => ?_⟩
      · rw [List.reverse_cons, ascend_concat]
        refine ⟨?_, hf, by omega, by omega⟩
        rw [List.reverse_cons, ascend_concat]
        exact ⟨holder, hlf, hlh, by omega⟩
      · rw [covers_cons, Bool.or_comm]

/-! ## The whole walk -/

/-- What is found in the end: what was found before, and what both lists cover from there on. -/
theorem intersectInto_eq {floor top fa fb : Nat} {out as bs : List Gap} (ha : Apart fa as)
    (hb : Apart fb bs) (hout : Ascend floor top out.reverse) (hf : floor ≤ fa)
    (htop : top ≤ max fa fb) :
    ∃ gaps, intersectInto out as bs = .ok gaps ∧ Ascend floor (counterMax + 1) gaps.reverse ∧
      ∀ w, covers gaps w = (covers out w || (covers as w && covers bs w)) := by
  have hend : top ≤ counterMax + 1 := by
    have := ha.le
    have := hb.le
    omega
  induction as generalizing out bs fa fb top with
  | nil => exact ⟨out, intersectInto_nil_left out bs, hout.raise hend, by simp⟩
  | cons a as iha =>
    induction bs generalizing out fb top with
    | nil => exact ⟨out, intersectInto_nil_right out _, hout.raise hend, by simp⟩
    | cons b bs ihb =>
      obtain ⟨ha1, ha2, ha3⟩ := ha
      obtain ⟨hb1, hb2, hb3⟩ := hb
      have hale := ha3.le
      have hble := hb3.le
      obtain ⟨out', hpush, hout', hcov⟩ := push_eq (g := meet a b) hout
        (by simp only [meet]; omega) (by simp only [meet]; omega) (by simp only [meet]; omega)
      simp only [contains_meet] at hcov
      simp only [meet] at hout'
      simp only [intersectInto_cons, hpush, bind, Except.bind]
      by_cases hlt : a.high < b.high
      · obtain ⟨gaps, hrun, hasc, hall⟩ := iha ha3 (show Apart fb (b :: bs) from ⟨hb1, hb2, hb3⟩)
          hout' (by omega) (by omega) (by omega)
        refine ⟨gaps, by rw [if_pos hlt, hrun], hasc, fun w => ?_⟩
        -- the other gaps of the second list lie above the first gap of the first
        have hover : a.contains w = true → covers bs w = false := by
          intro hw
          simp only [Gap.contains, Bool.and_eq_true, decide_eq_true_eq] at hw
          exact hb3.covers_below (by omega)
        rw [hall, hcov, covers_cons, covers_cons]
        cases hw : a.contains w with
        | true => grind [hover hw]
        | false => simp
      · obtain ⟨gaps, hrun, hasc, hall⟩ := ihb hb3 hout' (by omega) (by omega)
        refine ⟨gaps, by rw [if_neg hlt, hrun], hasc, fun w => ?_⟩
        -- the other gaps of the first list lie above the first gap of the second
        have hover : b.contains w = true → covers as w = false := by
          intro hw
          simp only [Gap.contains, Bool.and_eq_true, decide_eq_true_eq] at hw
          exact ha3.covers_below (by omega)
        rw [hall, hcov, covers_cons, covers_cons]
        cases hw : b.contains w with
        | true => grind [hover hw]
        | false => simp

/-- The gaps of both lists alike, none of which touch. -/
theorem intersect_eq {floor : Nat} {as bs : List Gap} (ha : Apart floor as) (hb : Apart floor bs) :
    ∃ gaps, intersect as bs = .ok gaps ∧ Ascend floor (counterMax + 1) gaps ∧
      ∀ w, covers gaps w = (covers as w && covers bs w) := by
  have hnone : Ascend floor 0 ([] : List Gap).reverse := trivial
  obtain ⟨gaps, hrun, hasc, hcov⟩ :=
    intersectInto_eq ha hb hnone (Nat.le_refl floor) (Nat.zero_le _)
  refine ⟨gaps.reverse, ?_, hasc, fun w => ?_⟩
  · rw [intersect, hrun]
    rfl
  · rw [covers_reverse, hcov, covers_nil, Bool.false_or]

/-! ## The canonical list -/

/-- Ranges of versions in ascending order, none of them empty, that leave out at least so many
versions between one and the next. -/
structure Spaced (room : Nat) (gaps : List Gap) : Prop where
  ordered : ∀ g ∈ gaps, g.low ≤ g.high
  bounded : ∀ g ∈ gaps, g.high ≤ counterMax
  spaced : gaps.Pairwise fun a b => a.high + room < b.low

theorem Spaced.tail {room : Nat} {g : Gap} {r : List Gap} (h : Spaced room (g :: r)) :
    Spaced room r where
  ordered a ha := h.ordered a (List.mem_cons_of_mem g ha)
  bounded a ha := h.bounded a (List.mem_cons_of_mem g ha)
  spaced := (List.pairwise_cons.1 h.spaced).2

/-- Ranges that may touch. -/
theorem Spaced.apart {floor : Nat} {gaps : List Gap} (h : Spaced 0 gaps)
    (hlow : ∀ g ∈ gaps, floor ≤ g.low) (hf : floor ≤ counterMax + 1) : Apart floor gaps := by
  induction gaps generalizing floor with
  | nil => exact hf
  | cons g r ih =>
    have habove := (List.pairwise_cons.1 h.spaced).1
    have hhigh := h.bounded g List.mem_cons_self
    exact ⟨hlow g List.mem_cons_self, h.ordered g List.mem_cons_self,
      ih h.tail (fun a ha => habove a ha) (by omega)⟩

/-- Ranges that do not touch. -/
theorem Spaced.ascend {floor : Nat} {gaps : List Gap} (h : Spaced 1 gaps)
    (hlow : ∀ g ∈ gaps, floor ≤ g.low) : Ascend floor (counterMax + 1) gaps := by
  induction gaps generalizing floor with
  | nil => trivial
  | cons g r ih =>
    have habove := (List.pairwise_cons.1 h.spaced).1
    have hhigh := h.bounded g List.mem_cons_self
    exact ⟨hlow g List.mem_cons_self, h.ordered g List.mem_cons_self, by omega,
      ih h.tail fun a ha => habove a ha⟩

theorem Ascend.spaced {floor : Nat} {gaps : List Gap} (h : Ascend floor (counterMax + 1) gaps) :
    Spaced 1 gaps where
  ordered _ hg := (h.bounds_of_mem hg).2.1
  bounded _ hg := Nat.le_of_lt_succ (h.bounds_of_mem hg).2.2
  spaced := h.pairwise.imp fun hab => hab.2

/-- Of two lists of ranges that may touch, the intersection overflows nowhere, up to the last version
that there is. It is the one list of ranges that do not touch whose versions are those of both. -/
theorem intersect_canonical {as bs : List Gap} (ha : Spaced 0 as) (hb : Spaced 0 bs) :
    ∃ gaps, intersect as bs = .ok gaps ∧ Spaced 1 gaps ∧
      (∀ v, covers gaps v = true ↔ covers as v = true ∧ covers bs v = true) ∧
      ∀ gaps', Spaced 1 gaps' →
        (∀ v, covers gaps' v = true ↔ covers as v = true ∧ covers bs v = true) → gaps' = gaps := by
  have hfloor : ∀ (gaps : List Gap), ∀ g ∈ gaps, 0 ≤ g.low := fun _ _ _ => Nat.zero_le _
  obtain ⟨gaps, hrun, hasc, hcov⟩ :=
    intersect_eq (ha.apart (hfloor as) (Nat.zero_le _)) (hb.apart (hfloor bs) (Nat.zero_le _))
  have hboth : ∀ v, covers gaps v = true ↔ covers as v = true ∧ covers bs v = true := fun v => by
    rw [hcov, Bool.and_eq_true]
  refine ⟨gaps, hrun, hasc.spaced, hboth, fun gaps' hgaps' hboth' => ?_⟩
  refine (hgaps'.ascend (hfloor gaps')).ext hasc fun v => ?_
  rw [Bool.eq_iff_iff, hboth', hboth]

/-- Ranges that touch in either list, ends that coincide, and both ends of the versions. -/
theorem intersect_canonical_touching :
    Spaced 0 [⟨0, 2⟩, ⟨3, 5⟩, ⟨9, counterMax⟩] ∧
      Spaced 0 [⟨0, 0⟩, ⟨1, 3⟩, ⟨4, 9⟩, ⟨counterMax, counterMax⟩] ∧
      intersect [⟨0, 2⟩, ⟨3, 5⟩, ⟨9, counterMax⟩]
          [⟨0, 0⟩, ⟨1, 3⟩, ⟨4, 9⟩, ⟨counterMax, counterMax⟩] =
        .ok [⟨0, 5⟩, ⟨9, 9⟩, ⟨counterMax, counterMax⟩] ∧
      Spaced 1 [⟨0, 5⟩, ⟨9, 9⟩, ⟨counterMax, counterMax⟩] := by
  have ha : Spaced 0 [⟨0, 2⟩, ⟨3, 5⟩, ⟨9, counterMax⟩] := ⟨by decide, by decide, by decide⟩
  have hb : Spaced 0 [⟨0, 0⟩, ⟨1, 3⟩, ⟨4, 9⟩, ⟨counterMax, counterMax⟩] :=
    ⟨by decide, by decide, by decide⟩
  have hrun : intersect [⟨0, 2⟩, ⟨3, 5⟩, ⟨9, counterMax⟩]
      [⟨0, 0⟩, ⟨1, 3⟩, ⟨4, 9⟩, ⟨counterMax, counterMax⟩] =
      .ok [⟨0, 5⟩, ⟨9, 9⟩, ⟨counterMax, counterMax⟩] := by cbv
  obtain ⟨gaps, hgaps, hspaced, -⟩ := intersect_canonical ha hb
  obtain rfl : gaps = [⟨0, 5⟩, ⟨9, 9⟩, ⟨counterMax, counterMax⟩] := by
    rw [hrun] at hgaps
    exact (Except.ok.inj hgaps).symm
  exact ⟨ha, hb, hrun, hspaced⟩

end Gap
end DataGrid
