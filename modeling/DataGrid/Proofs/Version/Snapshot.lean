import DataGrid.Proofs.Version.History

/-
What a snapshot for collecting tombstones allows: of each member, the versions
up to the first one that is missing (`VersionVector.gcSnapshot_eq`). A version
that was received and not recorded therefore holds back all that come after it.
-/

namespace DataGrid.VersionVector

open Counter Gap

variable {v s : VersionVector}

/-- The first gap begins with the lowest version that is missing. -/
theorem contains_below_gap {h : Holder} (hh : h.Canonical) {g : Gap} {r : List Gap}
    (hg : h.gaps = g :: r) :
    1 ≤ g.low ∧ (∀ k < g.low, h.contains k = true) ∧ h.contains g.low = false := by
  have hgaps := hh.gaps
  rw [hg] at hgaps
  obtain ⟨hlow, hhigh, htop, hrest⟩ := hgaps
  have hbelow : Ascend g.low h.version (g :: r) := ⟨Nat.le_refl _, hhigh, htop, hrest⟩
  simp only [Holder.contains_eq, hg]
  refine ⟨hlow, fun k hk => ?_, ?_⟩
  · simp only [hbelow.covers_below hk, Bool.not_false, Bool.and_true, Bool.or_eq_true, beq_iff_eq,
      decide_eq_true_eq]
    omega
  · rw [covers_cons, contains_eq_true (Nat.le_refl _) hhigh, Bool.true_or, Bool.not_true,
      Bool.and_false, Bool.or_false, beq_eq_false_iff_ne]
    omega

/-- A holder is complete up to the version before its first gap. -/
theorem completeUpTo_eq {h : Holder} (hh : h.Canonical) :
    ∃ x, completeUpTo h = .ok x ∧ ∀ n, n ≤ x ↔ ∀ k ≤ n, h.contains k = true := by
  simp only [completeUpTo]
  cases hg : h.gaps with
  | nil =>
    simp only [Holder.contains_eq, hg, covers_nil, Bool.not_false, Bool.and_true, Bool.or_eq_true,
      beq_iff_eq, decide_eq_true_eq]
    refine ⟨h.version, rfl, fun n => ⟨fun hn k hk => .inr (by omega), fun hall => ?_⟩⟩
    have := hall n (Nat.le_refl n)
    omega
  | cons g r =>
    obtain ⟨hlow, hbelow, hmissing⟩ := contains_below_gap hh hg
    refine ⟨g.low - 1, sub_eq_ok hlow, fun n => ⟨fun hn k hk => hbelow k (by omega), fun hall => ?_⟩⟩
    refine Nat.le_of_not_lt fun hn => ?_
    have hin := hall g.low (by omega)
    rw [hmissing] at hin
    cases hin

theorem isCollectable_recordGc (m m' : Member) (x n : Nat) :
    (s.recordGc m x).isCollectable m' n = true ↔
      s.isCollectable m' n = true ∨ m'.same m = true ∧ n ≤ x := by
  simp only [isCollectable, gcVersion_recordGc, decide_eq_true_eq]
  split
  next hs =>
    simp only [hs, true_and]
    omega
  next hs => simp only [hs, Bool.false_eq_true, false_and, or_false]

/-- The steps of a snapshot over some holders. -/
theorem snapshot_fold {l : List (Member × Holder)} (hl : ∀ p ∈ l, p.2.Canonical) :
    ∃ g, l.foldlM (fun s p => do return s.recordGc p.1 (← completeUpTo p.2)) s = .ok g ∧
      g.owner = s.owner ∧ ∀ m n, g.isCollectable m n = true ↔ s.isCollectable m n = true ∨
        ∃ p ∈ l, m.same p.1 = true ∧ ∀ k ≤ n, p.2.contains k = true := by
  induction l generalizing s with
  | nil => exact ⟨s, rfl, rfl, by simp⟩
  | cons p r ih =>
    obtain ⟨x, hx, hle⟩ := completeUpTo_eq (hl p List.mem_cons_self)
    obtain ⟨g, hg, howner, hcollect⟩ :=
      ih (s := s.recordGc p.1 x) fun q hq => hl q (List.mem_cons_of_mem _ hq)
    refine ⟨g, ?_, howner, fun m n => ?_⟩
    · simp only [List.foldlM_cons, hx, bind, Except.bind, pure, Except.pure]
      exact hg
    · rw [hcollect, isCollectable_recordGc, hle, List.exists_mem_cons_iff, or_assoc]

theorem contains_of_mem {p : Member × Holder} (hp : p ∈ v.holders.toList) {m : Member}
    (hs : m.same p.1 = true) (n : Nat) : v.contains m n = p.2.contains n :=
  contains_of_find? ((OrdMap.find?_eq_some_iff _).2 ⟨p.1, Member.same_iff.1 hs, hp⟩) n

/-- A snapshot allows a version to be collected if that version and all before it are contained. -/
theorem gcSnapshot_eq (hv : v.Sound) :
    ∃ g, v.gcSnapshot = .ok g ∧ g.owner = v.owner ∧
      ∀ m n, g.isCollectable m n = true ↔ ∀ k ≤ n, v.contains m k = true := by
  obtain ⟨g, hg, howner, hcollect⟩ :=
    snapshot_fold (s := { owner := v.owner }) fun p hp => hv.canonical_of_mem hp
  refine ⟨g, hg, howner, fun m n => (hcollect m n).trans ⟨?_, fun hall => ?_⟩⟩
  · rintro (hnone | ⟨p, hp, hs, hall⟩) k hk
    · have hn : n = 0 := by simpa [isCollectable, gcVersion] using hnone
      have hk0 : k = 0 := by omega
      rw [hk0, contains_zero]
    · rw [contains_of_mem hp hs, hall k hk]
  · rcases ((mem_holders v).2 n).1 (hall n (Nat.le_refl n)) with rfl | ⟨p, hp, hs, -⟩
    · exact .inl rfl
    · exact .inr ⟨p, hp, hs, fun k hk => by rw [← contains_of_mem hp hs, hall k hk]⟩

/-- Vectors that contain the same give the same snapshot, whoever owns them. -/
theorem gcVersion_snapshots {v' g g' : VersionVector} (hv : v.Sound) (hv' : v'.Sound)
    (hcont : ∀ m n, v.contains m n = v'.contains m n) (hg : v.gcSnapshot = .ok g)
    (hg' : v'.gcSnapshot = .ok g') (m : Member) : g.gcVersion m = g'.gcVersion m := by
  obtain ⟨_, h, -, hcollect⟩ := gcSnapshot_eq hv
  cases hg.symm.trans h
  obtain ⟨_, h', -, hcollect'⟩ := gcSnapshot_eq hv'
  cases hg'.symm.trans h'
  have hle : ∀ n, n ≤ g.gcVersion m ↔ n ≤ g'.gcVersion m := by
    intro n
    have h := hcollect m n
    have h' := hcollect' m n
    simp only [isCollectable, decide_eq_true_eq] at h h'
    simp only [h, h', hcont]
  exact Nat.le_antisymm ((hle _).1 (Nat.le_refl _)) ((hle _).2 (Nat.le_refl _))

/-! ## Snapshots of vectors with a history -/

variable {h : History} {a : Account}

/-- Of every vector, whatever has been recorded in it and merged into it, a snapshot can be taken.
It allows a version of a member to be collected just if no version from 1 up to it is missing. So
nothing from the first missing version on is collected, and nothing that was never given out,
recorded or merged in. -/
theorem collectable_below_gap (hrun : h.run = .ok a) :
    ∃ g, a.vector.gcSnapshot = .ok g ∧
      (∀ m n, g.isCollectable m n = true ↔ ∀ k, 1 ≤ k → k ≤ n → a.vector.contains m k = true) ∧
      (∀ m gap rest, (a.vector.holderOf m).gaps = gap :: rest →
        1 ≤ gap.low ∧ ∀ n, g.isCollectable m n = true ↔ n < gap.low) ∧
      ∀ m n, g.isCollectable m n = true → ∀ k, 1 ≤ k → k ≤ n → Named a.versions m k := by
  have ha := History.faithful hrun
  have hsound := ha.abreast.sound
  obtain ⟨g, hg, -, hcollect⟩ := gcSnapshot_eq hsound
  -- version 0 is contained in every vector
  have hexact (m : Member) (n : Nat) : g.isCollectable m n = true ↔
      ∀ k, 1 ≤ k → k ≤ n → a.vector.contains m k = true := by
    refine (hcollect m n).trans ⟨fun hall k _ hk => hall k hk, fun hall k hk => ?_⟩
    rcases Nat.eq_zero_or_pos k with rfl | hpos
    · exact contains_zero _ m
    · exact hall k hpos hk
  refine ⟨g, hg, hexact, fun m gap rest hgaps => ?_, fun m n hn k hpos hk => ?_⟩
  · obtain ⟨hlow, hbelow, hmissing⟩ := contains_below_gap (hsound.holderOf m) hgaps
    refine ⟨hlow, fun n => (hcollect m n).trans ?_⟩
    simp only [contains_eq_holderOf]
    refine ⟨fun hall => Nat.lt_of_not_le fun hle => ?_, fun hn k hk => hbelow k (by omega)⟩
    rw [hall gap.low hle] at hmissing
    cases hmissing
  · refine ((ha.contains m k).1 ((hexact m n).1 hn k hpos hk)).resolve_left ?_
    omega

/-- A vector that has versions 1, 2, 4 and 5 of its owner by the way of two merges, and was told that
tombstones of another member may go up to version 3. -/
theorem collectable_below_gap_tangled :
    ∃ a g, tangled.1.run = .ok a ∧ a.vector.gcSnapshot = .ok g ∧
      a.vector.contains a.vector.owner 4 = true ∧
      (∀ n, g.isCollectable a.vector.owner n = true ↔ n < 3) := by
  have hholders : tangled.1.run.toOption.map (fun a =>
      ((a.vector.holderOf a.vector.owner).gaps, a.vector.contains a.vector.owner 4)) =
        some ([⟨3, 3⟩], true) := by decide +kernel
  obtain ⟨a, -, -, hrun, -⟩ := ran_tangled
  rw [hrun] at hholders
  obtain ⟨hgaps, hfour⟩ : (a.vector.holderOf a.vector.owner).gaps = [⟨3, 3⟩] ∧
      a.vector.contains a.vector.owner 4 = true := by
    simpa only [Except.toOption, Option.map_some, Option.some.injEq, Prod.mk.injEq] using hholders
  obtain ⟨g, hg, -, hgap, -⟩ := collectable_below_gap hrun
  exact ⟨a, g, hrun, hg, hfour, (hgap _ _ _ hgaps).2⟩

end DataGrid.VersionVector
