import DataGrid.Proofs.Entry.Convergence
import DataGrid.Proofs.Entry.Tally
import DataGrid.Proofs.Version.Snapshot

/-
What the vector of a copy remembers of the operations that were delivered to it.
It has the region versions of those that outranked, when they arrived, all that
had arrived on their key before. An operation that comes too late is refused,
and its region version is not recorded. The slots of two copies agree once both
have had the same deliveries; their vectors need not, and what a vector lacks
neither copy may collect.
-/

namespace DataGrid.ReceivedOperation

open RegionCopy (replica sender)

variable {rules : Rules} {c : RegionCopy} {op x : ReceivedOperation} {past : List ReceivedOperation}

/-- When it arrived, the operation outranked all that had arrived on its key. -/
def Led (sequence : List ReceivedOperation) (op : ReceivedOperation) : Prop :=
  ∃ before after, sequence = before ++ op :: after ∧ Leads before op

theorem not_led_nil : ¬ Led [] x := by
  rintro ⟨before, after, h, -⟩
  cases before <;> cases h

theorem Led.mem {sequence : List ReceivedOperation} (h : Led sequence op) : op ∈ sequence := by
  obtain ⟨before, after, rfl, -⟩ := h
  simp

/-- What comes later does not change which operations led. -/
theorem led_snoc : Led (past ++ [op]) x ↔ Led past x ∨ x = op ∧ Leads past op := by
  constructor
  · rintro ⟨before, after, h, hleads⟩
    rcases List.eq_nil_or_concat after with rfl | ⟨after, last, rfl⟩
    · obtain ⟨rfl, hx⟩ := List.append_inj' h rfl
      cases hx
      exact .inr ⟨rfl, hleads⟩
    · have hsplit : past ++ [op] = (before ++ x :: after) ++ [last] := by simpa using h
      exact .inl ⟨before, after, (List.append_inj' hsplit rfl).1, hleads⟩
  · rintro (⟨before, after, rfl, hleads⟩ | ⟨rfl, hleads⟩)
    · exact ⟨before, after ++ [op], by simp, hleads⟩
    · exact ⟨past, [], rfl, hleads⟩

/-- The vector has recorded the operations that led, and nothing else. -/
def Records (sequence : List ReceivedOperation) (v : VersionVector) : Prop :=
  ∀ m n, v.contains m n = true ↔
    n = 0 ∨ ∃ op, Led sequence op ∧ m.same op.tag.member = true ∧ n = op.tag.regionVersion

/-- A copy that is settled, and whose vector has recorded what led. -/
structure Counted (past : List ReceivedOperation) (c : RegionCopy) : Prop where
  settled : Settled past c
  records : ∃ v, c.vector = some v ∧ v.Sound ∧ Records past v

theorem Fresh.counted (h : Fresh c) : Counted [] c := by
  obtain ⟨owner, hv⟩ := h.vector
  refine ⟨h.settled, _, hv, VersionVector.sound_new owner, fun m n => ?_⟩
  rw [VersionVector.contains_new, beq_iff_eq]
  exact ⟨.inl, fun h => h.resolve_right fun ⟨_, hled, _⟩ => not_led_nil hled⟩

theorem Records.snoc_leads {v v' : VersionVector} (h : Records past v) (hleads : Leads past op)
    (hrec : v.Recorded op.tag.member op.tag.regionVersion v') : Records (past ++ [op]) v' := by
  intro m n
  rw [hrec.contains, Bool.or_eq_true, Bool.and_eq_true, beq_iff_eq, h m n]
  constructor
  · rintro ((h0 | ⟨x, hled, hx⟩) | hop)
    · exact .inl h0
    · exact .inr ⟨x, led_snoc.2 (.inl hled), hx⟩
    · exact .inr ⟨op, led_snoc.2 (.inr ⟨rfl, hleads⟩), hop⟩
  · rintro (h0 | ⟨x, hled, hx⟩)
    · exact .inl (.inl h0)
    · rcases led_snoc.1 hled with hled | ⟨rfl, -⟩
      · exact .inl (.inr ⟨x, hled, hx⟩)
      · exact .inr hx

theorem Records.snoc_beaten {v : VersionVector} (h : Records past v) (hbeaten : ¬ Leads past op) :
    Records (past ++ [op]) v := by
  intro m n
  rw [h m n]
  refine or_congr_right (exists_congr fun x => and_congr_left fun _ => ?_)
  rw [led_snoc]
  exact ⟨.inl, fun h => h.resolve_right fun ⟨_, hleads⟩ => hbeaten hleads⟩

/-- An operation that loses to the one that wins does not lead. -/
theorem Wins.not_leads {best : ReceivedOperation} (h : Wins past best) (hk : best.key = op.key)
    (hle : (op.tag.rank best.tag).isLE = true) : ¬ Leads past op := by
  intro hleads
  have hgt : op.tag.rank best.tag = .gt := Std.OrientedCmp.gt_of_lt (hleads best h.1 hk)
  rw [hgt] at hle
  cases hle

/-- One delivery records the operation just if it leads. -/
theorem Counted.step (now : Int) (hcc : rules.concurrencyChecks = true) (h : Counted past c)
    (hd : Apart (past ++ [op])) :
    ∃ r w, deliver rules now c op = .ok (r, w) ∧ Counted (past ++ [op]) w.copy := by
  obtain ⟨v, hv, hsound, hrecords⟩ := h.records
  obtain ⟨r, w, hw, hsettled⟩ := h.settled.step now hcc hd
  refine ⟨r, w, hw, hsettled, ?_⟩
  rcases h.settled.meets hcc hd with ⟨hleads, hst⟩ | ⟨best, hbest, hbk, -, hle, hst⟩
  · rw [hv] at hst
    obtain ⟨_, v', hw', hvec, hrec, -⟩ := deliver_fresh now hcc h.settled.attached hv hsound hst
    cases hw.symm.trans hw'
    exact ⟨v', hvec, hrec.sound, hrecords.snoc_leads hleads hrec⟩
  · obtain ⟨_, hw', hvec, -⟩ := deliver_stale now hcc h.settled.attached rfl hst
    cases hw.symm.trans hw'
    exact ⟨v, hvec.trans hv, hsound, hrecords.snoc_beaten (hbest.not_leads hbk hle)⟩

theorem Counted.run (hcc : rules.concurrencyChecks = true)
    (sequence : List (ReceivedOperation × Int)) (h : Fresh c)
    (hd : Apart (sequence.map Prod.fst)) :
    ∃ d, deliverAll rules sequence c = .ok d ∧ Counted (sequence.map Prod.fst) d :=
  deliverAll_keeps (fun _ _ _ now h hd => h.step now hcc hd) sequence h.counted hd

/-! ## Two copies -/

variable {ops s s' : List ReceivedOperation} {v v' : VersionVector}

/-- A vector has what another one has just if what led at the other copy led here. -/
theorem Records.subset_iff (hd : Apart ops) (hs : ∀ op ∈ s, op ∈ ops) (hs' : ∀ op ∈ s', op ∈ ops)
    (hv : Records s v) (hv' : Records s' v') :
    (∀ m n, v'.contains m n = true → v.contains m n = true) ↔
      ∀ op, op.tag.regionVersion ≠ 0 → Led s' op → Led s op := by
  constructor
  · intro hsub op h0 hled
    have hhere := hsub op.tag.member op.tag.regionVersion
      ((hv' _ _).2 (.inr ⟨op, hled, Member.same_refl _, rfl⟩))
    rcases (hv _ _).1 hhere with hz | ⟨other, hother, hsame, hn⟩
    · exact absurd hz h0
    · -- the versions are apart, so it is the same operation
      have heq : op = other := Classical.byContradiction fun hne =>
        hd op (hs' op hled.mem) other (hs other hother.mem) hne h0 ⟨hn, hsame⟩
      rw [heq]
      exact hother
  · intro hsub m n hc
    rcases (hv' m n).1 hc with hz | ⟨op, hled, hsame, hn⟩
    · exact (hv m n).2 (.inl hz)
    · by_cases h0 : op.tag.regionVersion = 0
      · exact (hv m n).2 (.inl (hn.trans h0))
      · exact (hv m n).2 (.inr ⟨op, hsub op h0 hled, hsame, hn⟩)

/-- All deliveries to fresh copies succeed, and of what is delivered a vector has just the region
versions of the operations that led when they arrived. So a vector dominates the other if what led
at the other copy led here too; and where both do, the snapshots allow the same to be collected. -/
theorem deliverAll_records (hd : Apart ops) (rules rules' : Rules)
    (hcc : rules.concurrencyChecks = true) (hcc' : rules'.concurrencyChecks = true)
    {s s' : List (ReceivedOperation × Int)} (hs : Delivers s ops) (hs' : Delivers s' ops)
    {c c' : RegionCopy} (hc : Fresh c) (hc' : Fresh c') :
    ∃ d d' v v' g g' b b', deliverAll rules s c = .ok d ∧ deliverAll rules' s' c' = .ok d' ∧
      d.vector = some v ∧ d'.vector = some v' ∧ Records (s.map Prod.fst) v ∧
      Records (s'.map Prod.fst) v' ∧ v.dominates v' = .ok b ∧ v'.dominates v = .ok b' ∧
      (b = true ↔ ∀ op, op.tag.regionVersion ≠ 0 → Led (s'.map Prod.fst) op →
        Led (s.map Prod.fst) op) ∧
      v.gcSnapshot = .ok g ∧ v'.gcSnapshot = .ok g' ∧
      (∀ m n, g.isCollectable m n = true ↔ ∀ k ≤ n, v.contains m k = true) ∧
      (b = true → b' = true → ∀ m, g.gcVersion m = g'.gcVersion m) := by
  have hmem : ∀ op ∈ s.map Prod.fst, op ∈ ops := fun op => (hs op).2
  have hmem' : ∀ op ∈ s'.map Prod.fst, op ∈ ops := fun op => (hs' op).2
  obtain ⟨d, hrun, -, v, hv, hsound, hrec⟩ := Counted.run hcc s hc (hd.subset hmem)
  obtain ⟨d', hrun', -, v', hv', hsound', hrec'⟩ := Counted.run hcc' s' hc' (hd.subset hmem')
  obtain ⟨b, hb, hiff⟩ := VersionVector.dominates_eq hsound hsound'
  obtain ⟨b', hb', hiff'⟩ := VersionVector.dominates_eq hsound' hsound
  obtain ⟨g, hg, -, hcollect⟩ := VersionVector.gcSnapshot_eq hsound
  obtain ⟨g', hg', -, -⟩ := VersionVector.gcSnapshot_eq hsound'
  refine ⟨d, d', v, v', g, g', b, b', hrun, hrun', hv, hv', hrec, hrec', hb, hb',
    hiff.trans (Records.subset_iff hd hmem hmem' hrec hrec'), hg, hg', hcollect, fun ht ht' => ?_⟩
  exact VersionVector.gcVersion_snapshots hsound hsound'
    (fun m n => Bool.eq_iff_iff.2 ⟨hiff'.1 ht' m n, hiff.1 ht m n⟩) hg hg'

/-- Two writes of one key, the first and the second of their member. -/
def firstWrite : ReceivedOperation :=
  .ofPut "k" "v" ⟨sender, 1, 1, 0, none⟩ rfl (by decide)

def secondWrite : ReceivedOperation :=
  .ofPut "k" "w" ⟨sender, 2, 2, 0, none⟩ rfl (by decide)

/-- A copy of a third member that has received nothing. -/
def empty : RegionCopy := { vector := some { owner := { address := .localhost, port := 2 } } }

theorem fresh_empty : Fresh empty := fresh_new _

/-- Where the second write arrives first the other one never leads, so that copy does not dominate
the one that had them in order. -/
theorem deliverAll_records_overtaken :
    Apart [firstWrite, secondWrite] ∧ Led [firstWrite, secondWrite] firstWrite ∧
      ¬ Led [secondWrite, firstWrite] firstWrite ∧
      ∃ d d' v v', deliverAll replica [(secondWrite, 0), (firstWrite, 1)] empty = .ok d ∧
        deliverAll replica [(firstWrite, 0), (secondWrite, 1)] empty = .ok d' ∧
        d.vector = some v ∧ d'.vector = some v' ∧ v.dominates v' = .ok false := by
  have hd : Apart [firstWrite, secondWrite] := by
    intro a ha b hb
    simp only [List.mem_cons, List.not_mem_nil, or_false] at ha hb
    rcases ha with rfl | rfl <;> rcases hb with rfl | rfl <;> simp [firstWrite, secondWrite, ofPut]
  have hs : Delivers [(secondWrite, 0), (firstWrite, 1)] [firstWrite, secondWrite] :=
    fun op => by simp [or_comm]
  have hs' : Delivers [(firstWrite, 0), (secondWrite, 1)] [firstWrite, secondWrite] :=
    fun op => by simp
  have hled : Led [firstWrite, secondWrite] firstWrite :=
    ⟨[], [secondWrite], rfl, fun other ho => absurd ho List.not_mem_nil⟩
  have hbeaten : ¬ Led ([secondWrite] ++ [firstWrite]) firstWrite := by
    intro h
    rcases led_snoc.1 h with h | ⟨-, hleads⟩
    · have hversion := congrArg (fun op => op.tag.regionVersion) (List.mem_singleton.1 h.mem)
      exact absurd hversion (by decide)
    · have hlt := hleads secondWrite (List.mem_singleton.2 rfl) rfl
      exact absurd hlt (by decide)
  obtain ⟨d, d', v, v', -, -, b, -, h, h', hv, hv', -, -, hb, -, hiff, -⟩ :=
    deliverAll_records hd replica replica rfl rfl hs hs' fresh_empty fresh_empty
  refine ⟨hd, hled, hbeaten, d, d', v, v', h, h', hv, hv', ?_⟩
  rw [hb, Bool.eq_false_iff.2 fun ht => hbeaten (hiff.1 ht firstWrite (by decide) hled)]

/-- After the two orders the slots agree. But one vector lacks the first write, though it was
delivered, and its snapshot allows nothing to be collected. -/
theorem vectors_differ_by_order :
    ∃ d d' v v' g g', deliverAll replica [(secondWrite, 0), (firstWrite, 1)] empty = .ok d ∧
      deliverAll replica [(firstWrite, 0), (secondWrite, 1)] empty = .ok d' ∧
      d.slot? "k" = d'.slot? "k" ∧ d.vector = some v ∧ d'.vector = some v' ∧
      v.contains sender 1 = false ∧ v'.contains sender 1 = true ∧
      v.gcSnapshot = .ok g ∧ v'.gcSnapshot = .ok g' ∧
      g.gcVersion sender = 0 ∧ g'.gcVersion sender = 2 :=
  ⟨_, _, _, _, _, _, rfl, rfl, rfl, rfl, rfl, rfl, rfl, rfl, rfl, rfl, rfl⟩

end DataGrid.ReceivedOperation
