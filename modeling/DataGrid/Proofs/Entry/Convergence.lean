import DataGrid.Proofs.Entry.Operations
import DataGrid.Proofs.Version.Conflict

/-
Copies that receive the same versioned puts and destroys end in the same slots,
in whatever order the operations arrive and however often each of them does.
On every key the operation with the highest version wins, members breaking
ties.

What carries the induction over the deliveries (`Settled`): each slot is that
of the operation that wins among those delivered for its key, and a key without
a slot has had no delivery. The vector contains no region version but of an
operation delivered, so an absent key lets every operation pass.
-/

namespace DataGrid

/-- What an operation makes of its key. -/
inductive Deed
  | put (v : Value)
  | destroy

def Deed.token : Deed → Token
  | .put v => .valid v
  | .destroy => .tombstone

/-- A put or a destroy as received from another member, with a valid tag. -/
structure ReceivedOperation where
  event : EntryEvent
  deed : Deed
  tag : VersionTag
  remote : event.remote = true
  tagged : event.tag = some tag
  valid : tag.isValid = true
  regionVersion_le : tag.regionVersion ≤ counterMax
  valued : ∀ v, deed = .put v → event.newValue = some v

namespace ReceivedOperation

def key (op : ReceivedOperation) : Key := op.event.key

/-- The slot that the operation leaves. -/
def slot (op : ReceivedOperation) : Slot := ⟨op.deed.token, .ofTag op.tag⟩

def ofPut (k : Key) (v : Value) (t : VersionTag) (h : t.isValid = true)
    (hn : t.regionVersion ≤ counterMax) : ReceivedOperation where
  event := { EntryEvent.ofPut k v with remote := true, tag := some t }
  deed := .put v
  tag := t
  remote := rfl
  tagged := rfl
  valid := h
  regionVersion_le := hn
  valued := fun _ hv => by cases hv; rfl

def ofDestroy (k : Key) (t : VersionTag) (h : t.isValid = true)
    (hn : t.regionVersion ≤ counterMax) : ReceivedOperation where
  event := { EntryEvent.ofDestroy k with remote := true, tag := some t }
  deed := .destroy
  tag := t
  remote := rfl
  tagged := rfl
  valid := h
  regionVersion_le := hn
  valued := fun _ hv => by cases hv

/-- Let a copy have the operation at a time. -/
def deliver (rules : Rules) (now : Int) (c : RegionCopy) (op : ReceivedOperation) :
    Checked (Applied × Task) :=
  match op.deed with
  | .put _ => Task.put rules now {} {} { copy := c, event := op.event }
  | .destroy => Task.destroy rules now {} {} { copy := c, event := op.event }

/-- Let a copy have operations one after the other, each at its time. -/
def deliverAll (rules : Rules) (sequence : List (ReceivedOperation × Int)) (c : RegionCopy) :
    Checked RegionCopy :=
  sequence.foldlM (fun c p => do return (← deliver rules p.2 c p.1).2.copy) c

/-- No two operations on a key have the same entry version and member, and no two have the same
region version of a member. -/
def Distinct (ops : List ReceivedOperation) : Prop :=
  ∀ a ∈ ops, ∀ b ∈ ops, a ≠ b →
    (a.key = b.key →
      ¬ (a.tag.entryVersion = b.tag.entryVersion ∧ a.tag.member.same b.tag.member = true)) ∧
    (a.tag.regionVersion ≠ 0 →
      ¬ (a.tag.regionVersion = b.tag.regionVersion ∧ a.tag.member.same b.tag.member = true))

/-- No two operations have the same region version of a member. -/
def Apart (ops : List ReceivedOperation) : Prop :=
  ∀ a ∈ ops, ∀ b ∈ ops, a ≠ b → a.tag.regionVersion ≠ 0 →
    ¬ (a.tag.regionVersion = b.tag.regionVersion ∧ a.tag.member.same b.tag.member = true)

/-- The sequence delivers each of the operations, once or repeatedly, and no others. -/
def Delivers (sequence : List (ReceivedOperation × Int)) (ops : List ReceivedOperation) : Prop :=
  ∀ op, op ∈ ops ↔ op ∈ sequence.map Prod.fst

/-- The operation outranks all on its key that came before. -/
def Leads (past : List ReceivedOperation) (op : ReceivedOperation) : Prop :=
  ∀ other ∈ past, other.key = op.key → other.tag.rank op.tag = .lt

/-- No operation on the same key has a higher rank. -/
def Wins (ops : List ReceivedOperation) (op : ReceivedOperation) : Prop :=
  op ∈ ops ∧ ∀ other ∈ ops, other.key = op.key → (other.tag.rank op.tag).isLE = true

/-- Every slot of the copy is decided by the operation that wins on its key. -/
structure Decided (ops : List ReceivedOperation) (c : RegionCopy) : Prop where
  won : ∀ op, Wins ops op → c.slot? op.key = some op.slot
  winner : ∀ op ∈ ops, ∃ best, Wins ops best ∧ best.key = op.key
  untouched : ∀ k, (∀ op ∈ ops, op.key ≠ k) → c.slot? k = none

/-- A copy that holds nothing and has seen no version. -/
structure Fresh (c : RegionCopy) : Prop where
  slots : c.map.slots = .empty
  vector : ∃ owner, c.vector = some { owner := owner }

theorem fresh_new (owner : Member) : Fresh { vector := some { owner := owner } } := ⟨rfl, _, rfl⟩

/-! ## One delivery -/

variable {rules : Rules} (now : Int) {c : RegionCopy} {op : ReceivedOperation}

theorem deliver_stale {vector : Option VersionVector} (hcc : rules.concurrencyChecks = true)
    (ha : c.Attached) (hv : c.vector = vector)
    (hst : rules.stale (some op.tag) vector ((c.slot? op.key).getD ⟨.placeholder, {}⟩) = true) :
    ∃ w, deliver rules now c op = .ok (.ok false, w) ∧
      w.copy.vector = c.vector ∧ ∀ k, w.copy.slot? k = c.slot? k := by
  have hst' : rules.stale op.event.tag c.vector ((c.slot? op.key).getD ⟨.placeholder, {}⟩) = true := by
    rw [op.tagged, hv]
    exact hst
  unfold deliver
  cases hd : op.deed with
  | put v =>
    obtain ⟨w, hw, hun⟩ := Task.put_stale now (w := ⟨c, op.event, []⟩) (op.valued v hd) ha hst'
    exact ⟨w, hw, hun.vector, hun.slot⟩
  | destroy =>
    obtain ⟨w, hw, hun⟩ := Task.destroy_stale now {} (w := ⟨c, op.event, []⟩)
      ha rfl rfl hcc op.remote hst'
    exact ⟨w, hw, hun.vector, hun.slot⟩

/-- An operation that is not stale takes its key, and its region version is recorded. -/
theorem deliver_fresh {v : VersionVector} (hcc : rules.concurrencyChecks = true)
    (ha : c.Attached) (hv : c.vector = some v) (hsound : v.Sound)
    (hst : rules.stale (some op.tag) (some v) ((c.slot? op.key).getD ⟨.placeholder, {}⟩) = false) :
    ∃ w v', deliver rules now c op = .ok (.ok true, w) ∧
      w.copy.vector = some v' ∧ v.Recorded op.tag.member op.tag.regionVersion v' ∧
      ∀ k, w.copy.slot? k = if k = op.key then some op.slot else c.slot? k := by
  have hst' : rules.stale op.event.tag c.vector ((c.slot? op.key).getD ⟨.placeholder, {}⟩) = false := by
    rw [op.tagged, hv]
    exact hst
  obtain ⟨v', hrec, hv'⟩ := Rules.recorded_eq (t := op.tag) hsound op.regionVersion_le
  have hrec' : Rules.recorded op.event.tag c.vector = .ok (some v') := by rw [op.tagged, hv, hrec]
  unfold deliver
  cases hd : op.deed with
  | put val =>
    obtain ⟨w, hw, -, hleft⟩ := Task.put_fresh now (w := ⟨c, op.event, []⟩)
      (op.valued val hd) ha hst' (Rules.version_remote op.remote hrec')
    refine ⟨w, v', hw, hleft.vector, hv', fun k => ?_⟩
    rw [hleft.slot]
    simp only [op.tagged, VersionStamp.after_some op.valid, slot, hd]
    rfl
  | destroy =>
    have hslot : op.slot = ⟨.tombstone, .ofTag op.tag⟩ := by simp only [slot, hd, Deed.token]
    cases hrem : (Task.met ⟨c, op.event, []⟩).token.isRemoved with
    | true =>
      obtain ⟨w, hw, -, hleft⟩ := Task.destroy_absent_fresh now {} (w := ⟨c, op.event, []⟩)
        ha rfl hcc op.remote op.tagged op.valid hrem hst' hrec'
      exact ⟨w, v', hw, hleft.vector, hv', fun k => by rw [hleft.slot, hslot]; rfl⟩
    | false =>
      cases hs : c.slot? op.key with
      | none =>
        rw [Task.met_of_none hs] at hrem
        cases hrem
      | some s =>
        have hmet : Task.met ⟨c, op.event, []⟩ = s := Task.met_of_some hs
        obtain ⟨w, hw, -, hleft⟩ := Task.destroy_fresh now {} (w := ⟨c, op.event, []⟩)
          ha rfl rfl hs (by rw [← hmet]; exact hrem) (by rw [← hmet]; exact hst')
          (Rules.version_remote op.remote hrec')
        refine ⟨w, v', hw, hleft.vector, hv', fun k => ?_⟩
        rw [hleft.slot, hslot]
        simp only [Task.buried, hcc, op.tagged, Option.any_some, op.valid, Bool.and_self, if_true,
          VersionStamp.after_some op.valid]
        rfl

/-! ## What the deliveries so far have decided -/

/-- The slots and the vector of a copy once the operations `past` were delivered. -/
structure Settled (past : List ReceivedOperation) (c : RegionCopy) : Prop where
  slot : ∀ k, (c.slot? k = none ∧ ∀ op ∈ past, op.key ≠ k) ∨
    ∃ op, Wins past op ∧ op.key = k ∧ c.slot? k = some op.slot
  vector : ∃ v, c.vector = some v ∧ v.Sound ∧ ∀ m w, w ≠ 0 → v.contains m w = true →
    ∃ op ∈ past, m.same op.tag.member = true ∧ w = op.tag.regionVersion

theorem Fresh.settled (h : Fresh c) : Settled [] c := by
  obtain ⟨owner, hv⟩ := h.vector
  refine ⟨fun k => .inl ⟨?_, by simp⟩, _, hv, VersionVector.sound_new owner, fun m w hw hc => ?_⟩
  · simp [RegionCopy.slot?, EntryMap.slot?, EntryMap.entry?, h.slots]
  · rw [VersionVector.contains_new] at hc
    exact absurd (eq_of_beq hc) hw

theorem Settled.attached {past : List ReceivedOperation} (h : Settled past c) : c.Attached := by
  intro k s hs
  rcases h.slot k with ⟨hn, -⟩ | ⟨op, -, -, hop⟩
  · rw [hn] at hs
    cases hs
  · rw [hop] at hs
    cases hs
    unfold ReceivedOperation.slot
    cases op.deed <;> simp [Deed.token]

/-- An operation that wins keeps winning over one on another key. -/
theorem Wins.snoc_other {past : List ReceivedOperation} {best op : ReceivedOperation}
    (h : Wins past best) (hk : op.key ≠ best.key) : Wins (past ++ [op]) best := by
  refine ⟨List.mem_append_left _ h.1, fun other ho he => ?_⟩
  rcases List.mem_append.1 ho with ho | ho
  · exact h.2 other ho he
  · rw [List.mem_singleton.1 ho] at he
    exact absurd he hk

theorem Leads.wins {past : List ReceivedOperation} {op : ReceivedOperation} (h : Leads past op) :
    Wins (past ++ [op]) op := by
  refine ⟨by simp, fun other ho he => ?_⟩
  rcases List.mem_append.1 ho with ho | ho
  · rw [h other ho he]
    rfl
  · rw [List.mem_singleton.1 ho, VersionTag.rank_self]
    rfl

/-- What outranks the operation that wins outranks all. -/
theorem Wins.leads {past : List ReceivedOperation} {best op : ReceivedOperation}
    (h : Wins past best) (hk : best.key = op.key) (hr : best.tag.rank op.tag = .lt) :
    Leads past op :=
  fun other ho he => Std.TransCmp.lt_of_isLE_of_lt (h.2 other ho (he.trans hk.symm)) hr

theorem Wins.snoc_kept {past : List ReceivedOperation} {best op : ReceivedOperation}
    (h : Wins past best) (hr : (op.tag.rank best.tag).isLE = true) : Wins (past ++ [op]) best := by
  refine ⟨List.mem_append_left _ h.1, fun other ho he => ?_⟩
  rcases List.mem_append.1 ho with ho | ho
  · exact h.2 other ho he
  · rw [List.mem_singleton.1 ho]
    exact hr

/-- The vector does not hold an operation up that no delivery was made of. -/
theorem Settled.judgeAbsent {past : List ReceivedOperation} {v : VersionVector}
    (hcont : ∀ m w, w ≠ 0 → v.contains m w = true →
      ∃ op ∈ past, m.same op.tag.member = true ∧ w = op.tag.regionVersion)
    (hd : Apart (past ++ [op])) (hk : ∀ other ∈ past, other.key ≠ op.key) :
    v.judgeAbsent op.tag = .apply := by
  rw [VersionVector.judgeAbsent_eq_apply_iff]
  simp only [VersionVector.containsTag, Bool.and_eq_false_iff, bne_eq_false_iff_eq]
  by_cases h0 : op.tag.regionVersion = 0
  · exact .inl h0
  · refine .inr (Bool.eq_false_iff.2 fun hc => ?_)
    obtain ⟨other, ho, hsame, hw⟩ := hcont _ _ h0 hc
    have hne : op ≠ other := fun he => hk other ho (by rw [he])
    exact hd op (by simp) other (List.mem_append_left _ ho) hne h0 ⟨hw, hsame⟩

/-- What is settled for a key stays so when the operation is on another key. -/
theorem Settled.slot_other {past : List ReceivedOperation} {c' : RegionCopy} {k : Key}
    (h : Settled past c) (hk : op.key ≠ k) (hkept : c'.slot? k = c.slot? k) :
    (c'.slot? k = none ∧ ∀ other ∈ past ++ [op], other.key ≠ k) ∨
      ∃ best, Wins (past ++ [op]) best ∧ best.key = k ∧ c'.slot? k = some best.slot := by
  rw [hkept]
  rcases h.slot k with ⟨hnone, hno⟩ | ⟨best, hbest, hbk, hbs⟩
  · refine .inl ⟨hnone, fun other ho => ?_⟩
    rcases List.mem_append.1 ho with ho | ho
    · exact hno other ho
    · rw [List.mem_singleton.1 ho]
      exact hk
  · exact .inr ⟨best, hbest.snoc_other fun he => hk (he.trans hbk), hbk, hbs⟩

/-- An operation that wins takes its key; what wins elsewhere still does. -/
theorem Settled.step_fresh {past : List ReceivedOperation} (hcc : rules.concurrencyChecks = true)
    (h : Settled past c) (hwins : Wins (past ++ [op]) op)
    (hst : rules.stale (some op.tag) c.vector ((c.slot? op.key).getD ⟨.placeholder, {}⟩) = false) :
    ∃ r w, deliver rules now c op = .ok (r, w) ∧ Settled (past ++ [op]) w.copy := by
  obtain ⟨v, hv, hsound, hcont⟩ := h.vector
  rw [hv] at hst
  obtain ⟨w, v', hw, hvec, hrec, hslot⟩ := deliver_fresh now hcc h.attached hv hsound hst
  refine ⟨_, w, hw, fun k => ?_, v', hvec, hrec.sound, fun m n hn hc => ?_⟩
  · by_cases hk : k = op.key
    · refine .inr ⟨op, hwins, hk.symm, ?_⟩
      rw [hslot, if_pos hk]
    · exact h.slot_other (fun he => hk he.symm) (by rw [hslot, if_neg hk])
  · rw [hrec.contains, Bool.or_eq_true, Bool.and_eq_true, beq_iff_eq] at hc
    rcases hc with hc | ⟨hsame, he⟩
    · obtain ⟨o, ho, hfound⟩ := hcont m n hn hc
      exact ⟨o, List.mem_append_left _ ho, hfound⟩
    · exact ⟨op, by simp, hsame, he⟩

/-- An operation that another one beats changes nothing. -/
theorem Settled.step_stale {past : List ReceivedOperation} {best : ReceivedOperation}
    (hcc : rules.concurrencyChecks = true) (h : Settled past c) (hbest : Wins past best)
    (hbk : best.key = op.key) (hbs : c.slot? op.key = some best.slot)
    (hle : (op.tag.rank best.tag).isLE = true)
    (hst : rules.stale (some op.tag) c.vector ((c.slot? op.key).getD ⟨.placeholder, {}⟩) = true) :
    ∃ r w, deliver rules now c op = .ok (r, w) ∧ Settled (past ++ [op]) w.copy := by
  obtain ⟨v, hv, hsound, hcont⟩ := h.vector
  obtain ⟨w, hw, hvec, hslot⟩ := deliver_stale now hcc h.attached rfl hst
  refine ⟨_, w, hw, fun k => ?_, v, hvec.trans hv, hsound, fun m n hn hc => ?_⟩
  · by_cases hk : op.key = k
    · refine .inr ⟨best, hbest.snoc_kept hle, hbk.trans hk, ?_⟩
      rw [hslot, ← hk, hbs]
    · exact h.slot_other hk (hslot k)
  · obtain ⟨o, ho, hfound⟩ := hcont m n hn hc
    exact ⟨o, List.mem_append_left _ ho, hfound⟩

/-- What a tag comes to at the slot of another operation is a matter of their ranks. -/
theorem stale_slot (hcc : rules.concurrencyChecks = true) (op best : ReceivedOperation)
    (vector : Option VersionVector) :
    rules.stale (some op.tag) vector best.slot = !(op.tag.rank best.tag == .gt) := by
  simp only [Rules.stale, hcc, ReceivedOperation.slot, VersionStamp.isVersioned_ofTag, if_true,
    Bool.true_and, VersionStamp.judge_ofTag op.valid]
  cases op.tag.rank best.tag <;> rfl

/-- What a delivery meets on its key. Where none was made before it is up to the vector, elsewhere
it is up to the stamp of the operation that wins. -/
theorem Settled.meets {past : List ReceivedOperation} (hcc : rules.concurrencyChecks = true)
    (h : Settled past c) (hd : Apart (past ++ [op])) :
    Leads past op ∧
        rules.stale (some op.tag) c.vector ((c.slot? op.key).getD ⟨.placeholder, {}⟩) = false ∨
      ∃ best, Wins past best ∧ best.key = op.key ∧ c.slot? op.key = some best.slot ∧
        (op.tag.rank best.tag).isLE = true ∧
        rules.stale (some op.tag) c.vector ((c.slot? op.key).getD ⟨.placeholder, {}⟩) = true := by
  rcases h.slot op.key with ⟨hnone, hno⟩ | ⟨best, hbest, hbk, hbs⟩
  · obtain ⟨v, hv, -, hcont⟩ := h.vector
    have hj := judgeAbsent hcont hd hno
    refine .inl ⟨fun other ho he => absurd he (hno other ho), ?_⟩
    simp [Rules.stale, hcc, hnone, hv, VersionStamp.isVersioned, Token.isRemoved, Token.kind,
      TokenKind.isRemoved, hj]
  · have hstale : rules.stale (some op.tag) c.vector
        ((c.slot? op.key).getD ⟨.placeholder, {}⟩) = !(op.tag.rank best.tag == .gt) := by
      rw [hbs, Option.getD_some, stale_slot hcc]
    cases hr : op.tag.rank best.tag with
    | gt =>
      exact .inl ⟨hbest.leads hbk (Std.OrientedCmp.lt_of_gt hr), by rw [hstale, hr]; rfl⟩
    | eq | lt =>
      exact .inr ⟨best, hbest, hbk, hbs, by rw [hr]; rfl, by rw [hstale, hr]; rfl⟩

/-- One delivery keeps all keys settled. -/
theorem Settled.step {past : List ReceivedOperation} (hcc : rules.concurrencyChecks = true)
    (h : Settled past c) (hd : Apart (past ++ [op])) :
    ∃ r w, deliver rules now c op = .ok (r, w) ∧ Settled (past ++ [op]) w.copy := by
  rcases h.meets hcc hd with ⟨hleads, hst⟩ | ⟨best, hbest, hbk, hbs, hle, hst⟩
  · exact h.step_fresh now hcc hleads.wins hst
  · exact h.step_stale now hcc hbest hbk hbs hle hst

/-! ## All deliveries -/

theorem Distinct.subset {ops l : List ReceivedOperation} (h : Distinct ops)
    (hsub : ∀ op ∈ l, op ∈ ops) : Distinct l :=
  fun a ha b hb => h a (hsub a ha) b (hsub b hb)

theorem Apart.subset {ops l : List ReceivedOperation} (h : Apart ops) (hsub : ∀ op ∈ l, op ∈ ops) :
    Apart l :=
  fun a ha b hb => h a (hsub a ha) b (hsub b hb)

theorem Distinct.apart {ops : List ReceivedOperation} (h : Distinct ops) : Apart ops :=
  fun a ha b hb hne => (h a ha b hb hne).2

/-- The deliveries of a sequence all succeed, and what each of them keeps holds at its end. -/
theorem deliverAll_keeps {P : List ReceivedOperation → RegionCopy → Prop}
    (hstep : ∀ past c op now, P past c → Apart (past ++ [op]) →
      ∃ r w, deliver rules now c op = .ok (r, w) ∧ P (past ++ [op]) w.copy) :
    ∀ (sequence : List (ReceivedOperation × Int)) {past : List ReceivedOperation} {c : RegionCopy},
      P past c → Apart (past ++ sequence.map Prod.fst) →
      ∃ d, deliverAll rules sequence c = .ok d ∧ P (past ++ sequence.map Prod.fst) d
  | [], past, c, h, _ => ⟨c, rfl, by simpa using h⟩
  | (op, now) :: rest, past, c, h, hd => by
    obtain ⟨r, w, hw, hnext⟩ := hstep past c op now h
      (hd.subset fun o ho => by
        simp only [List.mem_append, List.mem_singleton] at ho
        rcases ho with ho | rfl <;> simp [*])
    have happ : (past ++ [op]) ++ rest.map Prod.fst =
        past ++ ((op, now) :: rest).map Prod.fst := by simp
    obtain ⟨d, hrest, hfin⟩ := deliverAll_keeps hstep rest hnext (by rw [happ]; exact hd)
    rw [happ] at hfin
    refine ⟨d, ?_, hfin⟩
    unfold deliverAll at hrest
    simp only [deliverAll, List.foldlM_cons, hw, bind, Except.bind, pure, Except.pure]
    exact hrest

theorem Settled.run (hcc : rules.concurrencyChecks = true)
    (sequence : List (ReceivedOperation × Int)) {past : List ReceivedOperation} {c : RegionCopy}
    (h : Settled past c) (hd : Distinct (past ++ sequence.map Prod.fst)) :
    ∃ d, deliverAll rules sequence c = .ok d ∧ Settled (past ++ sequence.map Prod.fst) d :=
  deliverAll_keeps (fun _ _ _ now h hd => h.step now hcc hd) sequence h hd.apart

theorem Wins.of_delivers {sequence : List (ReceivedOperation × Int)} {ops : List ReceivedOperation}
    (h : Delivers sequence ops) (hw : Wins (sequence.map Prod.fst) op) : Wins ops op :=
  ⟨(h op).2 hw.1, fun other ho => hw.2 other ((h other).1 ho)⟩

/-- Two operations that win on the same key are one. -/
theorem Wins.unique {ops : List ReceivedOperation} (hd : Distinct ops) {a b : ReceivedOperation}
    (ha : Wins ops a) (hb : Wins ops b) (hk : a.key = b.key) : a = b := by
  refine Classical.byContradiction fun hne => (hd a ha.1 b hb.1 hne).1 hk ?_
  have hab : (a.tag.rank b.tag).isLE = true := hb.2 a ha.1 hk
  have hba : (b.tag.rank a.tag).isLE = true := ha.2 b hb.1 hk.symm
  exact VersionTag.rank_eq_iff.1 (Std.OrientedCmp.isLE_antisymm hab hba)

theorem Settled.decided {sequence : List (ReceivedOperation × Int)} {ops : List ReceivedOperation}
    (hd : Distinct ops) (hdel : Delivers sequence ops) (h : Settled (sequence.map Prod.fst) c) :
    Decided ops c where
  won op hop := by
    rcases h.slot op.key with ⟨-, hno⟩ | ⟨best, hbest, hbk, hbs⟩
    · exact absurd rfl (hno op ((hdel op).1 hop.1))
    · rw [hbs, (hbest.of_delivers hdel).unique hd hop hbk]
  winner op hop := by
    rcases h.slot op.key with ⟨-, hno⟩ | ⟨best, hbest, hbk, -⟩
    · exact absurd rfl (hno op ((hdel op).1 hop))
    · exact ⟨best, hbest.of_delivers hdel, hbk⟩
  untouched k hk := by
    rcases h.slot k with ⟨hn, -⟩ | ⟨best, hbest, hbk, -⟩
    · exact hn
    · exact absurd hbk (hk best ((hdel best).2 hbest.1))

/-- What the operations decide leaves nothing open. -/
theorem Decided.agree {ops : List ReceivedOperation} {d : RegionCopy} (hc : Decided ops c)
    (hd : Decided ops d) (k : Key) : c.slot? k = d.slot? k := by
  by_cases h : ∃ op ∈ ops, op.key = k
  · obtain ⟨op, hop, hk⟩ := h
    obtain ⟨best, hbest, hbk⟩ := hc.winner op hop
    rw [← hk, ← hbk, hc.won best hbest, hd.won best hbest]
  · have hno : ∀ op ∈ ops, op.key ≠ k := fun op hop hk => h ⟨op, hop, hk⟩
    rw [hc.untouched k hno, hd.untouched k hno]

/-- Every delivery of the operations to a fresh copy succeeds, the winner of each key decides its
slot, and any two sequences of deliveries end in the same slots. -/
theorem deliverAll_converges {ops : List ReceivedOperation} (hd : Distinct ops)
    (rules rules' : Rules) (hcc : rules.concurrencyChecks = true)
    (hcc' : rules'.concurrencyChecks = true) {s s' : List (ReceivedOperation × Int)}
    (hs : Delivers s ops) (hs' : Delivers s' ops) {c c' : RegionCopy} (hc : Fresh c)
    (hc' : Fresh c') :
    ∃ d d', deliverAll rules s c = .ok d ∧ deliverAll rules' s' c' = .ok d' ∧
      Decided ops d ∧ Decided ops d' ∧ ∀ k, d.slot? k = d'.slot? k := by
  have hrun : ∀ {rules : Rules} {s : List (ReceivedOperation × Int)} {c : RegionCopy},
      rules.concurrencyChecks = true → Delivers s ops → Fresh c →
      ∃ d, deliverAll rules s c = .ok d ∧ Decided ops d := fun {_ s _} hcc hs hc => by
    obtain ⟨d, hrun, hset⟩ := hc.settled.run hcc s (hd.subset fun op hop => (hs op).2 (by simpa using hop))
    exact ⟨d, hrun, hset.decided hd hs⟩
  obtain ⟨d, h, hdec⟩ := hrun hcc hs hc
  obtain ⟨d', h', hdec'⟩ := hrun hcc' hs' hc'
  exact ⟨d, d', h, h', hdec, hdec', hdec.agree hdec'⟩

/-- Two members have written one key at the same entry version: the one with the higher port wins. -/
def tiedPut : ReceivedOperation :=
  .ofPut "k" "v" ⟨{ address := .localhost, port := 1 }, 1, 1, 0, none⟩ rfl (by decide)

def tiedDestroy : ReceivedOperation :=
  .ofDestroy "k" ⟨{ address := .localhost, port := 2 }, 1, 1, 0, none⟩ rfl (by decide)

theorem deliverAll_converges_tied :
    Distinct [tiedPut, tiedDestroy] ∧ ∃ d d' : RegionCopy,
      deliverAll { concurrencyChecks := true, assignTag := Rules.noTag }
        [(tiedPut, 0), (tiedDestroy, 1)] { vector := some { owner := tiedPut.tag.member } } = .ok d ∧
      deliverAll { concurrencyChecks := true, assignTag := Rules.noTag }
        [(tiedDestroy, 0), (tiedPut, 1), (tiedDestroy, 2)]
        { vector := some { owner := tiedDestroy.tag.member } } = .ok d' ∧
      d.slot? "k" = some ⟨.tombstone, .ofTag tiedDestroy.tag⟩ ∧ d'.slot? "k" = d.slot? "k" := by
  have hd : Distinct [tiedPut, tiedDestroy] := by
    have hne : tiedPut.tag.member.same tiedDestroy.tag.member = false := by decide
    have hne' : tiedDestroy.tag.member.same tiedPut.tag.member = false := by decide
    intro a ha b hb
    simp only [List.mem_cons, List.not_mem_nil, or_false] at ha hb
    rcases ha with rfl | rfl <;> rcases hb with rfl | rfl <;> simp [hne, hne']
  have hwins : Wins [tiedPut, tiedDestroy] tiedDestroy := by
    refine ⟨by simp, fun other ho _ => ?_⟩
    simp only [List.mem_cons, List.not_mem_nil, or_false] at ho
    rcases ho with rfl | rfl <;> decide
  have hs : Delivers [(tiedPut, 0), (tiedDestroy, 1)] [tiedPut, tiedDestroy] := fun op => by simp
  have hs' : Delivers [(tiedDestroy, 0), (tiedPut, 1), (tiedDestroy, 2)] [tiedPut, tiedDestroy] :=
    fun op => by grind
  obtain ⟨d, d', h, h', hdec, -, hagree⟩ :=
    deliverAll_converges hd { concurrencyChecks := true, assignTag := Rules.noTag }
      { concurrencyChecks := true, assignTag := Rules.noTag } rfl rfl hs hs'
      (fresh_new tiedPut.tag.member) (fresh_new tiedDestroy.tag.member)
  exact ⟨hd, d, d', h, h', hdec.won tiedDestroy hwins, (hagree "k").symm⟩

end ReceivedOperation
end DataGrid
