import DataGrid.Bucket.Store
import DataGrid.Bucket.Placement
import DataGrid.Proofs.Entry.Own

/-
Buckets that no clear holds and whose member is primary: what the operations of
a member leave of its own buckets. Keys are present or not, and the entries of
absent ones do not show. `Bucket.Calm` is what holds of such a bucket and stays
so.
-/

namespace DataGrid

namespace Advisor

/-- The member hosts the bucket and is its primary, and would bid again at once. -/
structure Leading (a : Advisor) : Prop where
  state : a.state = .isPrimaryHosting
  hosting : a.hosting = true
  primary : Member.isNamed a.primary a.member = true
  elector : a.elector = none
  gateOpen : a.gateOpen = true
  delegate : a.delegate = .immediate

variable {a : Advisor} (hostsRegion : Member → Bool)

theorem Leading.isPrimary (h : a.Leading) : a.isPrimary = true := by
  simp [Advisor.isPrimary, h.state]

theorem Leading.hasPrimary (h : a.Leading) : a.hasPrimary = true := by
  have hp := h.primary
  unfold Member.isNamed at hp
  unfold Advisor.hasPrimary
  cases ha : a.primary with
  | none => simp [ha] at hp
  | some p => rfl

/-- A primary does not volunteer. -/
theorem Leading.volunteer (h : a.Leading) :
    Id.run (a.volunteer fun m => pure (hostsRegion m)) = (false, a, []) := by
  have hp : a.primary.isNone = false := by
    have := h.hasPrimary
    unfold Advisor.hasPrimary at this
    cases ha : a.primary <;> simp_all
  simp [Advisor.volunteer, volunteerThrough, h.gateOpen, deferToElector, h.elector, mayBid, hp,
    Id.run, pure, bind]

/-- A host that bids while nobody is primary becomes primary. -/
theorem volunteer_free (hh : a.hosting = true) (hp : a.primary = none)
    (hs : a.state = .noPrimaryHosting) (he : a.elector = none) (hg : a.gateOpen = true)
    (hd : a.delegate = .immediate) :
    Id.run (a.volunteer fun m => pure (hostsRegion m)) =
      (true, { a with primary := some a.member, state := .isPrimaryHosting }, []) := by
  obtain ⟨id, m, _, _, _, _, _, hosts, _, shadows, servers⟩ := a
  simp only at hh hp hs he hg hd
  subst hh hp hs he hg hd
  simp [Advisor.volunteer, volunteerThrough, deferToElector, mayBid, isClosed, askDelegate,
    Delegate.immediate, performThrough, becomePrimary, settle, settledState, Member.same_refl,
    Id.run, pure, bind]

theorem leading_bid (hh : a.hosting = true) (he : a.elector = none) (hg : a.gateOpen = true)
    (hd : a.delegate = .immediate) :
    Leading { a with primary := some a.member, state := .isPrimaryHosting } where
  state := rfl
  hosting := hh
  primary := Member.same_refl a.member
  elector := he
  gateOpen := hg
  delegate := hd

/-- A host that has just heard that the primary is gone. -/
def bereft (a : Advisor) (p : Member) : Advisor :=
  { a with
    hostingMembers := a.hostingMembers.erase p
    elector := none
    primary := none
    state := .noPrimaryHosting }

/-- A primary stays primary when a member leaves, itself included. -/
theorem Leading.memberDeparted (h : a.Leading) (p : Member) :
    ∃ a', Id.run (a.memberDeparted (fun m => pure (hostsRegion m)) p) = (a', []) ∧
      a'.Leading ∧ a'.member = a.member ∧ a'.bucketId = a.bucketId := by
  have hclosed : a.isClosed = false := by simp [isClosed, h.state]
  have helector : (if Member.isNamed a.elector p then none else a.elector) = none := by
    simp [h.elector]
  cases hn : Member.isNamed a.primary p with
  | false =>
    refine ⟨{ a with
      hostingMembers := a.hostingMembers.erase p, elector := none }, ?_,
      ⟨h.state, h.hosting, h.primary, rfl, h.gateOpen, h.delegate⟩, rfl, rfl⟩
    simp only [Advisor.memberDeparted, hclosed, helector, hn, Bool.false_eq_true, if_false]
    rfl
  | true =>
    have hsettle : ({ a with
        hostingMembers := a.hostingMembers.erase p, elector := none, primary := none } :
          Advisor).settle = a.bereft p := by
      simp [settle, isClosed, h.state, settledState, h.hosting, bereft]
    have hbid := volunteer_free hostsRegion (a := a.bereft p) h.hosting rfl rfl rfl h.gateOpen
      h.delegate
    have hhosts : (a.bereft p).hosting = true := h.hosting
    refine ⟨_, ?_, leading_bid (a := a.bereft p) h.hosting rfl h.gateOpen h.delegate, rfl, rfl⟩
    simp only [Advisor.memberDeparted, hclosed, helector, hn, hsettle, if_true,
      Bool.false_eq_true, if_false]
    rw [if_pos hhosts]
    exact congrArg (fun r : Bool × Advisor × List DelegateReport => (r.2.1, r.2.2)) hbid

end Advisor

namespace Bucket

/-- What holds of a bucket of a member while no clear goes on. Its keys belong to it, and were
only put and destroyed, by its member. -/
structure Calm (config : BucketConfig) (m : Member) (id : Nat) (b : Bucket) : Prop where
  bucketId : b.advisor.bucketId = id
  id_lt : id < config.totalBuckets
  member : b.advisor.member = m
  leading : b.advisor.Leading
  gate : b.gate = {}
  attributes : b.attributes = config.attributes
  versioned : b.copy.vector.isSome = config.attributes.concurrencyChecks
  own : b.copy.Own m
  plain : ∀ k s, b.copy.slot? k = some s → s.token = .tombstone ∨ ∃ v, s.token = .valid v
  placed : ∀ k s, b.copy.slot? k = some s → bucketOfText config.totalBuckets k = id

variable {config : BucketConfig} {m : Member} {id : Nat} {b : Bucket} (now : Int) {k : Key}

theorem get?_eq (b : Bucket) (k : Key) :
    b.get? k = (b.copy.slot? k).bind fun s => s.token.value? := by
  simp only [get?, EntryMap.get?, RegionCopy.slot?, EntryMap.slot?]
  cases b.copy.map.entry? k <;> rfl

theorem get?_left {e : EntryEvent} {w : Task} {s : Option Slot} {vector : Option VersionVector}
    (hleft : Task.Left ⟨b.copy, e, []⟩ w s vector) (k : Key) :
    get? { b with copy := w.copy } k =
      if k = e.key then s.bind fun s => s.token.value? else b.get? k := by
  rw [get?_eq, get?_eq, hleft.slot]
  by_cases hk : k = e.key
  · simp only [Task.key, hk, if_true]
  · simp only [Task.key, hk, if_false]

namespace Calm

theorem notForLocal (h : b.Calm config m id) : b.notForLocal = none := by
  simp [Bucket.notForLocal, Advisor.isClosed, h.leading.state, h.leading.hosting,
    h.leading.isPrimary]

theorem held (h : b.Calm config m id) (e : EntryEvent) : b.held e = none := by
  have hgate : b.gate.passes = true := by rw [h.gate]; rfl
  simp [Bucket.held, h.notForLocal, hgate]

theorem concurrencyChecks (h : b.Calm config m id) :
    b.copy.vector.isSome = b.rules.concurrencyChecks := by
  simp only [rules, h.attributes, h.versioned]

theorem assignTag (h : b.Calm config m id) : b.rules.assignTag = Rules.nextTag m := by
  simp only [rules, h.member]

/-- What the bucket is once an operation on a key of its own has taken effect. -/
theorem left (h : b.Calm config m id) {e : EntryEvent} {w : Task} {s : Option Slot}
    {vector : Option VersionVector} (hk : bucketOfText config.totalBuckets e.key = id)
    (hvec : vector.isSome = b.rules.concurrencyChecks)
    (hs : ∀ x, s = some x → x.token = .tombstone ∨ ∃ v, x.token = .valid v)
    (hown : w.copy.Own m) (hleft : Task.Left ⟨b.copy, e, []⟩ w s vector) :
    Calm config m id { b with copy := w.copy } where
  bucketId := h.bucketId
  id_lt := h.id_lt
  member := h.member
  leading := h.leading
  gate := h.gate
  attributes := h.attributes
  versioned := by rw [hleft.vector, hvec, ← h.concurrencyChecks, h.versioned]
  own := hown
  plain k x hx := by
    rw [hleft.slot] at hx
    split at hx
    · exact hs x hx
    · exact h.plain k x hx
  placed k x hx := by
    rw [hleft.slot] at hx
    split at hx
    next heq => rw [heq]; exact hk
    next => exact h.placed k x hx

/-- A put gives the key its value. -/
theorem put (h : b.Calm config m id) (hk : bucketOfText config.totalBuckets k = id)
    (hfit : b.copy.Countable) (v : Value) :
    ∃ e b', b.put now k v = .ok (.ok e, b') ∧ b'.Calm config m id ∧
      ∀ k', b'.get? k' = if k' = k then some v else b.get? k' := by
  obtain ⟨tag, vector, hver, hvec, -, hown⟩ := Task.version_local_own
    (w := ⟨b.copy, .ofPut k v, []⟩) h.own h.assignTag h.concurrencyChecks rfl rfl hfit now
  obtain ⟨w, hw, -, hleft⟩ := Task.put_fresh now (w := ⟨b.copy, .ofPut k v, []⟩) rfl h.own.attached
    (show b.rules.stale none _ _ = false from rfl) hver
  have hmine := hown w _ (fun x hx => by cases hx; exact ⟨by simp, rfl⟩) hleft
  refine ⟨w.event, { b with copy := w.copy }, ?_,
    h.left (e := .ofPut k v) hk hvec (fun x hx => by cases hx; exact .inr ⟨v, rfl⟩) hmine hleft, fun k' => ?_⟩
  · have happ : b.applyToEntry now (.ofPut k v) = some (.ok (.ok true, w)) := congrArg some hw
    simp only [Bucket.put, submit, apply, h.held, happ, bind, Except.bind, pure, Except.pure]
    rfl
  · exact get?_left hleft k'

theorem slot_present (h : b.Calm config m id) (hk : (b.get? k).isSome = true) :
    ∃ s, b.copy.slot? k = some s ∧ s.token.isRemoved = false := by
  rw [get?_eq] at hk
  cases hs : b.copy.slot? k with
  | none => simp [hs] at hk
  | some s =>
    refine ⟨s, rfl, ?_⟩
    rcases h.plain k s hs with ht | ⟨v, ht⟩
    · simp [hs, ht, Token.value?] at hk
    · rw [ht]
      rfl

theorem met_absent (h : b.Calm config m id) (hk : b.get? k = none) (e : EntryEvent)
    (he : e.key = k) : (Task.met ⟨b.copy, e, []⟩).token.isRemoved = true := by
  subst he
  rw [get?_eq] at hk
  cases hs : b.copy.slot? e.key with
  | none => rw [Task.met_of_none hs]; rfl
  | some s =>
    rw [Task.met_of_some hs]
    rcases h.plain _ s hs with ht | ⟨v, ht⟩
    · rw [ht]
      rfl
    · simp [hs, ht, Token.value?] at hk

/-- A change that does not show leaves the bucket what it was. -/
theorem unchanged (h : b.Calm config m id) {e : EntryEvent} {w : Task}
    (hun : Task.Unchanged ⟨b.copy, e, []⟩ w) :
    Calm config m id { b with copy := w.copy } ∧
      ∀ k, Bucket.get? { b with copy := w.copy } k = b.get? k := by
  refine ⟨⟨h.bucketId, h.id_lt, h.member, h.leading, h.gate, h.attributes, ?_, ?_, ?_, ?_⟩, fun k => ?_⟩
  · rw [hun.vector]
    exact h.versioned
  · exact h.own.frame hun.vector fun k s hs => .inl (by rw [← hun.slot]; exact hs)
  · intro k s hs
    rw [hun.slot] at hs
    exact h.plain k s hs
  · intro k s hs
    rw [hun.slot] at hs
    exact h.placed k s hs
  · rw [get?_eq, get?_eq, hun.slot]

/-- A destroy takes a present key away. -/
theorem destroy_present (h : b.Calm config m id) (hfit : b.copy.Countable)
    (hk : (b.get? k).isSome = true) :
    ∃ e b', b.destroy now k = .ok (.ok e, b') ∧ b'.Calm config m id ∧
      ∀ k', b'.get? k' = if k' = k then none else b.get? k' := by
  obtain ⟨s, hs, hlive⟩ := h.slot_present hk
  obtain ⟨tag, vector, hver, hvec, hvalid, hown⟩ := Task.version_local_own
    (w := ⟨b.copy, .ofDestroy k, []⟩) h.own h.assignTag h.concurrencyChecks rfl rfl hfit now
  have hmet : Task.met ⟨b.copy, .ofDestroy k, []⟩ = s := Task.met_of_some hs
  rw [hmet] at hver
  obtain ⟨w, hw, -, hleft⟩ := Task.destroy_fresh now {} (w := ⟨b.copy, .ofDestroy k, []⟩)
    h.own.attached rfl rfl hs hlive (show b.rules.stale none _ _ = false from rfl) hver
  have hburied : ∀ x, Task.buried b.rules s.stamp tag = some x →
      x.token = .tombstone ∧ x.stamp = s.stamp.after tag := by
    intro x hx
    unfold Task.buried at hx
    split at hx
    · cases hx
      exact ⟨rfl, rfl⟩
    · cases hx
  have hmine := hown w _ (fun x hx => by
    rw [hmet, (hburied x hx).1, (hburied x hx).2]
    exact ⟨by simp, rfl⟩) hleft
  refine ⟨w.event, { b with copy := w.copy }, ?_,
    h.left (e := .ofDestroy k) (h.placed k s hs) hvec (fun x hx => .inl (hburied x hx).1) hmine hleft,
    fun k' => ?_⟩
  · have happ : b.applyToEntry now (.ofDestroy k) = some (.ok (.ok true, w)) := congrArg some hw
    simp only [Bucket.destroy, submit, apply, h.held, happ, bind, Except.bind, pure, Except.pure]
    rfl
  · rw [get?_left hleft k']
    cases hb : Task.buried b.rules s.stamp tag with
    | none => rfl
    | some x =>
      simp only [Option.bind_some, (hburied x hb).1, Token.value?]
      rfl

theorem destroy_absent (h : b.Calm config m id) (hk : b.get? k = none) :
    ∃ b', b.destroy now k = .ok (.error (.entry (.notFound k)), b') ∧ b'.Calm config m id ∧
      ∀ k', b'.get? k' = b.get? k' := by
  obtain ⟨w, hw, hun⟩ := Task.destroy_missing now {} (w := ⟨b.copy, .ofDestroy k, []⟩)
    h.own.attached rfl rfl (h.met_absent hk _ rfl)
  refine ⟨{ b with copy := w.copy }, ?_, (h.unchanged hun).1, (h.unchanged hun).2⟩
  have happ : b.applyToEntry now (.ofDestroy k) =
    some (.ok (Task.missingAnswer b.rules k, w)) := congrArg some hw
  simp only [Bucket.destroy, submit, apply, h.held, happ, bind, Except.bind, pure, Except.pure]
  rfl

/-- Whatever a put answers, unless a counter overflowed. -/
theorem of_put (h : b.Calm config m id) (hk : bucketOfText config.totalBuckets k = id) {v : Value}
    {r : Except BucketError EntryEvent} {b' : Bucket} (hput : b.put now k v = .ok (r, b')) :
    b'.Calm config m id := by
  by_cases hfit : b.copy.Countable
  · obtain ⟨e, b'', hput', hcalm, -⟩ := h.put now hk hfit v
    rw [hput'] at hput
    cases hput
    exact hcalm
  · obtain ⟨err, herr⟩ := Task.put_overflow (w := ⟨b.copy, .ofPut k v, []⟩) rfl h.own.attached
      h.assignTag h.concurrencyChecks rfl rfl hfit now
    have happ : b.applyToEntry now (.ofPut k v) = some (.error err) := congrArg some herr
    simp only [Bucket.put, submit, apply, h.held, happ, bind, Except.bind] at hput
    cases hput

theorem of_destroy (h : b.Calm config m id) {r : Except BucketError EntryEvent} {b' : Bucket}
    (hdestroy : b.destroy now k = .ok (r, b')) : b'.Calm config m id := by
  cases hk : b.get? k with
  | none =>
    obtain ⟨b'', hdestroy', hcalm, -⟩ := h.destroy_absent now hk
    rw [hdestroy'] at hdestroy
    cases hdestroy
    exact hcalm
  | some x =>
    have hpresent : (b.get? k).isSome = true := by rw [hk]; rfl
    by_cases hfit : b.copy.Countable
    · obtain ⟨e, b'', hdestroy', hcalm, -⟩ := h.destroy_present now hfit hpresent
      rw [hdestroy'] at hdestroy
      cases hdestroy
      exact hcalm
    · obtain ⟨s, hs, hlive⟩ := h.slot_present hpresent
      obtain ⟨err, herr⟩ := Task.destroy_overflow (w := ⟨b.copy, .ofDestroy k, []⟩) h.own.attached hs
        hlive h.assignTag h.concurrencyChecks rfl rfl hfit now
      have happ : b.applyToEntry now (.ofDestroy k) = some (.error err) := congrArg some herr
      simp only [Bucket.destroy, submit, apply, h.held, happ, bind, Except.bind] at hdestroy
      cases hdestroy

/-- A sweep takes nothing that shows. -/
theorem expireTombstones (h : b.Calm config m id) :
    (b.expireTombstones now).2.Calm config m id ∧
      ∀ k, (b.expireTombstones now).2.get? k = b.get? k := by
  have hswept : RegionCopy.Swept b.copy (b.expireTombstones now).2.copy :=
    RegionCopy.swept_expireTombstones now b.copy
  refine ⟨⟨h.bucketId, h.id_lt, h.member, h.leading, h.gate, h.attributes, ?_, h.own.swept hswept,
    fun k s hs => h.plain k s (hswept.of_slot? hs),
    fun k s hs => h.placed k s (hswept.of_slot? hs)⟩, fun k => ?_⟩
  · rw [hswept.vector]
    exact h.versioned
  · rw [get?_eq, get?_eq]
    rcases hswept.slot k with heq | ⟨hn, s, hs, ht⟩
    · rw [heq]
    · simp [hn, hs, ht, Token.value?]

theorem slot?_clear (h : b.Calm config m id) (k : Key) : b.clear.2.copy.slot? k = none :=
  h.own.slot?_clear k

/-- A clear takes everything. -/
theorem clear (h : b.Calm config m id) :
    b.clear.2.Calm config m id ∧ ∀ k, b.clear.2.get? k = none := by
  refine ⟨⟨h.bucketId, h.id_lt, h.member, h.leading, h.gate, h.attributes, ?_, h.own.clear,
    fun k s hs => ?_, fun k s hs => ?_⟩, fun k => ?_⟩
  · exact (congrArg Option.isSome (RegionCopy.vector_clear b.copy b.copy.vector)).trans h.versioned
  · rw [h.slot?_clear] at hs
    cases hs
  · rw [h.slot?_clear] at hs
    cases hs
  · rw [get?_eq, h.slot?_clear]
    rfl

/-- What is listed as present is what has a value. -/
theorem mem_keys (h : b.Calm config m id) :
    k ∈ b.copy.map.keys ↔ (b.get? k).isSome = true := by
  rw [EntryMap.keys, OrdMap.mem_keys_iff, OrdMap.find?_filter, get?_eq]
  have hslot : b.copy.slot? k = (b.copy.map.slots.find? k).map Entry.slot := rfl
  cases he : b.copy.map.slots.find? k with
  | none => simp [hslot, he]
  | some e =>
    have htok := h.plain k e.slot (by rw [hslot, he]; rfl)
    simp only [Entry.slot] at htok
    rcases htok with ht | ⟨v, ht⟩ <;>
      simp [hslot, he, Entry.slot, ht, Token.value?, Token.isLive, Token.isRemoved, Token.kind,
        TokenKind.isRemoved, Option.filter]

theorem size_eq_zero (h : b.Calm config m id) (hk : ∀ k, b.get? k = none) : b.size = 0 := by
  have hnil : b.copy.map.keys = [] := by
    refine List.eq_nil_iff_forall_not_mem.2 fun k hm => ?_
    have hsome := h.mem_keys.1 hm
    rw [hk] at hsome
    cases hsome
  simp only [Bucket.size, EntryMap.size, hnil, List.length_nil]

/-- The advisor may change, as long as the member stays primary. -/
theorem advised (h : b.Calm config m id) {a : Advisor} (hl : a.Leading)
    (hm : a.member = b.advisor.member) (hid : a.bucketId = b.advisor.bucketId) :
    Calm config m id { b with advisor := a } :=
  ⟨hid.trans h.bucketId, h.id_lt, hm.trans h.member, hl, h.gate, h.attributes, h.versioned, h.own,
    h.plain, h.placed⟩

end Calm

/-- A new bucket is calm once its member has bid for it. -/
theorem calm_newBucket (store : BucketStore) (hlt : id < store.config.totalBuckets)
    (hostsRegion : Member → Bool) :
    ∃ a, Id.run (Advisor.perform (fun m => pure (hostsRegion m)) .volunteer
        (store.newBucket id .immediate).advisor) = (.flag true, a, []) ∧
      Calm store.config store.member id { store.newBucket id .immediate with advisor := a } := by
  have hbid := Advisor.volunteer_free hostsRegion (a := (store.newBucket id .immediate).advisor)
    rfl rfl rfl rfl rfl rfl
  refine ⟨_, congrArg (fun r : Bool × Advisor × List DelegateReport =>
    (AdvisorAnswer.flag r.1, r.2.1, r.2.2)) hbid, ?_⟩
  exact {
    bucketId := rfl
    id_lt := hlt
    member := rfl
    leading := Advisor.leading_bid rfl rfl rfl rfl
    gate := rfl
    attributes := rfl
    versioned := by
      simp only [BucketStore.newBucket, Bucket.new]
      cases store.config.attributes.concurrencyChecks <;> rfl
    own := RegionCopy.own_new _ {} store.config.attributes.concurrencyChecks rfl
    plain := fun k s hs => by cases hs
    placed := fun k s hs => by cases hs }

/-- Volunteering changes nothing at a primary. -/
theorem Calm.volunteer (h : b.Calm config m id) (hostsRegion : Member → Bool) :
    Id.run (Advisor.perform (fun m => pure (hostsRegion m)) .volunteer b.advisor) =
      (.flag false, b.advisor, []) :=
  congrArg (fun r : Bool × Advisor × List DelegateReport => (AdvisorAnswer.flag r.1, r.2.1, r.2.2))
    (h.leading.volunteer hostsRegion)

end Bucket
end DataGrid
