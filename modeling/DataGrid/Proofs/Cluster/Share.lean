import DataGrid.Cluster.Basic
import DataGrid.Ordered.Lemmas
import DataGrid.Proofs.Bucket.Calm

/-
A member's share of a region while no clear goes on (`Share.Calm`): what keeps
it so, and what each change does to the values that the share shows.

What a clear does to the buckets it does to all of them, so it is said with
`BucketStore.mapAll`.
-/

namespace DataGrid

namespace BucketStore

/-- Change the buckets with some ids. -/
def mapOn (ids : List Nat) (f : Bucket → Bucket) (s : BucketStore) : BucketStore :=
  { s with buckets := s.buckets.mapValues fun id b => if id ∈ ids then f b else b }

/-- Change all buckets. -/
def mapAll (f : Bucket → Bucket) (s : BucketStore) : BucketStore :=
  { s with buckets := s.buckets.mapValues fun _ b => f b }

variable {s : BucketStore} {f g : Bucket → Bucket}

@[simp] theorem ids_mapAll (f : Bucket → Bucket) (s : BucketStore) : (s.mapAll f).ids = s.ids :=
  OrdMap.keys_mapValues _ _

@[simp] theorem bucket?_mapAll (f : Bucket → Bucket) (s : BucketStore) (id : Nat) :
    (s.mapAll f).bucket? id = (s.bucket? id).map f := OrdMap.find?_mapValues _ _ _

theorem mapAll_mapAll (f g : Bucket → Bucket) (s : BucketStore) :
    (s.mapAll f).mapAll g = s.mapAll fun b => g (f b) := by
  simp only [mapAll, OrdMap.mapValues_mapValues]

theorem mem_ids {id : Nat} : id ∈ s.ids ↔ (s.bucket? id).isSome = true := OrdMap.mem_keys_iff

theorem nodup_ids (s : BucketStore) : s.ids.Nodup := s.buckets.nodup_keys

theorem mem_all {b : Bucket} : b ∈ s.all ↔ ∃ id, s.bucket? id = some b := OrdMap.mem_values_iff

/-- All buckets have been changed when those with any id have. -/
theorem mapOn_ids (f : Bucket → Bucket) (s : BucketStore) : s.mapOn s.ids f = s.mapAll f := by
  simp only [mapOn, mapAll]
  congr 1
  refine OrdMap.mapValues_congr fun id b hm => ?_
  have hid : id ∈ s.ids := List.mem_map_of_mem hm
  simp only [hid, if_true]

theorem mapOn_nil (f : Bucket → Bucket) (s : BucketStore) : s.mapOn [] f = s := by
  simp only [mapOn, List.not_mem_nil, if_false]
  rw [OrdMap.mapValues_self fun _ _ _ => rfl]

/-- One bucket is changed after the other. -/
theorem mapOn_modify {id : Nat} {ids : List Nat} (hid : id ∉ ids) (f : Bucket → Bucket)
    (s : BucketStore) :
    BucketStore.mapOn ids f { s with buckets := s.buckets.modify id f } = s.mapOn (id :: ids) f := by
  simp only [mapOn, OrdMap.modify, OrdMap.mapValues_mapValues]
  congr 1
  refine OrdMap.mapValues_congr fun id' b _ => ?_
  by_cases he : id = id'
  · subst he
    simp [hid]
  · have hne : ¬ id' = id := fun h => he h.symm
    simp [he, hne]

theorem bucket?_setBucket (s : BucketStore) (id id' : Nat) (b : Bucket) :
    (s.setBucket id b).bucket? id' = if id' = id then some b else s.bucket? id' := by
  simp only [bucket?, setBucket, OrdMap.find?_insert, Std.compare_eq_iff_eq]

/-- Buckets of the member, all calm. -/
structure Calm (config : BucketConfig) (s : BucketStore) : Prop where
  configured : s.config = config
  creation : s.creationGate = {}
  bucket : ∀ id b, s.bucket? id = some b → b.Calm config s.member id

variable {config : BucketConfig}

theorem Calm.setBucket (h : s.Calm config) {id : Nat} {b : Bucket} (hb : b.Calm config s.member id) :
    (s.setBucket id b).Calm config := by
  refine ⟨h.configured, h.creation, fun id' b' hb' => ?_⟩
  rw [bucket?_setBucket] at hb'
  split at hb'
  next he =>
    cases hb'
    rw [he]
    exact hb
  next => exact h.bucket id' b' hb'

theorem Calm.mapAll (h : s.Calm config)
    (hf : ∀ id b, b.Calm config s.member id → (f b).Calm config s.member id) :
    (s.mapAll f).Calm config := by
  refine ⟨h.configured, h.creation, fun id b hb => ?_⟩
  rw [bucket?_mapAll] at hb
  obtain ⟨b', hb', rfl⟩ := Option.map_eq_some_iff.1 hb
  exact hf id b' (h.bucket id b' hb')

/-- The member is primary for all its buckets. -/
theorem Calm.primaries (h : s.Calm config) : s.primaries.map Bucket.id = s.ids := by
  have hall : s.primaries = s.all := by
    refine List.filter_eq_self.2 fun b hb => ?_
    obtain ⟨id, hid⟩ := mem_all.1 hb
    exact (h.bucket id b hid).leading.isPrimary
  rw [hall]
  simp only [all, ids, OrdMap.values, OrdMap.keys, List.map_map]
  refine List.map_congr_left fun q hq => ?_
  exact (h.bucket q.1 q.2 (OrdMap.mem_toList_iff.1 hq)).bucketId

/-- The bucket hears of a departure, after others have. -/
def bucketHearsOf (hostsRegion : Member → Bool) (p : Member)
    (heard : BucketStore × List DelegateReport) (b : Bucket) :
    Id (BucketStore × List DelegateReport) := do
  let (a, more) ← Advisor.memberDeparted (fun m => pure (hostsRegion m)) b.advisor p
  return (heard.1.setBucket b.id { b with advisor := a }, heard.2 ++ more)

/-- Calm buckets stay calm when a member leaves. -/
theorem Calm.memberDeparted (h : s.Calm config) (hostsRegion : Member → Bool) (p : Member) :
    ∃ s' reports, Id.run (s.memberDeparted (fun m => pure (hostsRegion m)) p) = (s', reports) ∧
      s'.Calm config ∧ s'.member = s.member := by
  have hfold : ∀ (l : List Bucket) (s' : BucketStore) (reports : List DelegateReport),
      (∀ b ∈ l, ∃ id, b.Calm config s.member id) → s'.Calm config → s'.member = s.member →
      ∃ s'' reports', Id.run (l.foldlM (bucketHearsOf hostsRegion p) (s', reports)) =
          (s'', reports') ∧ s''.Calm config ∧ s''.member = s.member := by
    intro l
    induction l with
    | nil => exact fun s' reports _ hs hm => ⟨s', reports, rfl, hs, hm⟩
    | cons b r ih =>
      intro s' reports hl hs hm
      obtain ⟨id, hb⟩ := hl b List.mem_cons_self
      obtain ⟨a, ha, hlead, ham, hid⟩ := hb.leading.memberDeparted hostsRegion p
      have hcalm := hb.advised hlead ham hid
      have hnext : (s'.setBucket b.id { b with advisor := a }).Calm config := by
        refine hs.setBucket ?_
        rw [hm, show b.id = id from hb.bucketId]
        exact hcalm
      obtain ⟨s'', reports', hrun, hs'', hm''⟩ := ih (s'.setBucket b.id { b with advisor := a })
        (reports ++ []) (fun b hb => hl b (List.mem_cons_of_mem _ hb)) hnext hm
      refine ⟨s'', reports', ?_, hs'', hm''⟩
      rw [← hrun]
      simp only [List.foldlM_cons]
      have ha' : Advisor.memberDeparted (m := Id) (fun m => pure (hostsRegion m)) b.advisor p =
        (a, []) := ha
      simp only [bucketHearsOf, ha']
      rfl
  exact hfold s.all s [] (fun b hb => by
    obtain ⟨id, hid⟩ := mem_all.1 hb
    exact ⟨id, h.bucket id b hid⟩) h rfl

end BucketStore

namespace Share

/-- A share on which no clear works. -/
structure Calm (config : BucketConfig) (s : Share) : Prop where
  store : s.store.Calm config
  coordinator : s.coordinator.member = s.store.member
  unlocked : s.coordinator.lock = {}

/-- The next versions of all buckets fit their counters. -/
def Countable (s : Share) : Prop := ∀ id b, s.store.bucket? id = some b → b.copy.Countable

/-- `s'` is `s` with other buckets in place of its own, and none more or less. -/
structure Kept (s s' : Share) : Prop where
  store : s' = { s with store := s'.store }
  member : s'.store.member = s.store.member
  hosted : ∀ id, (s'.store.bucket? id).isSome = (s.store.bucket? id).isSome

theorem Kept.refl (s : Share) : Kept s s := ⟨rfl, rfl, fun _ => rfl⟩

variable {config : BucketConfig} {s : Share} (now : Int) {k : Key}

theorem Calm.withStore (h : s.Calm config) {store : BucketStore} (hs : store.Calm config)
    (hm : store.member = s.store.member) : Calm config { s with store } :=
  ⟨hs, h.coordinator.trans hm.symm, h.unlocked⟩

theorem Calm.bucketOf (h : s.Calm config) (k : Key) :
    bucketOfText config.totalBuckets k = s.bucketOf k := by
  rw [Share.bucketOf, h.store.configured]

theorem Calm.id_lt (h : s.Calm config) {id : Nat} (hid : id ∈ s.store.ids) :
    id < config.totalBuckets := by
  obtain ⟨b, hb⟩ := Option.isSome_iff_exists.1 (BucketStore.mem_ids.1 hid)
  exact (h.store.bucket id b hb).id_lt

theorem hosts_eq_true {b : Bucket} (h : s.store.bucket? (s.bucketOf k) = some b) :
    s.hosts k = true := by simp [hosts, h]

/-! ## Entries -/

/-- Whatever is done to a bucket, if it leaves calm buckets calm. -/
theorem Calm.of_submit (h : s.Calm config) {f : Bucket → Checked (Except BucketError EntryEvent × Bucket)}
    (hf : ∀ b r b', b.Calm config s.store.member (s.bucketOf k) → f b = .ok (r, b') →
      b'.Calm config s.store.member (s.bucketOf k))
    {r : Except ClearError Unit} {s' : Share} (hs : s.submit k f = .ok (r, s')) :
    s'.Calm config ∧ Kept s s' := by
  simp only [submit] at hs
  split at hs
  next hb =>
    cases hs
    exact ⟨h, .refl s⟩
  next b hb =>
    cases hfb : f b with
    | error e => simp [hfb, bind, Except.bind] at hs
    | ok p =>
      obtain ⟨answer, b'⟩ := p
      simp only [hfb, bind, Except.bind, pure, Except.pure, Except.ok.injEq, Prod.mk.injEq] at hs
      obtain ⟨-, rfl⟩ := hs
      have hb' := hf b answer b' (h.store.bucket _ b hb) hfb
      refine ⟨h.withStore (h.store.setBucket hb') rfl, rfl, rfl, fun id => ?_⟩
      simp only [BucketStore.bucket?_setBucket]
      split
      next he => rw [he, hb]; rfl
      next => rfl

theorem Calm.of_put (h : s.Calm config) {v : Value} {r : Except ClearError Unit} {s' : Share}
    (hs : s.put now k v = .ok (r, s')) : s'.Calm config ∧ Kept s s' :=
  h.of_submit (fun _ _ _ hb hput => hb.of_put now (h.bucketOf k) hput) hs

theorem Calm.of_destroy (h : s.Calm config) {r : Except ClearError Unit} {s' : Share}
    (hs : s.destroy now k = .ok (r, s')) : s'.Calm config ∧ Kept s s' :=
  h.of_submit (fun _ _ _ hb hdestroy => hb.of_destroy now hdestroy) hs

/-- What a change of the bucket of a key does to the values of the share. -/
theorem submit_hosted {f : Bucket → Checked (Except BucketError EntryEvent × Bucket)} {b b' : Bucket}
    {answer : Except BucketError EntryEvent} {value : Option Value}
    (hb : s.store.bucket? (s.bucketOf k) = some b) (hf : f b = .ok (answer, b'))
    (hget : ∀ k', b'.get? k' = if k' = k then value else b.get? k') :
    ∃ s', s.submit k f = .ok (answer.mapError .bucket |>.map fun _ => (), s') ∧
      ∀ k', s'.get? k' = if k' = k then value else s.get? k' := by
  refine ⟨{ s with store := s.store.setBucket (s.bucketOf k) b' }, ?_, fun k' => ?_⟩
  · simp only [submit, hb, hf, bind, Except.bind, pure, Except.pure]
  · simp only [get?, BucketStore.bucket?_setBucket]
    have hof : Share.bucketOf { s with store := s.store.setBucket (s.bucketOf k) b' } k' =
      s.bucketOf k' := rfl
    rw [hof]
    by_cases hk : k' = k
    · subst hk
      simp [hget]
    · by_cases he : s.bucketOf k' = s.bucketOf k
      · simp [he, hk, hb, hget]
      · simp [he, hk]

theorem submit_elsewhere (f : Bucket → Checked (Except BucketError EntryEvent × Bucket))
    (hk : s.hosts k = false) :
    s.submit k f = .ok (.error (.bucket (.notHosted (s.bucketOf k))), s) := by
  have hb : s.store.bucket? (s.bucketOf k) = none := by simpa [hosts] using hk
  simp only [submit, hb]

theorem Calm.put_hosted (h : s.Calm config) (hfit : s.Countable) (hk : s.hosts k = true)
    (v : Value) :
    ∃ s', s.put now k v = .ok (.ok (), s') ∧
      ∀ k', s'.get? k' = if k' = k then some v else s.get? k' := by
  obtain ⟨b, hb⟩ := Option.isSome_iff_exists.1 hk
  obtain ⟨e, b', hput, -, hget⟩ :=
    (h.store.bucket _ b hb).put now (h.bucketOf k) (hfit _ b hb) v
  exact submit_hosted (f := (·.put now k v)) hb hput hget

theorem Calm.destroy_present (h : s.Calm config) (hfit : s.Countable)
    (hk : (s.get? k).isSome = true) :
    ∃ s', s.destroy now k = .ok (.ok (), s') ∧
      ∀ k', s'.get? k' = if k' = k then none else s.get? k' := by
  unfold get? at hk
  cases hb : s.store.bucket? (s.bucketOf k) with
  | none => simp [hb] at hk
  | some b =>
    obtain ⟨e, b', hdestroy, -, hget⟩ :=
      (h.store.bucket _ b hb).destroy_present now (hfit _ b hb) (by simpa [hb] using hk)
    exact submit_hosted (f := (·.destroy now k)) hb hdestroy hget

theorem Calm.destroy_absent (h : s.Calm config) (hk : s.hosts k = true) (hget : s.get? k = none) :
    ∃ s', s.destroy now k = .ok (.error (.bucket (.entry (.notFound k))), s') ∧
      ∀ k', s'.get? k' = s.get? k' := by
  obtain ⟨b, hb⟩ := Option.isSome_iff_exists.1 hk
  have hbk : b.get? k = none := by simpa [get?, hb] using hget
  obtain ⟨b', hdestroy, -, hsame⟩ := (h.store.bucket _ b hb).destroy_absent now hbk
  obtain ⟨s', hs, hvalues⟩ := submit_hosted (f := (·.destroy now k)) hb hdestroy
    (fun k' => show b'.get? k' = if k' = k then none else b.get? k' by
      rw [hsame]
      split
      next he => rw [he, hbk]
      next => rfl)
  refine ⟨s', hs, fun k' => ?_⟩
  rw [hvalues]
  split
  next he => rw [he, hget]
  next => rfl

theorem get?_mapAll (s : Share) (f : Bucket → Bucket) (k : Key) :
    Share.get? { s with store := s.store.mapAll f } k =
      ((s.store.bucket? (s.bucketOf k)).map f).bind (·.get? k) := by
  rw [← BucketStore.bucket?_mapAll]
  rfl

/-- A sweep does not show. -/
theorem Calm.sweep (h : s.Calm config) :
    (s.sweep now).2.Calm config ∧ Kept s (s.sweep now).2 ∧
      ∀ k, (s.sweep now).2.get? k = s.get? k := by
  have hstore : (s.sweep now).2 =
      { s with store := s.store.mapAll fun b => (b.expireTombstones now).2 } := rfl
  rw [hstore]
  refine ⟨h.withStore (h.store.mapAll fun id b hb => (hb.expireTombstones now).1) rfl,
    ⟨rfl, rfl, fun id => ?_⟩, fun k => ?_⟩
  · simp only [BucketStore.bucket?_mapAll, Option.isSome_map]
  · rw [get?_mapAll]
    unfold get?
    cases hb : s.store.bucket? (s.bucketOf k) with
    | none => rfl
    | some b => exact ((h.store.bucket _ b hb).expireTombstones now).2 k

/-! ## Buckets -/

/-- A volunteer for a bucket that it leads stays what it is. -/
theorem Calm.volunteer (h : s.Calm config) (hostsRegion : Member → Bool) (id : Nat) :
    (s.volunteer hostsRegion id).Calm config ∧ Kept s (s.volunteer hostsRegion id) ∧
      ∀ k, (s.volunteer hostsRegion id).get? k = s.get? k := by
  simp only [Share.volunteer, advise?]
  cases hb : s.store.bucket? id with
  | none => exact ⟨h, .refl s, fun _ => rfl⟩
  | some b =>
    have hcalm := h.store.bucket id b hb
    have hadvice : Advisor.perform (m := Id) (fun m => pure (hostsRegion m)) .volunteer b.advisor =
      (.flag false, b.advisor, []) := hcalm.volunteer hostsRegion
    simp only [hadvice, Option.map_some, Option.getD_some]
    refine ⟨h.withStore (h.store.setBucket hcalm) rfl, ⟨rfl, rfl, fun id' => ?_⟩, fun k => ?_⟩
    · simp only [BucketStore.bucket?_setBucket, Id.run]
      split
      next he => rw [he, hb]
      next => rfl
    · simp only [get?, BucketStore.bucket?_setBucket, Id.run]
      split
      next he =>
        have he' : s.bucketOf k = id := he
        rw [he', hb]
      next => rfl

/-- The share once the member has begun to host a bucket. -/
theorem hostBucket_new (hostsRegion : Member → Bool) {id : Nat}
    (hlt : id < s.store.config.totalBuckets) (hcreate : s.store.creationGate = {})
    (hb : s.store.bucket? id = none) :
    ∃ b, (s.hostBucket hostsRegion id).2 = { s with
        store := (s.store.setBucket id (s.store.newBucket id .immediate)).setBucket id b } ∧
      b.Calm s.store.config s.store.member id ∧ ∀ k, b.get? k = none := by
  obtain ⟨a, hbid, hcalm⟩ := Bucket.calm_newBucket s.store hlt hostsRegion
  refine ⟨{ s.store.newBucket id .immediate with advisor := a }, ?_, hcalm, fun k => ?_⟩
  · have hpass : s.store.creationGate.passes = true := by rw [hcreate]; rfl
    have hnew : s.store.create id .immediate = .ok (s.store.newBucket id .immediate,
        s.store.setBucket id (s.store.newBucket id .immediate)) := by
      simp only [BucketStore.create, Nat.not_le.2 hlt, hpass, hb, if_false, Bool.not_true,
        Bool.false_eq_true]
    have hadvice : Advisor.perform (m := Id) (fun m => pure (hostsRegion m)) .volunteer
        (s.store.newBucket id .immediate).advisor = (.flag true, a, []) := hbid
    simp only [hostBucket, hnew, Share.volunteer, advise?, BucketStore.bucket?_setBucket, if_true,
      Option.map_some, hadvice, Option.getD_some, Id.run]
  · rw [Bucket.get?_eq]
    rfl

/-- A member leads the buckets that it hosts, and begins with nothing in them. -/
theorem Calm.hostBucket (h : s.Calm config) (hostsRegion : Member → Bool) (id : Nat) :
    (s.hostBucket hostsRegion id).2.Calm config ∧
      (s.hostBucket hostsRegion id).2 = { s with store := (s.hostBucket hostsRegion id).2.store } ∧
      (s.hostBucket hostsRegion id).2.store.member = s.store.member ∧
      ∀ k, (s.hostBucket hostsRegion id).2.get? k = s.get? k := by
  by_cases hlt : id < s.store.config.totalBuckets
  · cases hb : s.store.bucket? id with
    | none =>
      obtain ⟨b, hshare, hcalm, hempty⟩ := hostBucket_new hostsRegion hlt h.store.creation hb
      rw [hshare]
      refine ⟨h.withStore ⟨h.store.configured, h.store.creation, fun id' b' hb' => ?_⟩ rfl, rfl, rfl,
        fun k => ?_⟩
      · simp only [BucketStore.bucket?_setBucket] at hb'
        split at hb'
        next he =>
          cases hb'
          rw [he, ← h.store.configured]
          exact hcalm
        next => exact h.store.bucket id' b' hb'
      · have hof : Share.bucketOf { s with store := (s.store.setBucket id
          (s.store.newBucket id .immediate)).setBucket id b } k = s.bucketOf k := rfl
        simp only [get?, BucketStore.bucket?_setBucket, hof]
        by_cases he : s.bucketOf k = id
        · simp [he, hb, hempty]
        · simp [he]
    | some b =>
      have hpass : s.store.creationGate.passes = true := by rw [h.store.creation]; rfl
      have hshare : (s.hostBucket hostsRegion id).2 = s.volunteer hostsRegion id := by
        simp only [Share.hostBucket, BucketStore.create, Nat.not_le.2 hlt, hpass, hb, if_false,
          Bool.not_true, Bool.false_eq_true]
      obtain ⟨hcalm, hkept, hget⟩ := h.volunteer hostsRegion id
      rw [hshare]
      exact ⟨hcalm, hkept.store, hkept.member, hget⟩
  · have hshare : (s.hostBucket hostsRegion id).2 = s := by
      simp only [Share.hostBucket, BucketStore.create, Nat.not_lt.1 hlt, if_true]
    rw [hshare]
    exact ⟨h, rfl, rfl, fun _ => rfl⟩

/-- Buckets that are led need no primary. -/
theorem assignPrimaries_led (h : ∀ id b, s.store.bucket? id = some b → b.advisor.hasPrimary = true)
    (hostsRegion : Member → Bool) : s.assignPrimaries hostsRegion = s := by
  have hfold : ∀ l : List Bucket, (∀ b ∈ l, b.advisor.hasPrimary = true) →
      l.foldl (fun s b => if b.advisor.hasPrimary then s else s.volunteer hostsRegion b.id) s = s := by
    intro l
    induction l with
    | nil => exact fun _ => rfl
    | cons b r ih =>
      intro hl
      rw [List.foldl_cons, if_pos (hl b List.mem_cons_self)]
      exact ih fun b hb => hl b (List.mem_cons_of_mem _ hb)
  refine hfold s.store.all fun b hb => ?_
  obtain ⟨id, hid⟩ := BucketStore.mem_all.1 hb
  exact h id b hid

theorem Calm.bucketsHearOf (h : s.Calm config) (hostsRegion : Member → Bool) (p : Member) :
    (s.bucketsHearOf hostsRegion p).Calm config ∧
      (s.bucketsHearOf hostsRegion p).store.member = s.store.member := by
  obtain ⟨store, reports, hrun, hcalm, hm⟩ := h.store.memberDeparted hostsRegion p
  have hshare : s.bucketsHearOf hostsRegion p = { s with store } := by
    simp only [Share.bucketsHearOf, hrun]
  rw [hshare]
  exact ⟨h.withStore hcalm hm, hm⟩

/-! ## Clearing -/

/-- The share with its buckets cleared. -/
def cleared (s : Share) : Share := { s with store := s.store.mapAll (·.clear.2) }

theorem Calm.cleared (h : s.Calm config) :
    s.cleared.Calm config ∧ (∀ k, s.cleared.get? k = none) ∧ s.cleared.store.size = 0 := by
  refine ⟨h.withStore (h.store.mapAll fun id b hb => hb.clear.1) rfl, fun k => ?_, ?_⟩
  · rw [Share.cleared, get?_mapAll]
    cases hb : s.store.bucket? (s.bucketOf k) with
    | none => rfl
    | some b => exact (h.store.bucket _ b hb).clear.2 k
  · refine List.sum_eq_zero_iff_forall_eq_nat.2 fun n hn => ?_
    obtain ⟨b, hb, rfl⟩ := List.mem_map.1 hn
    obtain ⟨id, hid⟩ := BucketStore.mem_all.1 hb
    rw [Share.cleared, BucketStore.bucket?_mapAll] at hid
    obtain ⟨b', hb', rfl⟩ := Option.map_eq_some_iff.1 hid
    have hcalm := h.store.bucket id b' hb'
    exact hcalm.clear.1.size_eq_zero hcalm.clear.2

end Share
end DataGrid
