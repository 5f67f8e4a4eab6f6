import DataGrid.Proofs.Bucket.Received

/-
An event that arrives a second time. The vector keeps the region version of
every event that took effect, through clears and the collection of tombstones.
But it is asked only where the key has no stamp; a stamped entry compares entry
versions, and these start again with each new entry of the key. So a repeated
event has no effect unless the key was written again with a lower version than
that of the event (`redelivered_refused`), and in that case the old value comes
back (`redelivered_over_newer`).
-/

namespace DataGrid.Bucket

/-- What can happen to a bucket that takes no local operations. -/
inductive Arrival
  | event (now : Int) (e : EntryEvent)
  | clear
  | expireTombstones (now : Int)
  | gcTombstones (gc : VersionVector)

/-- The event comes from another member, and both its versions are assigned. -/
structure Versioned (e : EntryEvent) (t : VersionTag) : Prop where
  remote : e.remote = true
  tagged : e.tag = some t
  entryVersion : t.entryVersion ≠ 0
  regionVersion : t.regionVersion ≠ 0
  fits : t.regionVersion ≤ counterMax

def Arrival.Proper : Arrival → Prop
  | .event _ e => ∃ t, Versioned e t
  | _ => True

def arrive (b : Bucket) : Arrival → Checked Bucket
  | .event now e => do return (← b.apply now e).2.2
  | .clear => .ok b.clear.2
  | .expireTombstones now => .ok (b.expireTombstones now).2
  | .gcTombstones gc => .ok (b.gcTombstones gc).2

def arriveAll (b : Bucket) (arrivals : List Arrival) : Checked Bucket :=
  arrivals.foldlM arrive b

theorem Versioned.valid {e : EntryEvent} {t : VersionTag} (h : Versioned e t) :
    t.isValid = true := by
  simp [VersionTag.isValid, h.entryVersion]

/-- What holds of a bucket that only receives: what has no stamp counts as absent. -/
structure Receiving (b : Bucket) : Prop where
  checked : b.attributes.concurrencyChecks = true
  passes : b.gate.passes = true
  vector : b.copy.vector.isSome = true
  seen : b.copy.Seen
  absent : ∀ k s, b.copy.slot? k = some s → s.stamp.isVersioned = false → s.token.isRemoved = true

variable {b : Bucket} {e : EntryEvent} {t : VersionTag}

theorem receiving_new (path : String) (a : Advisor) {attributes : RegionAttributes}
    (hcc : attributes.concurrencyChecks = true) : Receiving (.new path a attributes) where
  checked := hcc
  passes := rfl
  vector := by simp [new, hcc]
  seen := RegionCopy.seen_new _ {} a.member attributes.concurrencyChecks rfl
  absent _ _ hs := by cases hs

theorem Receiving.held (h : b.Receiving) (hr : e.remote = true) : b.held e = none := by
  simp [Bucket.held, hr, h.passes]

theorem Receiving.receives (h : b.Receiving) (he : Versioned e t) :
    Task.Receives ⟨b.copy, e, []⟩ b.rules t where
  checked := h.checked
  attached := h.seen.attached
  vector := by
    obtain ⟨v, hv⟩ := Option.isSome_iff_exists.1 h.vector
    exact ⟨v, hv, h.seen.sound v hv⟩
  remote := he.remote
  tagged := he.tagged
  valid := he.valid
  fits := he.fits

/-- Another copy will do if its vector has seen its stamps too. -/
theorem Receiving.withCopy (h : b.Receiving) {c : RegionCopy} {n : Nat}
    (hv : c.vector.isSome = true) (hseen : c.Seen)
    (habsent : ∀ k s, c.slot? k = some s → s.stamp.isVersioned = false →
      b.copy.slot? k = some s ∨ s.token.isRemoved = true) :
    Receiving { b with copy := c, clears := n } where
  checked := h.checked
  passes := h.passes
  vector := hv
  seen := hseen
  absent k s hs hn := (habsent k s hs hn).elim (fun hb => h.absent k s hb hn) fun hr => hr

theorem Receiving.clear (h : b.Receiving) : b.clear.2.Receiving := by
  have hv : (b.copy.clear b.copy.vector).2.vector.isSome = true := by
    rw [RegionCopy.vector_clear]
    exact h.vector
  exact h.withCopy (n := b.clears + 1) hv h.seen.clear fun k s hs =>
    nomatch (h.seen.slot?_clear k).symm.trans hs

theorem Receiving.event (h : b.Receiving) (he : Versioned e t) (now : Int) :
    ∃ b', b.arrive (.event now e) = .ok b' ∧ b'.Receiving := by
  by_cases hop : e.operation = .regionClear
  · refine ⟨b.clear.2, ?_, h.clear⟩
    simp only [arrive, apply_clear now (h.held he.remote) hop, bind, Except.bind, pure,
      Except.pure]
  · obtain ⟨_, happ, r, w, rfl, heffect⟩ := applyToEntry_settles now (h.receives he) hop
    refine ⟨{ b with copy := w.copy }, ?_, ?_⟩
    · simp only [arrive, apply_of_entry now (h.held he.remote) happ, bind, Except.bind, pure,
        Except.pure]
    · rcases heffect with ⟨-, hhollow⟩ | hstamped
      · refine h.withCopy (by rw [hhollow.vector]; exact h.vector) (h.seen.hollowed hhollow)
          fun k s hs _ => ?_
        rcases hhollow.of_slot? hs with hb | rfl
        · exact .inl hb
        · exact .inr rfl
      · obtain ⟨-, v', -, hv', -⟩ := hstamped.vector
        obtain ⟨token, -, hslot⟩ := hstamped.slot
        refine h.withCopy (by rw [hv']; rfl) (h.seen.stamped hstamped) fun k s hs hn => ?_
        rw [hslot] at hs
        split at hs
        · cases hs
          cases hn
        · exact .inl hs

theorem Receiving.swept (h : b.Receiving) {c : RegionCopy} (hs : RegionCopy.Swept b.copy c) :
    Receiving { b with copy := c } :=
  h.withCopy (by rw [hs.vector]; exact h.vector) (h.seen.swept hs)
    fun _ _ hk _ => .inl (hs.of_slot? hk)

theorem Receiving.arrive (h : b.Receiving) {arrival : Arrival} (hp : arrival.Proper) :
    ∃ b', b.arrive arrival = .ok b' ∧ b'.Receiving := by
  cases arrival with
  | event now e =>
    obtain ⟨t, ht⟩ := hp
    exact h.event ht now
  | clear => exact ⟨_, rfl, h.clear⟩
  | expireTombstones now =>
    exact ⟨_, rfl, h.swept (RegionCopy.swept_expireTombstones now b.copy)⟩
  | gcTombstones gc => exact ⟨_, rfl, h.swept (RegionCopy.swept_gcTombstones gc b.copy)⟩

theorem Receiving.arriveAll {arrivals : List Arrival} (h : b.Receiving)
    (hp : ∀ a ∈ arrivals, a.Proper) : ∃ b', b.arriveAll arrivals = .ok b' ∧ b'.Receiving := by
  induction arrivals generalizing b with
  | nil => exact ⟨b, rfl, h⟩
  | cons a rest ih =>
    obtain ⟨b₁, hb₁, h₁⟩ := h.arrive (hp a List.mem_cons_self)
    obtain ⟨b', hb', h'⟩ := ih h₁ fun x hx => hp x (List.mem_cons_of_mem _ hx)
    refine ⟨b', ?_, h'⟩
    simp only [Bucket.arriveAll, List.foldlM_cons, hb₁, bind, Except.bind]
    exact hb'

/-- The key has a stamp that the tag outranks. -/
def Overtaken (b : Bucket) (k : Key) (t : VersionTag) : Prop :=
  ∃ s, b.copy.slot? k = some s ∧ s.stamp.isVersioned = true ∧ s.stamp.judge t = .apply

/-- What the vector has seen is stale, at the key of an entry that is not overtaken and at an
absent key. -/
theorem Receiving.stale (h : b.Receiving) (he : Versioned e t) {v : VersionVector}
    (hv : b.copy.vector = some v) (hc : v.contains t.member t.regionVersion = true)
    (hover : ¬ b.Overtaken e.key t) :
    b.rules.stale (some t) b.copy.vector (b.met e.key) = true := by
  have hchecks : b.rules.concurrencyChecks = true := h.checked
  -- the vector is asked only about a key without a stamp
  cases hver : (b.met e.key).stamp.isVersioned with
  | true =>
    have hjudge : (b.met e.key).stamp.judge t ≠ .apply := fun hj => by
      cases hs : b.copy.slot? e.key with
      | none =>
        rw [met, hs] at hver
        cases hver
      | some s =>
        simp only [met, hs, Option.getD_some] at hver hj
        exact hover ⟨s, hs, hver, hj⟩
    simp [Rules.stale, hchecks, hver, hjudge]
  | false =>
    have hrem : (b.met e.key).token.isRemoved = true := by
      cases hs : b.copy.slot? e.key with
      | none =>
        rw [met, hs]
        rfl
      | some s =>
        simp only [met, hs, Option.getD_some] at hver ⊢
        exact h.absent _ s hs hver
    have hdup : v.judgeAbsent t = .duplicate := by
      simp [VersionVector.judgeAbsent, VersionVector.containsTag, he.regionVersion, hc]
    simp [Rules.stale, hchecks, hver, hrem, hv, hdup]

/-- After any arrivals at an empty bucket, an event whose region version the vector contains is
without effect, unless its key was written since with a version below that of the event. No run
fails. -/
theorem redelivered_refused (path : String) (a : Advisor) {attributes : RegionAttributes}
    (hcc : attributes.concurrencyChecks = true) (arrivals : List Arrival)
    (hp : ∀ x ∈ arrivals, x.Proper) :
    ∃ b v, (Bucket.new path a attributes).arriveAll arrivals = .ok b ∧ b.copy.vector = some v ∧
      ∀ now e t, Versioned e t → v.contains t.member t.regionVersion = true →
        e.operation ≠ .regionClear → e.operation ≠ .evict → ¬ b.Overtaken e.key t →
        ∃ r e' b', b.apply now e = .ok (r, e', b') ∧ r ≠ .ok true ∧
          b'.copy.vector = b.copy.vector ∧ ∀ k, b'.copy.slot? k = b.copy.slot? k := by
  obtain ⟨b, hrun, h⟩ := (receiving_new path a hcc).arriveAll hp
  obtain ⟨v, hv⟩ := Option.isSome_iff_exists.1 h.vector
  refine ⟨b, v, hrun, hv, fun now e t he hc hop hevict hover => ?_⟩
  obtain ⟨_, happ, r, w, rfl, hr, hun⟩ :=
    applyToEntry_refused now (h.receives he) hop hevict (h.stale he hv hc hover)
  refine ⟨r.mapError .entry, w.event, { b with copy := w.copy },
    apply_of_entry now (h.held he.remote) happ, ?_, hun.vector, hun.slot⟩
  cases r with
  | error err => exact nofun
  | ok applied => exact fun heq => hr (by cases heq; rfl)

/-- The tag of a member's operation on an entry. -/
def tagFrom (port : UInt16) (entryVersion regionVersion : Nat) : VersionTag where
  member := (hostAt port).member
  entryVersion := entryVersion
  regionVersion := regionVersion
  timestamp := 0

/-- A write of a key as it is received. -/
def writeOf (v : Value) (t : VersionTag) : EntryEvent :=
  { EntryEvent.ofPut "k" v with remote := true, tag := some t }

theorem versioned_writeOf (v : Value) {t : VersionTag} (he : t.entryVersion ≠ 0)
    (hr : t.regionVersion ≠ 0) (hn : t.regionVersion ≤ counterMax) : Versioned (writeOf v t) t :=
  ⟨rfl, rfl, he, hr, hn⟩

/-- A key is written twice, cleared, and written again. -/
def rewritten : List Arrival :=
  [.event 0 (writeOf "a" (tagFrom 1 1 1)), .event 1 (writeOf "b" (tagFrom 1 2 2)), .clear,
    .event 2 (writeOf "c" (tagFrom 1 1 3))]

theorem proper_rewritten : ∀ x ∈ rewritten, x.Proper := by
  intro x hx
  simp only [rewritten, List.mem_cons, List.not_mem_nil, or_false] at hx
  rcases hx with rfl | rfl | rfl | rfl
  · exact ⟨_, versioned_writeOf _ (by decide) (by decide) (by decide)⟩
  · exact ⟨_, versioned_writeOf _ (by decide) (by decide) (by decide)⟩
  · trivial
  · exact ⟨_, versioned_writeOf _ (by decide) (by decide) (by decide)⟩

/-- The first of the writes is refused when it arrives again. -/
theorem redelivered_refused_rewritten :
    ∃ b v, (Bucket.new "/orders" (hostAt 2) {}).arriveAll rewritten = .ok b ∧
      b.copy.vector = some v ∧ v.contains (hostAt 1).member 1 = true ∧
      ∃ r e' b', b.apply 3 (writeOf "a" (tagFrom 1 1 1)) = .ok (r, e', b') ∧ r ≠ .ok true ∧
        b'.copy.slot? "k" = some ⟨.valid "c", .ofTag (tagFrom 1 1 3)⟩ := by
  obtain ⟨b, v, hrun, hv, hall⟩ :=
    @redelivered_refused "/orders" (hostAt 2) {} rfl rewritten proper_rewritten
  have hend : ((Bucket.new "/orders" (hostAt 2) {}).arriveAll rewritten).map (fun b =>
      (b.copy.vector.map (·.contains (hostAt 1).member 1), b.copy.slot? "k")) =
        .ok (some true, some ⟨.valid "c", .ofTag (tagFrom 1 1 3)⟩) := rfl
  simp only [hrun, Except.map, hv, Option.map_some, Except.ok.injEq, Prod.mk.injEq,
    Option.some.injEq] at hend
  obtain ⟨hc, hs⟩ := hend
  have hover : ¬ b.Overtaken "k" (tagFrom 1 1 1) := by
    rintro ⟨s, hs', -, hj⟩
    rw [hs] at hs'
    cases hs'
    exact absurd hj (by decide)
  obtain ⟨r, e', b', happ, hr, -, hslot⟩ := hall 3 (writeOf "a" (tagFrom 1 1 1)) (tagFrom 1 1 1)
    (versioned_writeOf _ (by decide) (by decide) (by decide)) hc nofun nofun hover
  exact ⟨b, v, hrun, hv, hc, r, e', b', happ, hr, by rw [hslot, hs]⟩

/-- The second of the writes takes effect a second time, though the vector has its version, and
replaces the last one. -/
theorem redelivered_over_newer :
    (∀ x ∈ rewritten, x.Proper) ∧ Versioned (writeOf "b" (tagFrom 1 2 2)) (tagFrom 1 2 2) ∧
      ∃ b v e' b', (Bucket.new "/orders" (hostAt 2) {}).arriveAll rewritten = .ok b ∧
        b.copy.vector = some v ∧ v.contains (hostAt 1).member 2 = true ∧ b.get? "k" = some "c" ∧
        b.apply 3 (writeOf "b" (tagFrom 1 2 2)) = .ok (.ok true, e', b') ∧
        b'.get? "k" = some "b" :=
  ⟨proper_rewritten, versioned_writeOf _ (by decide) (by decide) (by decide),
    _, _, _, _, rfl, rfl, rfl, rfl, rfl, rfl⟩

end DataGrid.Bucket
