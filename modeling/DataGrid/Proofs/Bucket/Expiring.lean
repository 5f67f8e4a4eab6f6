import DataGrid.Proofs.Bucket.Calm
import DataGrid.Proofs.Bucket.Redelivery

/-
A primary and a secondary that collect their tombstones at moments of their
own. A tombstone keeps the entry version from which the next write of its key
counts on. Where the secondary has collected it and the primary has not, the
secondary asks its vector instead, and takes the write. The other way round the
primary counts from one again, and the secondary, which compares with the
tombstone it still has, refuses the write as an old one (`Forgets`).

That is the only way in which an update is lost. Until then the two give the
same answers, and afterwards for all other keys; of a key of which the last
update was refused the secondary has nothing, rather than something older.
-/

namespace DataGrid

open RegionCopy

/-- What a key that is absent is met with does not matter to an event. -/
theorem EntryEvent.leaves?_removed {e : EntryEvent} {met met' : Token} (h : met.isRemoved = true)
    (h' : met'.isRemoved = true) : e.leaves? met = e.leaves? met' := by
  unfold leaves?
  simp only [h, h', Bool.true_or]

/-- Only a value can come to an absent key. -/
theorem EntryEvent.leaves?_absent {e : EntryEvent} {met t : Token} (h : met.isRemoved = true)
    (he : e.leaves? met = some t) : ∃ v, t = .valid v := by
  unfold leaves? at he
  split at he
  · obtain ⟨v, -, rfl⟩ := Option.map_eq_some_iff.1 he
    exact ⟨v, rfl⟩
  · obtain ⟨v, -, rfl⟩ := Option.map_eq_some_iff.1 he
    exact ⟨v, rfl⟩
  all_goals simp [h] at he

theorem EntryEvent.onKey_of_leaves? {e : EntryEvent} {met t : Token}
    (he : e.leaves? met = some t) : e.operation ≠ .regionClear := by
  intro hop
  simp [leaves?, hop] at he

/-- A count that starts again does not pass the tombstone of an earlier one. -/
theorem Rules.stale_restarted {rules : Rules} {m : Member} {v : VersionVector} {s : Slot}
    (now : Int) (vector : Option VersionVector) (hcc : rules.concurrencyChecks = true)
    (hm : s.stamp.member = some m) (hs : 0 < s.stamp.entryVersion) :
    rules.stale (some (localTag m v {} now)) vector s = true := by
  have hnot : compare 1 s.stamp.entryVersion ≠ .gt := by
    intro hgt
    have := Nat.compare_eq_gt.1 hgt
    omega
  have hjudge : s.stamp.judge (localTag m v {} now) ≠ .apply := by
    simp only [VersionStamp.judge, hm, isValid_localTag, if_true]
    simp only [localTag, Nat.zero_add, Std.ReflCmp.compare_self]
    cases hcmp : compare 1 s.stamp.entryVersion with
    | gt => exact absurd hcmp hnot
    | lt | eq => simp
  simp [stale, hcc, VersionStamp.isVersioned, hm, hjudge]

namespace Bucket

/-! ## Two slots of a key -/

/-- How a primary and a secondary hold a key. They hold the same, or one of them has collected the
tombstone that the other has. -/
inductive Abreast : Slot → Slot → Prop
  | same (x : Slot) : Abreast x x
  | bySecondary {x : Slot} (hx : x.token = .tombstone) : Abreast x ⟨.placeholder, {}⟩
  | byPrimary {x : Slot} (hx : x.token = .tombstone) : Abreast ⟨.placeholder, {}⟩ x

variable {p s b : Bucket} {x y z : Slot}

theorem Abreast.symm (h : Abreast x y) : Abreast y x := by
  cases h with
  | same => exact .same x
  | bySecondary hx => exact .byPrimary hx
  | byPrimary hx => exact .bySecondary hx

theorem Abreast.value (h : Abreast x y) : y.token.value? = x.token.value? := by
  cases h with
  | same => rfl
  | bySecondary hx => rw [hx]; rfl
  | byPrimary hx => rw [hx]; rfl

/-- A collection on either side keeps the two abreast. -/
theorem Abreast.collect (h : Abreast x y)
    (hz : z = x ∨ (z = ⟨.placeholder, {}⟩ ∧ x.token = .tombstone)) : Abreast z y := by
  rcases hz with rfl | ⟨rfl, hx⟩
  · exact h
  · cases h with
    | same => exact .byPrimary hx
    | bySecondary => exact .same _
    | byPrimary => cases hx

theorem get?_eq_met (b : Bucket) (k : Key) : b.get? k = (b.met k).token.value? := by
  rw [get?_eq, met]
  cases b.copy.slot? k <;> rfl

theorem met_swept {c : RegionCopy} (h : Swept b.copy c) (k : Key) :
    met { b with copy := c } k = b.met k ∨
      (met { b with copy := c } k = ⟨.placeholder, {}⟩ ∧ (b.met k).token = .tombstone) := by
  unfold met
  rcases h.slot k with heq | ⟨hn, x, hx, ht⟩
  · exact .inl (by rw [heq])
  · exact .inr ⟨by rw [hn]; rfl, by rw [hx]; exact ht⟩

theorem met_hollowed {c : RegionCopy} (h : b.copy.Hollowed c) (k : Key) :
    met { b with copy := c } k = b.met k := by
  unfold met
  rcases h.slot k with heq | ⟨hn, heq⟩
  · rw [heq]
  · rw [heq, hn]
    rfl

/-! ## What a secondary makes of an event -/

/-- A secondary leaves the slot that the event asks for, or nothing that shows. -/
inductive Answers (s : Bucket) (e : EntryEvent) (x : Slot) (tag : VersionTag) :
    Applied → Task → Prop
  | takes {u u' : VersionVector} {w : Task} (hu : s.copy.vector = some u)
      (hrec : u.Recorded tag.member tag.regionVersion u')
      (hleft : Task.Left ⟨s.copy, e, []⟩ w (some x) (some u')) : Answers s e x tag (.ok true) w
  | refuses {r : Applied} {w : Task} (hr : r ≠ .ok true) (h : s.copy.Hollowed w.copy) :
      Answers s e x tag r w

section

variable {e : EntryEvent} {t met : Token} {tag : VersionTag} (now : Int)
  (h : s.Receiving) (he : Versioned e tag)

include h he

theorem Receiving.takes (hopen : s.advisor.gateOpen = true)
    (heff : e.leaves? (s.met e.key).token = some t)
    (hst : s.rules.stale (some tag) s.copy.vector (s.met e.key) = false) :
    ∃ w, s.applyToEntry now e = some (.ok (.ok true, w)) ∧
      Answers s e ⟨t, .ofTag tag⟩ tag (.ok true) w := by
  obtain ⟨u, u', hu, hrec, -, hver⟩ := (h.receives he).version now
  obtain ⟨w, hw, htook⟩ := applyToEntry_takes now h.checked hopen h.seen.attached heff
    (by rw [he.tagged]; exact hst) (hver _) he.valid
  exact ⟨w, hw, .takes hu hrec htook.left⟩

/-- A stale event is refused at an absent key, whichever operation it asks for. -/
theorem Receiving.refuses (hop : e.operation ≠ .regionClear)
    (hrem : (s.met e.key).token.isRemoved = true)
    (hst : s.rules.stale (some tag) s.copy.vector (s.met e.key) = true) :
    ∃ r w, s.applyToEntry now e = some (.ok (r, w)) ∧ r ≠ .ok true ∧ s.copy.Hollowed w.copy := by
  by_cases hevict : e.operation = .evict
  · obtain ⟨w, hw, hvec, hslot⟩ := Task.evict_missing now .eviction (w := ⟨s.copy, e, []⟩)
      h.seen.attached rfl hrem
    refine ⟨.ok false, w, ?_, by simp, hvec, hslot⟩
    rw [applyToEntry, hevict]
    exact congrArg some hw
  · obtain ⟨_, happ, r, w, rfl, hr, hun⟩ :=
      applyToEntry_refused now (h.receives he) hop hevict hst
    exact ⟨r, w, happ, hr, hun.hollowed⟩

/-- An event that is not stale, and had an effect where it came from, has the same effect at an
absent key or none. -/
theorem Receiving.follows (hopen : s.advisor.gateOpen = true) (heff : e.leaves? met = some t)
    (hrem : (s.met e.key).token.isRemoved = true)
    (hst : s.rules.stale (some tag) s.copy.vector (s.met e.key) = false) :
    ∃ r w, s.applyToEntry now e = some (.ok (r, w)) ∧
      Answers s e ⟨t, .ofTag tag⟩ tag r w := by
  have hreceives := h.receives he
  cases hop : e.operation with
  | create | update =>
    have heff' : e.leaves? (s.met e.key).token = some t := by
      rw [← heff]
      simp only [EntryEvent.leaves?, hop]
    obtain ⟨w, hw, hans⟩ := h.takes now he hopen heff' hst
    exact ⟨_, w, hw, hans⟩
  | invalidate | localInvalidate =>
    obtain ⟨r, w, hw, hr, hun⟩ := Task.invalidate_refused now (w := ⟨s.copy, e, []⟩)
      h.seen.attached (show s.rules.initialized = true from hopen) (.inl hrem)
    refine ⟨r, w, ?_, .refuses hr hun.hollowed⟩
    rw [applyToEntry, hop]
    exact congrArg some hw
  | destroy =>
    obtain ⟨u, u', hu, hrec, hrecorded, -⟩ := hreceives.version now
    obtain ⟨w, hw, -, hleft⟩ := Task.destroy_absent_fresh now {} (w := ⟨s.copy, e, []⟩)
      h.seen.attached rfl (show s.rules.concurrencyChecks = true from h.checked) he.remote he.tagged
      he.valid hrem (by rw [hreceives.tagged]; exact hst) hrecorded
    have htomb : t = .tombstone := by
      simp only [EntryEvent.leaves?, hop] at heff
      split at heff <;> cases heff
      rfl
    subst htomb
    refine ⟨_, w, ?_, .takes hu hrec hleft⟩
    rw [applyToEntry, hop]
    exact congrArg some hw
  | evict =>
    obtain ⟨w, hw, hvec, hslot⟩ := Task.evict_missing now .eviction (w := ⟨s.copy, e, []⟩)
      h.seen.attached rfl hrem
    refine ⟨.ok false, w, ?_, .refuses (by simp) ⟨hvec, hslot⟩⟩
    rw [applyToEntry, hop]
    exact congrArg some hw
  | regionClear => simp [EntryEvent.leaves?, hop] at heff

theorem Receiving.applied {r : Applied} {w : Task}
    (happ : s.applyToEntry now e = some (.ok (r, w))) : Receiving { s with copy := w.copy } := by
  obtain ⟨b, hb, hreceiving⟩ := h.event he now
  simp only [Bucket.arrive, apply_of_entry now (h.held he.remote) happ, bind, Except.bind, pure,
    Except.pure, Except.ok.injEq] at hb
  rw [hb]
  exact hreceiving

end

/-! ## The two buckets -/

theorem Leads.swept (h : p.Leads) {c : RegionCopy} (hs : Swept p.copy c) :
    Leads { p with copy := c } :=
  h.withCopy p.clears (by rw [hs.vector]; exact h.vector) (h.own.swept hs)

/-- The event is for a key of which the primary has nothing and the secondary a tombstone. -/
structure Forgets (p s : Bucket) (e : EntryEvent) : Prop where
  onKey : e.operation ≠ .regionClear
  collected : p.met e.key = ⟨.placeholder, {}⟩
  buried : (s.met e.key).token = .tombstone

/-- The keys of which the secondary did not take the last event that it was sent. -/
def Forwarded.lost (r : Forwarded) (k : Key) (lost : List Key) : List Key :=
  match r.passedOn with
  | none => lost
  | some (.ok true) => lost.filter (· != k)
  | some _ => k :: lost

theorem Forwarded.lost_of_refused {answer : Except BucketError Bool}
    {r : Except BucketError Bool} (h : r ≠ .ok true) (k : Key) (lost : List Key) :
    Forwarded.lost ⟨answer, some r, p, s⟩ k lost = k :: lost := by
  unfold Forwarded.lost
  split
  next hnone => cases hnone
  next hsome => exact absurd (Option.some.inj hsome) h
  next => rfl

/-- What holds of a primary and a secondary through collections. The secondary has seen some of the
primary's versions, and shows nothing of the keys it lost. -/
structure Trailing (lost : List Key) (p s : Bucket) : Prop where
  leads : p.Leads
  receiving : s.Receiving
  initialized : s.advisor.gateOpen = true
  seen : ∀ v u n, p.copy.vector = some v → s.copy.vector = some u →
    u.contains p.advisor.member n = true → v.contains p.advisor.member n = true
  stamped : ∀ k, (s.met k).token = .tombstone →
    (s.met k).stamp.member = some p.advisor.member ∧ 0 < (s.met k).stamp.entryVersion
  kept : ∀ k, k ∉ lost → Abreast (p.met k) (s.met k)
  gone : ∀ k, k ∈ lost → (s.met k).token.isRemoved = true

variable {lost : List Key}

theorem trailing_new (path path' : String) {a a' : Advisor}
    {attributes attributes' : RegionAttributes} (hcc : attributes.concurrencyChecks = true)
    (hcc' : attributes'.concurrencyChecks = true)
    (hopen : a.gateOpen = true) (hopen' : a'.gateOpen = true) (hhosts : a.hosting = true)
    (hprimary : a.isPrimary = true) :
    Trailing [] (.new path a attributes) (.new path' a' attributes') where
  leads := leads_new path hcc hopen hhosts hprimary
  receiving := receiving_new path' a' hcc'
  initialized := hopen'
  seen v u n hv hu hc := by
    simp only [new, hcc, hcc', if_true, Option.some.injEq] at hv hu
    subst hv hu
    exact hc
  stamped k ht := by cases ht
  kept k _ := .same _
  gone k hk := by cases hk

/-- The primary may lose tombstones. -/
theorem Trailing.primary (h : Trailing lost p s) {c : RegionCopy}
    (hleads : Leads { p with copy := c }) (hv : c.vector = p.copy.vector)
    (hmet : ∀ k, met { p with copy := c } k = p.met k ∨
      (met { p with copy := c } k = ⟨.placeholder, {}⟩ ∧ (p.met k).token = .tombstone)) :
    Trailing lost { p with copy := c } s where
  leads := hleads
  receiving := h.receiving
  initialized := h.initialized
  seen v u n hpv hu hc := h.seen v u n (hv ▸ hpv) hu hc
  stamped := h.stamped
  kept k hk := (h.kept k hk).collect (hmet k)
  gone := h.gone

theorem Trailing.expirePrimary (h : Trailing lost p s) (now : Int) :
    Trailing lost (p.expireTombstones now).2 s := by
  have hswept := swept_expireTombstones now p.copy
  exact h.primary (h.leads.swept hswept) hswept.vector (met_swept hswept)

theorem Trailing.expireSecondary (h : Trailing lost p s) (now : Int) :
    Trailing lost p (s.expireTombstones now).2 := by
  have hswept := swept_expireTombstones now s.copy
  have hmet := met_swept hswept
  refine ⟨h.leads, h.receiving.swept hswept, h.initialized, fun v u n hv hu hc =>
    h.seen v u n hv (hswept.vector ▸ hu) hc, fun k ht => ?_, fun k hk =>
      ((h.kept k hk).symm.collect (hmet k)).symm, fun k hk => ?_⟩
  · change (met { s with copy := (s.copy.expireTombstones now).2 } k).token = .tombstone at ht
    rcases hmet k with heq | ⟨heq, -⟩
    · rw [heq] at ht
      have := h.stamped k ht
      rw [← heq] at this
      exact this
    · rw [heq] at ht
      cases ht
  · rcases hmet k with heq | ⟨heq, -⟩
    · have := h.gone k hk
      rw [← heq] at this
      exact this
    · exact congrArg (fun x => x.token.isRemoved) heq

/-- A clear empties both. -/
theorem Trailing.clear (h : Trailing lost p s) (lost' : List Key) :
    Trailing lost' p.clear.2 s.clear.2 := by
  have hp : ∀ k, p.clear.2.met k = ⟨.placeholder, {}⟩ := by
    intro k
    have hslot : p.clear.2.copy.slot? k = none := h.leads.own.slot?_clear k
    rw [met, hslot]
    rfl
  have hs : ∀ k, s.clear.2.met k = ⟨.placeholder, {}⟩ := by
    intro k
    have hslot : s.clear.2.copy.slot? k = none := h.receiving.seen.slot?_clear k
    rw [met, hslot]
    rfl
  refine ⟨h.leads.clear, h.receiving.clear, h.initialized, fun v u n hv hu hc => ?_, fun k ht => ?_,
    fun k _ => ?_, fun k _ => ?_⟩
  · exact h.seen v u n ((vector_clear _ _).symm.trans hv) ((vector_clear _ _).symm.trans hu) hc
  · rw [hs k] at ht
    cases ht
  · rw [hp k, hs k]
    exact .same _
  · rw [hs k]
    rfl

/-! ## An event that is passed on -/

section

variable {now : Int} {e : EntryEvent} {t : Token} {v v' : VersionVector} {w : Task}

theorem Takes.versioned (ht : p.Takes now e t v v' w) : Versioned { w.event with remote := true }
    (Rules.localTag p.advisor.member v (p.met e.key).stamp now) where
  remote := rfl
  tagged := ht.took.tagged
  entryVersion := Nat.succ_ne_zero _
  regionVersion := Nat.succ_ne_zero _
  fits := ht.fits

/-- The secondary has not seen the version that comes next. -/
theorem Trailing.unseen (h : Trailing lost p s) (hv : p.copy.vector = some v) :
    ∃ u, s.copy.vector = some u ∧ u.contains p.advisor.member (v.localVersion + 1) = false := by
  obtain ⟨u, hu⟩ := Option.isSome_iff_exists.1 h.receiving.vector
  refine ⟨u, hu, ?_⟩
  obtain ⟨howner, hcount⟩ := h.leads.own.counting v hv
  rw [Bool.eq_false_iff]
  intro hc
  have hc' := h.seen v u _ hv hu hc
  rw [← howner, hcount.next_new] at hc'
  cases hc'

/-- The secondary takes what it is sent, unless the key is lost already or forgotten. -/
theorem Trailing.answers (h : Trailing lost p s) (ht : p.Takes now e t v v' w) (later : Int) :
    ∃ r w', s.applyToEntry later { w.event with remote := true } = some (.ok (r, w')) ∧
      Answers s { w.event with remote := true }
        ⟨t, .ofTag (Rules.localTag p.advisor.member v (p.met e.key).stamp now)⟩
        (Rules.localTag p.advisor.member v (p.met e.key).stamp now) r w' ∧
      (e.key ∉ lost → (r = .ok true ↔ ¬ p.Forgets s e)) := by
  have he := ht.versioned
  have hkey : ({ w.event with remote := true } : EntryEvent).key = e.key := ht.took.sameKey
  have hop : ({ w.event with remote := true } : EntryEvent).operation ≠ .regionClear :=
    ht.took.onKey
  have heff : ∀ met, ({ w.event with remote := true } : EntryEvent).leaves? met = e.leaves? met :=
    ht.took.leaves
  generalize ({ w.event with remote := true } : EntryEvent) = e' at he hkey hop heff
  obtain ⟨u, hu, hnew⟩ := h.unseen ht.vector
  by_cases hin : e.key ∈ lost
  · have hrem : (s.met e'.key).token.isRemoved = true := by rw [hkey]; exact h.gone _ hin
    cases hst : s.rules.stale (some (Rules.localTag p.advisor.member v (p.met e.key).stamp now))
        s.copy.vector (s.met e'.key) with
    | true =>
      obtain ⟨r, w', happ, hr, hhollow⟩ := h.receiving.refuses later he hop hrem hst
      exact ⟨r, w', happ, .refuses hr hhollow, fun hout => absurd hin hout⟩
    | false =>
      obtain ⟨r, w', happ, hans⟩ := h.receiving.follows later he h.initialized
        ((heff _).trans ht.effect) hrem hst
      exact ⟨r, w', happ, hans, fun hout => absurd hin hout⟩
  · -- the two slots are abreast, and only one of the three ways is refused
    have hab := h.kept e.key hin
    have hstamped := h.stamped e.key
    have heffect := ht.effect
    have hforgets : p.Forgets s e ↔ p.met e.key = ⟨.placeholder, {}⟩ ∧
        (s.met e.key).token = .tombstone :=
      ⟨fun hf => ⟨hf.collected, hf.buried⟩,
        fun hf => ⟨EntryEvent.onKey_of_leaves? ht.effect, hf.1, hf.2⟩⟩
    have htakes := h.receiving.takes (t := t) later he h.initialized
    have hrefuses := h.receiving.refuses later he hop
    rw [hforgets]
    rw [hkey, hu, heff] at htakes
    rw [hkey] at hrefuses
    generalize p.met e.key = x, s.met e.key = y at *
    cases hab with
    | same =>
      obtain ⟨w', happ, hans⟩ := htakes heffect (Rules.stale_localTag now hnew)
      refine ⟨_, w', happ, hans, fun _ => iff_of_true rfl ?_⟩
      rintro ⟨rfl, hburied⟩
      cases hburied
    | bySecondary hx =>
      have hrem : x.token.isRemoved = true := by rw [hx]; rfl
      obtain ⟨w', happ, hans⟩ := htakes
        ((EntryEvent.leaves?_removed rfl hrem).trans heffect) (Rules.stale_unversioned rfl hnew)
      exact ⟨_, w', happ, hans, fun _ => iff_of_true rfl nofun⟩
    | byPrimary hx =>
      obtain ⟨hm, hev⟩ := hstamped hx
      obtain ⟨r, w', happ, hr, hhollow⟩ := hrefuses (by rw [hx]; rfl)
        (Rules.stale_restarted now _ h.receiving.checked hm hev)
      exact ⟨r, w', happ, .refuses hr hhollow, fun _ => iff_of_false hr fun hnot => hnot ⟨rfl, hx⟩⟩

/-- Both take the event, and its key is lost no more. -/
theorem Trailing.take (h : Trailing lost p s) (ht : p.Takes now e t v v' w) {d : EntryEvent}
    {u u' : VersionVector} {w' : Task} (hkey : d.key = e.key)
    (hreceiving : Receiving { s with copy := w'.copy }) (hu : s.copy.vector = some u)
    (hrec : u.Recorded p.advisor.member (v.localVersion + 1) u')
    (hleft : Task.Left ⟨s.copy, d, []⟩ w'
      (some ⟨t, .ofTag (Rules.localTag p.advisor.member v (p.met e.key).stamp now)⟩) (some u')) :
    Trailing (lost.filter (· != e.key)) { p with copy := w.copy } { s with copy := w'.copy } where
  leads := ht.leads h.leads
  receiving := hreceiving
  initialized := h.initialized
  seen a b n ha hb hc := by
    rw [ht.took.left.vector] at ha
    rw [hleft.vector] at hb
    cases ha
    cases hb
    rw [hrec.contains, Bool.or_eq_true] at hc
    rw [ht.recorded.contains, Bool.or_eq_true]
    exact hc.imp_left (h.seen v u n ht.vector hu)
  stamped k hk := by
    rw [met_left hleft] at hk ⊢
    split at hk
    next heq =>
      rw [if_pos heq]
      exact ⟨rfl, Nat.succ_pos _⟩
    next hne =>
      rw [if_neg hne]
      exact h.stamped k hk
  kept k hk := by
    rw [met_left ht.took.left, met_left hleft, hkey]
    split
    · exact .same _
    next hne => exact h.kept k fun hin => hk (List.mem_filter.2 ⟨hin, bne_iff_ne.2 hne⟩)
  gone k hk := by
    obtain ⟨hin, hne⟩ := List.mem_filter.1 hk
    rw [met_left hleft, hkey, if_neg (bne_iff_ne.1 hne)]
    exact h.gone k hin

/-- Only the primary takes the event, and the secondary goes on showing nothing of its key. -/
theorem Trailing.refuse (h : Trailing lost p s) (ht : p.Takes now e t v v' w) {c : RegionCopy}
    (hreceiving : Receiving { s with copy := c }) (hhollow : s.copy.Hollowed c)
    (hrem : (s.met e.key).token.isRemoved = true) :
    Trailing (e.key :: lost) { p with copy := w.copy } { s with copy := c } where
  leads := ht.leads h.leads
  receiving := hreceiving
  initialized := h.initialized
  seen a b n ha hb hc := by
    rw [ht.took.left.vector] at ha
    rw [hhollow.vector] at hb
    cases ha
    exact ht.recorded.mono (h.seen v b n ht.vector hb hc)
  stamped k hk := by
    rw [met_hollowed hhollow] at hk ⊢
    exact h.stamped k hk
  kept k hk := by
    rw [List.mem_cons, not_or] at hk
    rw [met_left ht.took.left, if_neg hk.1, met_hollowed hhollow]
    exact h.kept k hk.2
  gone k hk := by
    rw [met_hollowed hhollow]
    rcases List.mem_cons.1 hk with rfl | hin
    · exact hrem
    · exact h.gone k hin

end

theorem Trailing.get?_kept (h : Trailing lost p s) {k : Key} (hk : k ∉ lost) :
    s.get? k = p.get? k := by
  rw [get?_eq_met, get?_eq_met]
  exact (h.kept k hk).value

theorem Trailing.get?_lost (h : Trailing lost p s) {k : Key} (hk : k ∈ lost) : s.get? k = none := by
  have hrem := h.gone k hk
  rw [get?_eq_met]
  cases ht : (s.met k).token with
  | valid v =>
    rw [ht] at hrem
    cases hrem
  | _ => rfl

/-- How it goes with an event of a key that is not lost: the secondary takes what the primary took,
and shows the same of the key, just if it is not forgotten. -/
def Forwarded.Splits (r : Forwarded) (p s : Bucket) (e : EntryEvent) : Prop :=
  (r.passedOn = some (.ok true) ↔ ¬ p.Forgets s e) ∧
    (r.secondary.get? e.key = r.primary.get? e.key ↔ ¬ p.Forgets s e)

theorem Trailing.forward_taken (h : Trailing lost p s) (e : LocalEvent) (hfit : p.copy.Countable)
    {t : Token} (heff : e.event.leaves? (p.met e.event.key).token = some t) :
    ∃ r, p.forward s e = .ok r ∧ Trailing (r.lost e.event.key lost) r.primary r.secondary ∧
      (e.event.key ∉ lost → r.Splits p s e.event) := by
  obtain ⟨v, v', w, ht⟩ := h.leads.takes e.now e.isLocal e.untagged hfit heff
  obtain ⟨r, w', happ, hans, hiff⟩ := h.answers ht e.later
  have hreceiving := h.receiving.applied e.later ht.versioned happ
  have hkey : w.event.key = e.event.key := ht.took.sameKey
  refine ⟨_, ht.forward (h.receiving.held rfl) happ, ?_⟩
  cases hans with
  | takes hu hrec hleft =>
    have hnext := h.take (d := { w.event with remote := true }) ht hkey hreceiving hu hrec hleft
    refine ⟨hnext, fun hin => ?_⟩
    have hkept := (hiff hin).1 rfl
    refine ⟨iff_of_true rfl hkept, iff_of_true (hnext.get?_kept ?_) hkept⟩
    simp
  | refuses hr hhollow =>
    have hforgets : e.event.key ∉ lost → p.Forgets s e.event := fun hin =>
      Classical.byContradiction fun hkept => hr ((hiff hin).2 hkept)
    have hrem : (s.met e.event.key).token.isRemoved = true := by
      by_cases hin : e.event.key ∈ lost
      · exact h.gone _ hin
      · rw [(hforgets hin).buried]
        rfl
    have hnext := h.refuse ht hreceiving hhollow hrem
    have hnot := mapError_ne_ok hr
    rw [Forwarded.lost_of_refused hnot]
    refine ⟨hnext, fun hin => ⟨iff_of_false (fun hsome => hnot (Option.some.inj hsome))
      (not_not_intro (hforgets hin)), iff_of_false ?_ (not_not_intro (hforgets hin))⟩⟩
    -- what the primary takes of a key it has nothing of is a value
    obtain ⟨x, rfl⟩ := EntryEvent.leaves?_absent (by rw [(hforgets hin).collected]; rfl) heff
    change get? { s with copy := w'.copy } e.event.key ≠ get? { p with copy := w.copy } e.event.key
    rw [hnext.get?_lost List.mem_cons_self, get?_eq_met, met_left ht.took.left, if_pos rfl]
    nofun

/-- The buckets keep up with any event. -/
theorem Trailing.forward (h : Trailing lost p s) (e : LocalEvent) (hfit : p.copy.Countable) :
    ∃ r, p.forward s e = .ok r ∧ Trailing (r.lost e.event.key lost) r.primary r.secondary ∧
      (r.answer = .ok true → e.event.key ∉ lost → r.Splits p s e.event) := by
  by_cases hop : e.event.operation = .regionClear
  · have hp := apply_clear e.now (h.leads.held e.isLocal) hop
    have hs := apply_clear e.later
      (h.receiving.held (e := { e.event with remote := true }) rfl) hop
    have hnext := h.clear (lost.filter (· != e.event.key))
    have hkept : ¬ p.Forgets s e.event := fun hforgets => hforgets.onKey hop
    refine ⟨⟨.ok true, some (.ok true), p.clear.2, s.clear.2⟩, ?_, hnext, fun _ _ =>
      ⟨iff_of_true rfl hkept, iff_of_true (hnext.get?_kept ?_) hkept⟩⟩
    · simp only [Bucket.forward, hp, hs, bind, Except.bind, pure, Except.pure]
    · simp
  · cases heff : e.event.leaves? (p.met e.event.key).token with
    | none =>
      obtain ⟨r, c, hr, hnot, hleads, hvec, hmet⟩ := h.leads.forward_skips s e hop heff
      exact ⟨_, hr, h.primary hleads hvec fun k => .inl (hmet k), fun ht => absurd ht hnot⟩
    | some t =>
      obtain ⟨r, hr, hnext, hsplits⟩ := h.forward_taken e hfit heff
      exact ⟨r, hr, hnext, fun _ => hsplits⟩

/-- What two buckets come to when the primary passes on what it takes, and either collects its
tombstones at any moment; and the keys that are lost by then. -/
inductive Course (p₀ s₀ : Bucket) : List Key → Bucket → Bucket → Prop
  | start : Course p₀ s₀ [] p₀ s₀
  | forward {lost : List Key} {p s : Bucket} {r : Forwarded} (h : Course p₀ s₀ lost p s)
      (e : LocalEvent) (hfit : p.copy.Countable) (hr : p.forward s e = .ok r) :
      Course p₀ s₀ (r.lost e.event.key lost) r.primary r.secondary
  | expirePrimary {lost : List Key} {p s : Bucket} (h : Course p₀ s₀ lost p s) (now : Int) :
      Course p₀ s₀ lost (p.expireTombstones now).2 s
  | expireSecondary {lost : List Key} {p s : Bucket} (h : Course p₀ s₀ lost p s) (now : Int) :
      Course p₀ s₀ lost p (s.expireTombstones now).2

theorem Course.trailing {p₀ s₀ : Bucket} (h : Course p₀ s₀ lost p s) (h₀ : Trailing [] p₀ s₀) :
    Trailing lost p s := by
  induction h with
  | start => exact h₀
  | forward _ e hfit hr ih =>
    obtain ⟨r, hr', hnext, -⟩ := ih.forward e hfit
    rw [hr] at hr'
    cases hr'
    exact hnext
  | expirePrimary _ now ih => exact ih.expirePrimary now
  | expireSecondary _ now ih => exact ih.expireSecondary now

/-- Of two fresh buckets, whatever is passed on and whenever either collects its tombstones, both
give the same answer for every key that is not lost, and the secondary none for one that is. The
next event does not fail; and a key becomes lost just when its update is forgotten. -/
theorem agree_unless_forgotten (path path' : String) {a a' : Advisor}
    {attributes attributes' : RegionAttributes} (hcc : attributes.concurrencyChecks = true)
    (hcc' : attributes'.concurrencyChecks = true) (hopen : a.gateOpen = true)
    (hopen' : a'.gateOpen = true) (hhosts : a.hosting = true) (hprimary : a.isPrimary = true)
    (h : Course (.new path a attributes) (.new path' a' attributes') lost p s) :
    (∀ k, k ∉ lost → s.get? k = p.get? k) ∧ (∀ k, k ∈ lost → s.get? k = none) ∧
      ∀ e : LocalEvent, p.copy.Countable → ∃ r, p.forward s e = .ok r ∧
        (r.answer = .ok true → e.event.key ∉ lost → r.Splits p s e.event) := by
  have htrailing := h.trailing (trailing_new path path' hcc hcc' hopen hopen' hhosts hprimary)
  refine ⟨fun k hk => htrailing.get?_kept hk, fun k hk => htrailing.get?_lost hk, fun e hfit => ?_⟩
  obtain ⟨r, hr, -, hsplits⟩ := htrailing.forward e hfit
  exact ⟨r, hr, hsplits⟩

def LocalEvent.ofPut (k : Key) (v : Value) (now : Int) : LocalEvent :=
  ⟨.ofPut k v, now, now, rfl, rfl⟩

def LocalEvent.ofDestroy (k : Key) (now : Int) : LocalEvent :=
  ⟨.ofDestroy k, now, now, rfl, rfl⟩

/-- A write and a destroy of a key, and another write after them. -/
def firstWrite : LocalEvent := .ofPut "k" "v" 0
def itsDestroy : LocalEvent := .ofDestroy "k" 1
def nextWrite : LocalEvent := .ofPut "k" "w" 700000

/-- The next write passes at a secondary that has collected the tombstone, while the primary has
it. -/
theorem agree_unless_forgotten_collected :
    (hostAt 1).isPrimary = true ∧ ∃ p s,
      Course (.new "/orders" (hostAt 1) {}) (.new "/orders" (hostAt 2) {}) [] p s ∧
        (p.met "k").token = .tombstone ∧ s.copy.slot? "k" = none ∧ p.copy.Countable ∧
        ∃ r, p.forward s nextWrite = .ok r ∧ r.answer = .ok true ∧ r.passedOn = some (.ok true) ∧
          r.primary.get? "k" = some "w" ∧ r.secondary.get? "k" = r.primary.get? "k" := by
  obtain ⟨p, s, hcourse, hburied, hgone, hfit, hwritten⟩ : ∃ p s,
      Course (.new "/orders" (hostAt 1) {}) (.new "/orders" (hostAt 2) {}) [] p s ∧
        (p.met "k").token = .tombstone ∧ s.copy.slot? "k" = none ∧ p.copy.Countable ∧
        (p.forward s nextWrite).map (fun r => (r.answer, r.primary.get? "k")) =
          .ok (.ok true, some "w") := by
    have hstart : Course (.new "/orders" (hostAt 1) {}) (.new "/orders" (hostAt 2) {}) [] _ _ :=
      .start
    have hwritten := hstart.forward firstWrite (by decide) rfl
    have hdestroyed := hwritten.forward itsDestroy (by decide) rfl
    exact ⟨_, _, hdestroyed.expireSecondary 700000, rfl, rfl, by decide, rfl⟩
  have hkept : ¬ p.Forgets s nextWrite.event := by
    intro hforgets
    have hthere : (s.met "k").token = .tombstone := hforgets.buried
    rw [met, hgone] at hthere
    cases hthere
  obtain ⟨-, -, hnext⟩ := agree_unless_forgotten "/orders" "/orders" rfl rfl rfl rfl rfl rfl hcourse
  obtain ⟨r, hr, hsplits⟩ := hnext nextWrite hfit
  simp only [hr, Except.map, Except.ok.injEq, Prod.mk.injEq] at hwritten
  obtain ⟨htaken, hshown⟩ := hsplits hwritten.1 List.not_mem_nil
  exact ⟨rfl, p, s, hcourse, hburied, hgone, hfit, r, hr, hwritten.1, htaken.2 hkept, hwritten.2,
    hshown.2 hkept⟩

/-- The next write of a key is lost at a secondary that still has the tombstone, when the primary
has collected it. -/
theorem update_lost_after_collection :
    ∃ p s, Course (.new "/orders" (hostAt 1) {}) (.new "/orders" (hostAt 2) {}) ["k"] p s ∧
      p.get? "k" = some "w" ∧ s.get? "k" = none := by
  have hstart : Course (.new "/orders" (hostAt 1) {}) (.new "/orders" (hostAt 2) {}) [] _ _ :=
    .start
  have hwritten := hstart.forward firstWrite (by decide) rfl
  have hdestroyed := hwritten.forward itsDestroy (by decide) rfl
  have hcollected := hdestroyed.expirePrimary 700000
  exact ⟨_, _, hcollected.forward nextWrite (by decide) rfl, rfl, rfl⟩

end Bucket
end DataGrid
