import DataGrid.Proofs.Bucket.Cleared
import DataGrid.Proofs.Entry.Convergence
import Mathlib.Data.List.Pairwise

/-
Puts and invalidations of one key, received in any order. Each is to lose to a
tag above its own, so that the greatest tag decides in the end. But an
invalidation of a key that is invalid already has no effect at all: it leaves
no stamp, and a put with a lower tag that comes later finds nothing to stop it.

So the greatest tag decides unless it is that of an invalidation which arrives
at an invalid key (`KeyChange.Misses`). In that case the run ends as if it had not
been sent.
-/

namespace DataGrid

/-- What a put or an invalidation leaves of a key, where it has an effect. -/
def EntryEvent.change? (e : EntryEvent) : Option Token :=
  match e.operation with
  | .create | .update => e.newValue.map .valid
  | .invalidate | .localInvalidate => some (Task.invalidMark e)
  | _ => none

theorem EntryEvent.change?_cases {e : EntryEvent} {t : Token} (h : e.change? = some t) :
    ((e.operation = .create ∨ e.operation = .update) ∧
      ∃ v, e.newValue = some v ∧ t = .valid v) ∨
    ((e.operation = .invalidate ∨ e.operation = .localInvalidate) ∧ t = Task.invalidMark e) := by
  unfold change? at h
  split at h
  next hop =>
    obtain ⟨v, hv, ht⟩ := Option.map_eq_some_iff.1 h
    exact .inl ⟨.inl hop, v, hv, ht.symm⟩
  next hop =>
    obtain ⟨v, hv, ht⟩ := Option.map_eq_some_iff.1 h
    exact .inl ⟨.inr hop, v, hv, ht.symm⟩
  next hop => exact .inr ⟨.inl hop, (Option.some.inj h).symm⟩
  next hop => exact .inr ⟨.inr hop, (Option.some.inj h).symm⟩
  next => cases h

theorem Task.isInvalid_invalidMark (e : EntryEvent) : (invalidMark e).isInvalid = true := by
  unfold invalidMark
  split <;> rfl

/-- A put or an invalidation of a key as received from another member, with a valid tag. -/
structure KeyChange (k : Key) where
  event : EntryEvent
  token : Token
  tag : VersionTag
  onKey : event.key = k
  remote : event.remote = true
  tagged : event.tag = some tag
  valid : tag.isValid = true
  fits : tag.regionVersion ≤ counterMax
  asks : event.change? = some token

namespace KeyChange

variable {k : Key}

/-- An event that another member did, with its tag. -/
def received (e : EntryEvent) {token : Token} (hasks : e.change? = some token) (t : VersionTag)
    (h : t.isValid = true) (hn : t.regionVersion ≤ counterMax) : KeyChange e.key where
  event := { e with remote := true, tag := some t }
  token := token
  tag := t
  onKey := rfl
  remote := rfl
  tagged := rfl
  valid := h
  fits := hn
  asks := hasks

/-- An invalidation of what is invalid. -/
def Misses (c : KeyChange k) (s : Slot) : Prop :=
  c.token.isInvalid = true ∧ s.token.isInvalid = true

instance (c : KeyChange k) (s : Slot) : Decidable (c.Misses s) :=
  inferInstanceAs (Decidable (_ ∧ _))

/-- The tags of two changes do not rank the same. -/
def Differs (c d : KeyChange k) : Prop := c.tag.rank d.tag ≠ .eq

theorem Differs.symm {c d : KeyChange k} (h : c.Differs d) : d.Differs c :=
  fun heq => h (Std.OrientedCmp.eq_symm heq)

instance : Std.Symm (Differs (k := k)) := ⟨fun _ _ h => h.symm⟩

instance : DecidableRel (Differs (k := k)) := fun _ _ => inferInstanceAs (Decidable (_ ≠ _))

theorem Differs.rank_lt {c d : KeyChange k} (h : c.Differs d)
    (hle : (c.tag.rank d.tag).isLE = true) : c.tag.rank d.tag = .lt := by
  cases hr : c.tag.rank d.tag with
  | lt => rfl
  | eq => exact absurd hr h
  | gt =>
    rw [hr] at hle
    cases hle

/-- The slot that is left of a present key. -/
def onto (s : Slot) (c : KeyChange k) : Slot :=
  if s.stamp.judge c.tag = .apply ∧ ¬ c.Misses s then ⟨c.token, .ofTag c.tag⟩ else s

/-- A change leaves the key present. -/
theorem live (c : KeyChange k) : c.token.isRemoved = false := by
  rcases EntryEvent.change?_cases c.asks with ⟨-, v, -, ht⟩ | ⟨-, ht⟩
  · rw [ht]
    rfl
  · rw [ht]
    simpa [Token.isLive] using EntryCall.isLive_invalidMark c.event

/-- On a present key an event has no effect just if it misses. -/
theorem leaves?_eq (c : KeyChange k) {s : Slot} (hs : s.token.isRemoved = false) :
    c.event.leaves? s.token = if c.Misses s then none else some c.token := by
  rcases EntryEvent.change?_cases c.asks with ⟨hop, v, hv, ht⟩ | ⟨hop, ht⟩
  · have hmisses : ¬ c.Misses s := by
      intro h
      have hvalid := h.1
      rw [ht] at hvalid
      cases hvalid
    rw [if_neg hmisses, ht]
    rcases hop with hop | hop <;> simp [EntryEvent.leaves?, hop, hv]
  · have hinvalid := Task.isInvalid_invalidMark c.event
    rcases hop with hop | hop <;>
      simp only [EntryEvent.leaves?, hop, hs, Misses, ht, hinvalid, Bool.false_or, true_and]

theorem live_onto (c : KeyChange k) {s : Slot} (hs : s.token.isRemoved = false) :
    (onto s c).token.isRemoved = false := by
  unfold onto
  split
  · exact c.live
  · exact hs

/-! ### The greatest tag -/

theorem stamp_foldl (changes : List (KeyChange k)) (s : Slot) :
    (changes.foldl onto s).stamp = s.stamp ∨
      ∃ c ∈ changes, (changes.foldl onto s).stamp = .ofTag c.tag := by
  induction changes generalizing s with
  | nil => exact .inl rfl
  | cons c rest ih =>
    rw [List.foldl_cons]
    rcases ih (c.onto s) with hstamp | ⟨d, hd, hstamp⟩
    · rw [hstamp]
      unfold onto
      split
      · exact .inr ⟨c, List.mem_cons_self, rfl⟩
      · exact .inl rfl
    · exact .inr ⟨d, List.mem_cons_of_mem c hd, hstamp⟩

/-- What loses to a change that has taken the key leaves it. -/
theorem foldl_outranked {best : KeyChange k} {changes : List (KeyChange k)}
    (h : ∀ c ∈ changes, c.tag.rank best.tag = .lt) :
    changes.foldl onto ⟨best.token, .ofTag best.tag⟩ = ⟨best.token, .ofTag best.tag⟩ := by
  induction changes with
  | nil => rfl
  | cons c rest ih =>
    have hstale : (VersionStamp.ofTag best.tag).judge c.tag = .stale := by
      rw [VersionStamp.judge_ofTag c.valid, h c List.mem_cons_self]
    rw [List.foldl_cons, onto, if_neg (by rw [hstale]; exact fun hc => nomatch hc.1)]
    exact ih fun d hd => h d (List.mem_cons_of_mem c hd)

/-- The change with the greatest tag decides, or misses and changes nothing. -/
theorem foldl_greatest {s : Slot} {best : KeyChange k} {before after : List (KeyChange k)}
    (hbefore : ∀ c ∈ before, c.tag.rank best.tag = .lt)
    (hafter : ∀ c ∈ after, c.tag.rank best.tag = .lt) (hs : s.stamp.judge best.tag = .apply) :
    (before ++ best :: after).foldl onto s =
      if best.Misses (before.foldl onto s) then (before ++ after).foldl onto s
      else ⟨best.token, .ofTag best.tag⟩ := by
  have hjudge : (before.foldl onto s).stamp.judge best.tag = .apply := by
    rcases stamp_foldl before s with hstamp | ⟨c, hc, hstamp⟩
    · rw [hstamp, hs]
    · rw [hstamp, VersionStamp.judge_ofTag best.valid, Std.OrientedCmp.gt_of_lt (hbefore c hc)]
  rw [List.foldl_append, List.foldl_append, List.foldl_cons, onto]
  by_cases hmisses : best.Misses (before.foldl onto s)
  · rw [if_pos hmisses, if_neg fun h => h.2 hmisses]
  · rw [if_neg hmisses, if_pos ⟨hjudge, hmisses⟩]
    exact foldl_outranked hafter

theorem exists_greatest {changes : List (KeyChange k)} (hne : changes ≠ []) :
    ∃ best ∈ changes, ∀ c ∈ changes, (c.tag.rank best.tag).isLE = true := by
  have hsome : changes.map (·.tag) ≠ [] := fun h => hne (List.map_eq_nil_iff.1 h)
  obtain ⟨tag, hmem, hall⟩ := VersionTag.Greatest.exists_of_ne_nil hsome
  obtain ⟨best, hbest, rfl⟩ := List.mem_map.1 hmem
  exact ⟨best, hbest, fun c hc => hall c.tag (List.mem_map.2 ⟨c, hc, rfl⟩)⟩

end KeyChange

namespace Bucket

/-! ## One arrival -/

variable {b : Bucket} {k : Key} {s : Slot}

/-- A bucket that takes what other members send, after whatever was done to it. -/
structure Ready (b : Bucket) : Prop where
  kept : b.Kept
  checked : b.attributes.concurrencyChecks = true
  initialized : b.advisor.gateOpen = true
  passes : b.gate.passes = true

theorem Ready.receives (h : b.Ready) (c : KeyChange k) :
    Task.Receives ⟨b.copy, c.event, []⟩ b.rules c.tag where
  checked := h.checked
  attached := h.kept.attached
  vector := by
    have hsome : b.copy.vector.isSome = true := by rw [h.kept.vector, h.checked]
    obtain ⟨v, hv⟩ := Option.isSome_iff_exists.1 hsome
    exact ⟨v, hv, h.kept.known.sound v hv⟩
  remote := c.remote
  tagged := c.tagged
  valid := c.valid
  fits := c.fits

/-- A change that does not miss, and whose tag is not stale, takes the key. -/
theorem Ready.takes (h : b.Ready) (hs : b.copy.slot? k = some s) (hlive : s.token.isRemoved = false)
    (c : KeyChange k) (now : Int) (hmisses : ¬ c.Misses s)
    (hst : b.rules.stale (some c.tag) b.copy.vector s = false) :
    ∃ w, b.applyToEntry now c.event = some (.ok (.ok true, w)) ∧
      ∀ k', w.copy.slot? k' = if k' = k then some ⟨c.token, .ofTag c.tag⟩ else b.copy.slot? k' := by
  have hmet : b.met c.event.key = s := by rw [c.onKey, met, hs, Option.getD_some]
  obtain ⟨v, v', -, -, -, hver⟩ := (h.receives c).version now
  obtain ⟨w, hw, htook⟩ := applyToEntry_takes now h.checked h.initialized h.kept.attached
    (by rw [hmet, c.leaves?_eq hlive, if_neg hmisses]) (by rw [hmet, c.tagged]; exact hst) (hver _)
    c.valid
  refine ⟨w, hw, fun k' => ?_⟩
  rw [htook.left.slot]
  simp only [Task.key, c.onKey]

/-- A change that misses, or whose tag is stale, leaves everything. -/
theorem Ready.refuses (h : b.Ready) (hs : b.copy.slot? k = some s) (c : KeyChange k) (now : Int)
    (hvoid : c.Misses s ∨ b.rules.stale (some c.tag) b.copy.vector s = true) :
    ∃ r w, b.applyToEntry now c.event = some (.ok (r, w)) ∧
      ∀ k', w.copy.slot? k' = b.copy.slot? k' := by
  have hmet : b.met c.event.key = s := by rw [c.onKey, met, hs, Option.getD_some]
  rcases hvoid with ⟨hinvalid, hmissed⟩ | hst
  · have hop : c.event.operation = .invalidate ∨ c.event.operation = .localInvalidate := by
      rcases EntryEvent.change?_cases c.asks with ⟨-, v, -, ht⟩ | ⟨hop, -⟩
      · rw [ht] at hinvalid
        cases hinvalid
      · exact hop
    have hinitialized : b.rules.initialized = true := h.initialized
    have hmet' : Task.met ⟨b.copy, c.event, []⟩ = s := hmet
    obtain ⟨r, w, hw, -, hun⟩ := Task.invalidate_refused now h.kept.attached hinitialized
      (.inr (.inl (by rw [hmet', hmissed])))
    refine ⟨r, w, ?_, hun.slot⟩
    unfold applyToEntry
    rcases hop with hop | hop <;> rw [hop] <;> exact congrArg some hw
  · have hop : c.event.operation ≠ .regionClear ∧ c.event.operation ≠ .evict := by
      rcases EntryEvent.change?_cases c.asks with ⟨hop | hop, -⟩ | ⟨hop | hop, -⟩ <;>
        rw [hop] <;> decide
    obtain ⟨_, happ, r, w, rfl, -, hun⟩ := applyToEntry_refused now (h.receives c) hop.1 hop.2
      (by rw [hmet, hst])
    exact ⟨r, w, happ, hun.slot⟩

/-- A present key is up to its stamp, whatever the vector has seen. -/
theorem stale_live {rules : Rules} (hcc : rules.concurrencyChecks = true) (t : VersionTag)
    (vector : Option VersionVector) (hlive : s.token.isRemoved = false) :
    rules.stale (some t) vector s = (s.stamp.judge t != .apply) := by
  cases hm : s.stamp.member with
  | none => simp [Rules.stale, hcc, hlive, VersionStamp.isVersioned, VersionStamp.judge, hm]
  | some m => simp [Rules.stale, hcc, VersionStamp.isVersioned, hm]

/-- A change arrives, and the bucket is ready for the next. -/
theorem Ready.arrive (h : b.Ready) (hs : b.copy.slot? k = some s)
    (hlive : s.token.isRemoved = false) (c : KeyChange k) (now : Int) :
    ∃ b', b.arrive (.event now c.event) = .ok b' ∧ b'.Ready ∧
      ∀ k', b'.copy.slot? k' = if k' = k then some (c.onto s) else b.copy.slot? k' := by
  have hchecked : b.rules.concurrencyChecks = true := h.checked
  have hstale := stale_live hchecked c.tag b.copy.vector hlive
  obtain ⟨r, w, happ, hslot⟩ : ∃ r w, b.applyToEntry now c.event = some (.ok (r, w)) ∧
      ∀ k', w.copy.slot? k' = if k' = k then some (c.onto s) else b.copy.slot? k' := by
    by_cases htakes : s.stamp.judge c.tag = .apply ∧ ¬ c.Misses s
    · rw [htakes.1] at hstale
      obtain ⟨w, hw, hslot⟩ := h.takes hs hlive c now htakes.2 hstale
      refine ⟨_, w, hw, ?_⟩
      rw [KeyChange.onto, if_pos htakes]
      exact hslot
    · have hvoid : c.Misses s ∨ b.rules.stale (some c.tag) b.copy.vector s = true := by
        by_cases hmisses : c.Misses s
        · exact .inl hmisses
        · refine .inr ?_
          rw [hstale, bne_iff_ne]
          exact fun hj => htakes ⟨hj, hmisses⟩
      obtain ⟨r, w, hw, hslot⟩ := h.refuses hs c now hvoid
      refine ⟨r, w, hw, fun k' => ?_⟩
      rw [KeyChange.onto, if_neg htakes, hslot]
      split
      next hk => rw [hk, hs]
      next => rfl
  have hheld : b.held c.event = none := by simp [held, c.remote, h.passes]
  have hb := apply_of_entry now hheld happ
  have hkept : Kept { b with copy := w.copy } := h.kept.apply (fun t ht => by
    rw [c.tagged] at ht
    cases ht
    exact c.fits) hb
  refine ⟨{ b with copy := w.copy }, ?_, ⟨hkept, h.checked, h.initialized, h.passes⟩, hslot⟩
  simp only [Bucket.arrive, hb, bind, Except.bind, pure, Except.pure]

/-! ## All arrivals -/

/-- Changes of a key as they arrive, each at its time. -/
def arrivals (order : List (KeyChange k × Int)) : List Arrival :=
  order.map fun p => .event p.2 p.1.event

/-- A bucket comes to the slot that the changes leave one after the other. -/
theorem Ready.arriveAll (order : List (KeyChange k × Int)) (h : b.Ready)
    (hs : b.copy.slot? k = some s) (hlive : s.token.isRemoved = false) :
    ∃ b', b.arriveAll (arrivals order) = .ok b' ∧ b'.Ready ∧
      ∀ k', b'.copy.slot? k' =
        if k' = k then some ((order.map Prod.fst).foldl KeyChange.onto s) else b.copy.slot? k' := by
  induction order generalizing b s with
  | nil =>
    refine ⟨b, rfl, h, fun k' => ?_⟩
    split
    next hk => rw [hk, hs]; rfl
    next => rfl
  | cons p order ih =>
    obtain ⟨b₁, hb₁, h₁, hslot₁⟩ := h.arrive hs hlive p.1 p.2
    obtain ⟨b', hb', h', hslot'⟩ := ih h₁ (by rw [hslot₁, if_pos rfl]) (p.1.live_onto hlive)
    refine ⟨b', ?_, h', fun k' => ?_⟩
    · simp only [arrivals, List.map_cons, Bucket.arriveAll, List.foldlM_cons, hb₁, bind,
        Except.bind]
      exact hb'
    · rw [hslot']
      split
      · rfl
      next hk => rw [hslot₁, if_neg hk]

/-- Puts and invalidations of a present key, with tags that all differ and that its stamp lets pass,
arrive at an initialized bucket in any order. All are dealt with, other keys are left, and the
greatest tag decides the key; except that an invalidation with the greatest tag which finds the key
invalid leaves the decision to the others. -/
theorem changes_converge (h : b.Used) (hcc : b.attributes.concurrencyChecks = true)
    (hopen : b.advisor.gateOpen = true) (hpasses : b.gate.passes = true)
    (hs : b.copy.slot? k = some s) (hlive : s.token.isRemoved = false)
    {changes : List (KeyChange k)} (hne : changes ≠ [])
    (hdiffer : changes.Pairwise KeyChange.Differs)
    (hnewer : ∀ c ∈ changes, s.stamp.judge c.tag = .apply) :
    ∃ best ∈ changes, (∀ c ∈ changes, c ≠ best → c.tag.rank best.tag = .lt) ∧
      ∀ order : List (KeyChange k × Int), (order.map Prod.fst).Perm changes →
        ∃ before now after u b', order = before ++ (best, now) :: after ∧
          b.arriveAll (arrivals before) = .ok u ∧ b.arriveAll (arrivals order) = .ok b' ∧
          (∀ k', k' ≠ k → b'.copy.slot? k' = b.copy.slot? k') ∧
          (¬ best.Misses (u.met k) →
            b'.copy.slot? k = some ⟨best.token, .ofTag best.tag⟩) ∧
          (best.Misses (u.met k) → ∃ b'', b.arriveAll (arrivals (before ++ after)) = .ok b'' ∧
            b'.copy.slot? k = b''.copy.slot? k) := by
  have hready : b.Ready := ⟨h.kept, hcc, hopen, hpasses⟩
  obtain ⟨best, hbest, hgreatest⟩ := KeyChange.exists_greatest hne
  refine ⟨best, hbest, fun c hc hne => ?_, fun order hperm => ?_⟩
  · exact (hdiffer.forall hc hbest hne).rank_lt (hgreatest c hc)
  obtain ⟨p, hp, hpbest⟩ := List.mem_map.1 (hperm.mem_iff.2 hbest)
  obtain ⟨before, after, rfl⟩ := List.append_of_mem hp
  rw [List.map_append, List.map_cons, hpbest] at hperm
  -- in this order too the others rank below the greatest
  have hothers : ∀ c ∈ before.map Prod.fst ++ after.map Prod.fst,
      c.tag.rank best.tag = .lt := by
    intro c hc
    have hmiddle := (List.pairwise_middle KeyChange.Differs.symm).1
      ((hperm.pairwise_iff KeyChange.Differs.symm).2 hdiffer)
    have hmem : c ∈ changes := hperm.mem_iff.1 (by
      rw [List.mem_append, List.mem_cons]
      exact (List.mem_append.1 hc).imp_right .inr)
    exact ((List.pairwise_cons.1 hmiddle).1 c hc).symm.rank_lt (hgreatest c hmem)
  obtain ⟨u, hu, -, hslotu⟩ := hready.arriveAll before hs hlive
  obtain ⟨b', hb', -, hslot⟩ := hready.arriveAll _ hs hlive
  obtain ⟨b'', hb'', -, hslot''⟩ := hready.arriveAll (before ++ after) hs hlive
  have hmet : u.met k = (before.map Prod.fst).foldl KeyChange.onto s := by
    rw [met, hslotu, if_pos rfl, Option.getD_some]
  have hend := KeyChange.foldl_greatest (fun c hc => hothers c (List.mem_append_left _ hc))
    (fun c hc => hothers c (List.mem_append_right _ hc)) (hnewer _ hbest)
  refine ⟨before, p.2, after, u, b', by rw [← hpbest], hu, hb', fun k' hk => ?_,
    fun hmisses => ?_, fun hmisses => ⟨b'', hb'', ?_⟩⟩
  · rw [hslot, if_neg hk]
  · rw [hmet] at hmisses
    rw [hslot, if_pos rfl, List.map_append, List.map_cons, hpbest, hend, if_neg hmisses]
  · rw [hmet] at hmisses
    rw [hslot, hslot'', if_pos rfl, if_pos rfl, List.map_append, List.map_cons, hpbest, hend,
      if_pos hmisses, List.map_append]

/-- A bucket in which a key was written. -/
def written : List Arrival := [.event 0 (writeOf "a" (tagFrom 1 1 1))]

theorem used_written {b : Bucket} (h : (new "/orders" (hostAt 2) {}).arriveAll written = .ok b) :
    b.Used := by
  refine (Used.new _ _ _).arriveAll (fun x hx => ?_) h
  rw [written, List.mem_singleton] at hx
  subst hx
  intro t ht
  cases ht
  decide

/-- Later changes of the key, which the member that wrote it did in turn. -/
def invalidatedSecond : KeyChange "k" :=
  .received (.ofInvalidate "k") rfl (tagFrom 1 2 2) rfl (by decide)

def putThird : KeyChange "k" := .received (.ofPut "k" "c") rfl (tagFrom 1 3 3) rfl (by decide)

def invalidatedFourth : KeyChange "k" :=
  .received (.ofInvalidate "k") rfl (tagFrom 1 4 4) rfl (by decide)

def putFifth : KeyChange "k" := .received (.ofPut "k" "e") rfl (tagFrom 1 5 5) rfl (by decide)

/-- With a put as the last of them every order ends in its value. -/
theorem changes_converge_to_put : ∃ b, Used b ∧ b.get? "k" = some "a" ∧
    ∀ order : List (KeyChange "k" × Int),
      (order.map Prod.fst).Perm [invalidatedSecond, putThird, invalidatedFourth, putFifth] →
        ∃ b', b.arriveAll (arrivals order) = .ok b' ∧
          b'.copy.slot? "k" = some ⟨.valid "e", .ofTag (tagFrom 1 5 5)⟩ := by
  obtain ⟨b, hb, hs, hget, hcc, hopen, hpasses⟩ : ∃ b,
      (new "/orders" (hostAt 2) {}).arriveAll written = .ok b ∧
      b.copy.slot? "k" = some ⟨.valid "a", .ofTag (tagFrom 1 1 1)⟩ ∧ b.get? "k" = some "a" ∧
      b.attributes.concurrencyChecks = true ∧ b.advisor.gateOpen = true ∧ b.gate.passes = true :=
    ⟨_, rfl, rfl, rfl, rfl, rfl, rfl⟩
  have hused := used_written hb
  have hne : [invalidatedSecond, putThird, invalidatedFourth, putFifth] ≠ [] := nofun
  obtain ⟨best, hbest, hgreatest, hall⟩ :=
    changes_converge hused hcc hopen hpasses hs rfl hne (by decide) (by decide)
  have hlast : best = putFifth := Classical.byContradiction fun hother => by
    have hlt := hgreatest putFifth (by simp) (Ne.symm hother)
    simp only [List.mem_cons, List.not_mem_nil, or_false] at hbest
    rcases hbest with rfl | rfl | rfl | rfl
    · exact absurd hlt (by decide)
    · exact absurd hlt (by decide)
    · exact absurd hlt (by decide)
    · exact hother rfl
  subst hlast
  refine ⟨b, hused, hget, fun order hperm => ?_⟩
  obtain ⟨before, now, after, u, b', -, -, hb', -, hdecides, -⟩ := hall order hperm
  exact ⟨b', hb', hdecides fun hmisses => absurd hmisses.1 (by decide)⟩

/-- With an invalidation as the last of them it depends on the order whether the key has a value in
the end. -/
theorem changes_diverge : ∃ b, Used b ∧ b.attributes.concurrencyChecks = true ∧
    b.advisor.gateOpen = true ∧ b.gate.passes = true ∧
      b.copy.slot? "k" = some ⟨.valid "a", .ofTag (tagFrom 1 1 1)⟩ ∧
      [invalidatedSecond, putThird, invalidatedFourth].Pairwise KeyChange.Differs ∧
      (∀ c ∈ [invalidatedSecond, putThird, invalidatedFourth],
        (VersionStamp.ofTag (tagFrom 1 1 1)).judge c.tag = .apply) ∧
      (∃ b', b.arriveAll
          (arrivals [(invalidatedSecond, 1), (putThird, 2), (invalidatedFourth, 3)]) = .ok b' ∧
        b'.copy.slot? "k" = some ⟨.invalid, .ofTag (tagFrom 1 4 4)⟩) ∧
      ∃ b', b.arriveAll
          (arrivals [(invalidatedSecond, 1), (invalidatedFourth, 2), (putThird, 3)]) = .ok b' ∧
        b'.copy.slot? "k" = some ⟨.valid "c", .ofTag (tagFrom 1 3 3)⟩ :=
  ⟨_, used_written rfl, rfl, rfl, rfl, rfl, by decide, by decide, ⟨_, rfl, rfl⟩, _, rfl, rfl⟩

end Bucket
end DataGrid
