import DataGrid.Proofs.Entry.Edits
import DataGrid.Proofs.Entry.Refused

/-
The counters of tombstones agree with the map they speak of. Every single
change of a copy (`RegionCopy.Edits`) moves the count of tombstones by what it
changes in the map, so the count is right at every point of every call; and
where it is right, the count is above zero wherever there is a tombstone left
to take away.

A count that stops at zero could hide that too much was taken off it. So the
same is said of a copy whose count is ahead of its map (`RegionCopy.Ahead`):
what a call takes off does not depend on how much there is.
-/

namespace DataGrid

/-! ## Tombstones in a map -/

namespace EntryMap

theorem token_stampedWith (e : Entry) (tag : Option VersionTag) :
    (e.stampedWith tag).token = e.token := congrArg Slot.token (e.slot_stampedWith tag)

theorem tombstoneCount_put (m : EntryMap) (k : Key) (t : Token) (s : VersionStamp)
    (tag : Option VersionTag) :
    (m.put k t s tag).tombstoneCount + (if m.isBuried k then 1 else 0) =
      m.tombstoneCount + if t.isTombstone then 1 else 0 := by
  have hcount := m.slots.size_filter_insert (fun e => e.token.isTombstone) k
    (Entry.stampedWith { token := t, stamp := s, lastModified := m.clock + 1 } tag)
  rw [token_stampedWith] at hcount
  exact hcount

theorem tombstoneCount_detach (m : EntryMap) (k : Key) :
    (m.detach k).tombstoneCount + (if m.isBuried k then 1 else 0) = m.tombstoneCount :=
  m.slots.size_filter_erase (fun e => e.token.isTombstone) k

theorem tombstoneCount_eq_zero {m : EntryMap} (h : ∀ k, m.isBuried k = false) :
    m.tombstoneCount = 0 := by
  unfold tombstoneCount OrdMap.size OrdMap.filter
  rw [List.length_eq_zero_iff, List.filter_eq_nil_iff]
  intro p hp
  have hentry : m.entry? p.1 = some p.2 := OrdMap.mem_toList_iff.1 hp
  have hnone := h p.1
  simp only [isBuried, hentry, Option.any_some] at hnone
  exact ne_true_of_eq_false hnone

end EntryMap

namespace RegionCopy

variable {V : Option VersionVector → Option VersionVector → Prop} {c u : RegionCopy} {n d : Nat}
  {buried : Bool} {k : Key}

/-- The count of tombstones is that of the map and `d` more. -/
def Ahead (d : Nat) (c : RegionCopy) : Prop := c.stats.tombstones = c.map.tombstoneCount + d

theorem Ahead.lessBuried (h : c.Ahead d) {count : Nat}
    (hcount : count + (if c.map.isBuried k then 1 else 0) = c.map.tombstoneCount) :
    (c.lessBuried k).tombstones = count + d := by
  have hahead : c.stats.tombstones = c.map.tombstoneCount + d := h
  unfold RegionCopy.lessBuried
  split
  next hb =>
    rw [if_pos hb] at hcount
    show c.stats.tombstones - (0 + 1) = count + d
    omega
  next hb =>
    rw [if_neg hb] at hcount
    omega

theorem Ahead.moreBuried (h : c.Ahead d) {count : Nat}
    (hcount : count + (if c.map.isBuried k then 1 else 0) = c.map.tombstoneCount + 1)
    (hfits : count + d ≤ counterMax) : (c.moreBuried k).tombstones = count + d := by
  have hahead : c.stats.tombstones = c.map.tombstoneCount + d := h
  unfold RegionCopy.moreBuried
  split
  next hb =>
    rw [if_pos hb] at hcount
    omega
  next hb =>
    rw [if_neg hb] at hcount
    show (c.stats.tombstones + 1) % (counterMax + 1) = count + d
    rw [Nat.mod_eq_of_lt (by omega)]
    omega

theorem tombstoneCount_dropDetached (u : RegionCopy) (k : Key) :
    (u.dropDetached k).map.tombstoneCount = u.map.tombstoneCount := by
  unfold RegionCopy.dropDetached
  split
  next e he =>
    split
    next hd =>
      have hb : u.map.isBuried k = false := by
        rw [EntryMap.isBuried, he, Option.any_some, Token.isDetached_iff.1 hd]
        rfl
      have hcount := u.map.tombstoneCount_detach k
      simp only [hb, Bool.false_eq_true, if_false] at hcount
      exact hcount
    next => rfl
  next => rfl

/-- Every single change keeps the count ahead by as much, if it can hold the tombstone left last. -/
theorem Edits.ahead (h : c.Edits V n buried u) (hc : c.Ahead d)
    (hfits : buried = true → u.map.tombstoneCount + d ≤ counterMax) : u.Ahead d := by
  induction h with
  | refl => exact hc
  | @write n u h k t ht tag ih =>
    have hcount := u.map.tombstoneCount_put k t (((u.map.entry? k).map Entry.stamp).getD {}) tag
    rw [ht, if_neg Bool.false_ne_true, Nat.add_zero] at hcount
    exact (ih nofun).lessBuried hcount
  | @bury n u h k tag ih =>
    have hcount := u.map.tombstoneCount_put k .tombstone
      (((u.map.entry? k).map Entry.stamp).getD {}) tag
    exact (ih nofun).moreBuried hcount (hfits rfl)
  | @detach n u h k ih => exact (ih nofun).lessBuried (u.map.tombstoneCount_detach k)
  | dropDetached h k ih =>
    have hahead := ih nofun
    unfold Ahead at hahead ⊢
    rw [(dropDetached_stats _ k).1, tombstoneCount_dropDetached, hahead]
  | countGc h ih => exact ih nofun
  | vector h hv ih => exact ih hfits
  | beside h hslots _ htombstones _ ih =>
    have hsame : ∀ m m' : EntryMap, m'.slots = m.slots → m'.tombstoneCount = m.tombstoneCount :=
      fun _ _ heq => by simp only [EntryMap.tombstoneCount, heq]
    rw [hsame _ _ hslots] at hfits
    have hahead := ih hfits
    unfold Ahead at hahead ⊢
    rw [htombstones, hsame _ _ hslots, hahead]

/-- Wherever there is a tombstone to take away, there is one on the count to take off. -/
def Solvent (c : RegionCopy) : Prop := ∀ k, c.map.isBuried k = true → 0 < c.stats.tombstones

theorem Ahead.solvent (h : c.Ahead d) : c.Solvent := by
  intro k hb
  have hahead : c.stats.tombstones = c.map.tombstoneCount + d := h
  have hcount := c.map.tombstoneCount_detach k
  rw [if_pos hb] at hcount
  omega

/-! ## Runs of calls -/

/-- Calls on a new copy, one after the other, whose counters start at zero; the collections among
them collected `n` tombstones. Each operation has its own rules and finds the vector of the region
as it is then. The count of tombstones can hold as many as the copy comes to. -/
inductive Run : Nat → RegionCopy → Prop
  | new (config : TombstoneConfig) : Run 0 { map := { config := config } }
  | operate {n : Nat} {c : RegionCopy} (h : Run n c) (op : EntryCall) (rules : Rules)
      (vector : Option VersionVector) (now : Int) (event : EntryEvent) {r : Applied} {w : Task}
      (hok : op.run rules now { copy := { c with vector := vector }, event := event } = .ok (r, w))
      (hfits : w.copy.map.tombstoneCount ≤ counterMax) : Run n w.copy
  | clear {n : Nat} {c : RegionCopy} (h : Run n c) (upTo : Option VersionVector) :
      Run n (c.clear upTo).2
  | expireTombstones {n : Nat} {c : RegionCopy} (h : Run n c) (now : Int) :
      Run (n + (c.expireTombstones now).1) (c.expireTombstones now).2
  | gcTombstones {n : Nat} {c : RegionCopy} (h : Run n c) (gc : VersionVector) :
      Run (n + (c.gcTombstones gc).1) (c.gcTombstones gc).2

/-- Any way to move the vector. -/
def anyVector (_ _ : Option VersionVector) : Prop := True

theorem moves_anyVector (rules : Rules) : rules.Moves anyVector :=
  ⟨fun _ _ _ _ _ _ => trivial, fun _ _ _ _ => trivial⟩

/-- The counters after a run: that of the collections is their sum, as far as it can count. -/
structure Accounted (n : Nat) (c : RegionCopy) : Prop where
  tombstones : c.stats.tombstones = c.map.tombstoneCount
  tombstoneGcs : c.stats.tombstoneGcs = n % (counterMax + 1)

theorem Accounted.edits {i : Nat} (h : Accounted n c) (he : c.Edits V i buried u)
    (hfits : buried = true → u.map.tombstoneCount ≤ counterMax) : Accounted (n + i) u where
  tombstones := he.ahead (d := 0) h.tombstones hfits
  tombstoneGcs := by
    have hle : c.stats.tombstoneGcs ≤ counterMax := by
      rw [h.tombstoneGcs]
      exact Nat.le_of_lt_succ (Nat.mod_lt _ (Nat.succ_pos _))
    rw [he.tombstoneGcs hle, h.tombstoneGcs, Counter.wrappingAdd, Nat.mod_add_mod]

theorem Run.accounted (h : Run n c) : Accounted n c := by
  induction h with
  | new config => exact ⟨rfl, rfl⟩
  | @operate n c _ op rules vector now event r w hok hfits ih =>
    obtain ⟨buried, he⟩ := op.edits (moves_anyVector rules) hok
    have hfound : Accounted n { c with vector := vector } := ⟨ih.tombstones, ih.tombstoneGcs⟩
    exact hfound.edits he fun _ => hfits
  | clear _ upTo ih => exact ih.edits (V := anyVector) (edits_clear _ upTo) nofun
  | expireTombstones _ now ih =>
    exact ih.edits (V := anyVector) (edits_expireTombstones _ now) nofun
  | gcTombstones _ gc ih => exact ih.edits (V := anyVector) (edits_gcTombstones _ gc) nofun

theorem Step.edits {c' : RegionCopy} (h : c.Step c') :
    ∃ i buried, c.Edits anyVector i buried c' := by
  cases h with
  | operate op rules now event hok =>
    obtain ⟨buried, he⟩ := op.edits (moves_anyVector rules) hok
    exact ⟨0, buried, he⟩
  | clear upTo => exact ⟨0, false, edits_clear c upTo⟩
  | expireTombstones now => exact ⟨_, false, edits_expireTombstones c now⟩
  | gcTombstones gc => exact ⟨_, false, edits_gcTombstones c gc⟩

/-- The copy with that much more on its count of tombstones. -/
def raised (c : RegionCopy) (d : Nat) : RegionCopy :=
  { c with stats := { c.stats with tombstones := c.stats.tombstones + d } }

/-- After any run the count of tombstones is the number of tombstones there are, and the count of
collections the sum of what the collections answered.

The next call, whatever vector it finds, never takes off the count more than it holds. It comes to
single changes, and at every point on their way the count is above zero where there is a tombstone to
take away; and it leaves a count that was higher before as much higher, so that it was never stopped
at zero. -/
theorem tombstones_accounted (h : Run n c) :
    c.stats.tombstones = c.map.tombstoneCount ∧ c.stats.tombstoneGcs = n % (counterMax + 1) ∧
      ∀ vector,
        (∀ c', Step { c with vector := vector } c' →
          ∃ i buried, Edits anyVector { c with vector := vector } i buried c') ∧
        (∀ i u, Edits anyVector { c with vector := vector } i false u → u.Solvent) ∧
        ∀ d c', Step (raised { c with vector := vector } d) c' →
          c'.map.tombstoneCount + d ≤ counterMax →
            c'.stats.tombstones = c'.map.tombstoneCount + d := by
  have haccounted := h.accounted
  refine ⟨haccounted.tombstones, haccounted.tombstoneGcs, fun vector => ⟨fun c' hstep => ?_,
    fun i u he => ?_, fun d c' hstep hfits => ?_⟩⟩
  · exact hstep.edits
  · have hahead : u.Ahead 0 := he.ahead haccounted.tombstones nofun
    exact hahead.solvent
  · obtain ⟨i, buried, he⟩ := hstep.edits
    have hraised : (raised { c with vector := vector } d).Ahead d :=
      congrArg (· + d) haccounted.tombstones
    exact he.ahead hraised fun _ => hfits

/-- A region that keeps versions, and takes those of its events as they come. -/
def replica : Rules := { concurrencyChecks := true, assignTag := Rules.noTag }

def sender : Member := { address := .localhost, port := 1 }

/-- An event as it is received, with its version of the entry and of the region. -/
def received (e : EntryEvent) (entryVersion regionVersion : Nat) : EntryEvent :=
  let tag : VersionTag :=
    { member := sender, entryVersion := entryVersion, regionVersion := regionVersion, timestamp := 0 }
  { e with remote := true, tag := some tag }

/-- What was destroyed up to a version of the sender may be collected. -/
def collectableUpTo (version : Nat) : VersionVector :=
  ({ owner := { address := .localhost, port := 2 } : VersionVector }).recordGc sender version

/-- Two keys are destroyed and one of them written again and destroyed again, so that its tombstone
outlasts a collection of the first two versions. -/
theorem tombstones_accounted_rewritten : ∃ n c, Run n c ∧ n = 1 ∧ c.stats.tombstones = 1 ∧
    c.stats.tombstoneGcs = 1 ∧ c.map.isBuried "a" = true ∧ c.map.isBuried "b" = false := by
  have hfirst := (Run.new {}).operate (.destroy {} {}) replica none 0
    (received (.ofDestroy "a") 1 1) rfl (by decide)
  have hboth := hfirst.operate (.destroy {} {}) replica none 1
    (received (.ofDestroy "b") 1 2) rfl (by decide)
  have hput := hboth.operate (.put {} {}) replica none 2
    (received (.ofPut "a" "v") 2 3) rfl (by decide)
  have hagain := hput.operate (.destroy {} {}) replica none 3
    (received (.ofDestroy "a") 3 4) rfl (by decide)
  have hcollected := hagain.gcTombstones (collectableUpTo 2)
  obtain ⟨htombstones, hgcs, -⟩ := tombstones_accounted hcollected
  exact ⟨_, _, hcollected, rfl, htombstones.trans rfl, hgcs.trans rfl, rfl, rfl⟩

end RegionCopy
end DataGrid
