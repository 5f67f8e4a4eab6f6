import Mathlib.Logic.Function.Basic
import DataGrid.Entry.Collection
import DataGrid.Proofs.Entry.Queued
import DataGrid.Proofs.Entry.Reported

/-
Several regions may have calls made on one map. Each call tells its region what
it answered, and clears and collections tell nothing and count no operation. So
what each region has counted, and heard, is what its own calls answered
(`EntryMap.Served`).
-/

namespace DataGrid

namespace RegionCopy

open DataGrid.Task

/-! ## Clearing and collecting -/

variable (c : RegionCopy) (kind : EntryCall.Kind)

theorem applied_clear (upTo : Option VersionVector) :
    (c.clear upTo).2.stats.applied kind = c.stats.applied kind := by
  have hone : ∀ (c : RegionCopy) (p : Key × Entry),
      (c.clearEntry p).stats.applied kind = c.stats.applied kind := by
    intro c p
    simp only [clearEntry]
    split
    · exact applied_addTombstones _ _ kind
    · rfl
  have hgone := List.foldlRecOn (c.map.slots.filter fun _ e => isCleared upTo e).toList clearEntry
    (b := c) (motive := fun u => u.stats.applied kind = c.stats.applied kind) rfl
    fun u hu p _ => (hone u p).trans hu
  refine Eq.trans ?_ hgone
  cases kind <;> rfl

theorem applied_collectAll (records : List TombstoneRecord) :
    (c.collectAll records).2.stats.applied kind = c.stats.applied kind := by
  rw [collectAll_eq]
  refine List.foldlRecOn records collectNext (b := (0, c))
    (motive := fun p => p.2.stats.applied kind = c.stats.applied kind) rfl fun p hp r _ => ?_
  refine Eq.trans ?_ hp
  unfold collectNext collect
  split
  · split
    · refine Eq.trans ?_ (applied_addTombstones p.2.stats (-1) kind)
      cases kind <;> rfl
    · rfl
  · rfl

/-- A copy after it was cleared, or its tombstones collected. -/
inductive Tidied (c : RegionCopy) : RegionCopy → Prop
  | clear (upTo : Option VersionVector) : Tidied c (c.clear upTo).2
  | expireTombstones (now : Int) : Tidied c (c.expireTombstones now).2
  | gcTombstones (gc : VersionVector) : Tidied c (c.gcTombstones gc).2

theorem Tidied.applied {c c' : RegionCopy} (h : c.Tidied c') (kind : EntryCall.Kind) :
    c'.stats.applied kind = c.stats.applied kind := by
  cases h with
  | clear upTo => exact applied_clear c kind upTo
  | expireTombstones now => exact applied_collectAll _ kind _
  | gcTombstones gc => exact applied_collectAll _ kind _

end RegionCopy

/-! ## Several regions on one map -/

/-- What a region has counted of the calls made for it, and what it was told of them. -/
structure RegionAccount where
  stats : Stats := {}
  notices : List RegionNotice := []

/-- The copy that a region has of a map, with its own counters. -/
def RegionAccount.copy (a : RegionAccount) (m : EntryMap) (vector : Option VersionVector) :
    RegionCopy :=
  { map := m, vector := vector, stats := a.stats }

/-- A call that is made for a region. -/
def RegionAccount.task (a : RegionAccount) (m : EntryMap) (vector : Option VersionVector)
    (event : EntryEvent) : Task :=
  { copy := a.copy m vector, event := event, notices := a.notices }

namespace EntryMap

open RegionCopy (replica received)
open DataGrid.Task (arriving)

variable {ι : Type} [DecidableEq ι]

/-- Maps that calls for several regions have made of new ones, with the account of each region and
the operations and their answers. A region may find any vector at a call. -/
inductive Served : EntryMap → (ι → RegionAccount) → List (ι × EntryCall × Applied) → Prop
  | new (config : TombstoneConfig) : Served { config := config } (fun _ => {}) []
  | operate {m : EntryMap} {a : ι → RegionAccount} {log : List (ι × EntryCall × Applied)}
      (h : Served m a log) (i : ι) (op : EntryCall) (rules : Rules)
      (vector : Option VersionVector) (now : Int) (event : EntryEvent) {r : Applied} {w : Task}
      (hok : op.run rules now ((a i).task m vector event) = .ok (r, w)) :
      Served w.copy.map (Function.update a i ⟨w.copy.stats, w.notices⟩) (log ++ [(i, op, r)])
  | tidy {m : EntryMap} {a : ι → RegionAccount} {log : List (ι × EntryCall × Applied)}
      (h : Served m a log) (i : ι) (vector : Option VersionVector) {c : RegionCopy}
      (hc : ((a i).copy m vector).Tidied c) :
      Served c.map (Function.update a i ⟨c.stats, (a i).notices⟩) log
  | install {m : EntryMap} {a : ι → RegionAccount} {log : List (ι × EntryCall × Applied)}
      (h : Served m a log) (k : Key) (t : Token) (tag : Option VersionTag) :
      Served (m.install k t tag) a log

/-- The operations of a region that were applied, in order. -/
def appliedFor (i : ι) (log : List (ι × EntryCall × Applied)) : List EntryCall :=
  (log.filter fun call => call.1 = i ∧ EntryCall.isApplied call.2.2).map fun call => call.2.1

theorem appliedFor_append (i j : ι) (log : List (ι × EntryCall × Applied)) (op : EntryCall)
    (r : Applied) :
    appliedFor i (log ++ [(j, op, r)]) =
      appliedFor i log ++ if j = i then (if EntryCall.isApplied r then [op] else []) else [] := by
  rw [appliedFor, appliedFor, List.filter_append, List.map_append]
  congr 1
  by_cases hj : j = i <;> cases hr : EntryCall.isApplied r <;> simp [hj, hr]

/-- The account of a region says what its operations answered. -/
structure Balanced (a : RegionAccount) (ops : List EntryCall) : Prop where
  counts : ∀ kind, a.stats.applied kind = ops.countP (·.kind = kind) % (counterMax + 1)
  hooks : (hooksOf a.notices).filter (· ≠ .invalidateCallbacks) = ops.flatMap EntryCall.hooks

theorem balanced_new : Balanced {} [] :=
  ⟨fun kind => by cases kind <;> rfl, rfl⟩

/-- One more call is accounted for. -/
theorem Balanced.reported {op : EntryCall} {w w' : Task} {r : Applied} {ops : List EntryCall}
    (h : Balanced ⟨w.copy.stats, w.notices⟩ ops) (hr : op.Reported w r w') :
    Balanced ⟨w'.copy.stats, w'.notices⟩
      (ops ++ if EntryCall.isApplied r then [op] else []) := by
  obtain ⟨hooks, htells, htold⟩ := hr.told
  refine ⟨fun kind => ?_, ?_⟩
  · rw [hr.counts, h.counts, EntryCall.counted, List.countP_append]
    cases EntryCall.isApplied r with
    | false => simp
    | true =>
      by_cases hk : op.kind = kind <;> simp [hk, Counter.wrappingAdd]
  · rw [htold, List.filter_append, h.hooks, List.flatMap_append]
    congr 1
    cases htells with
    | applied => cases op <;> rfl
    | nothing hr' => rw [EntryCall.isApplied_eq_false hr']; rfl
    | callbacks hr' _ => rw [EntryCall.isApplied_eq_false hr']; rfl

theorem Served.balanced {m : EntryMap} {a : ι → RegionAccount}
    {log : List (ι × EntryCall × Applied)} (h : Served m a log) (i : ι) :
    Balanced (a i) (appliedFor i log) := by
  induction h with
  | new config => exact balanced_new
  | @operate m a log _ j op rules vector now event r w hok ih =>
    rw [appliedFor_append]
    by_cases hj : j = i
    · subst hj
      rw [Function.update_self, if_pos rfl]
      exact Balanced.reported (w := (a j).task m vector event) ih (op.reported hok)
    · rw [Function.update_of_ne (Ne.symm hj), if_neg hj, List.append_nil]
      exact ih
  | @tidy m a log _ j vector c hc ih =>
    by_cases hj : j = i
    · subst hj
      rw [Function.update_self]
      exact ⟨fun kind => (hc.applied kind).trans (ih.counts kind), ih.hooks⟩
    · rw [Function.update_of_ne (Ne.symm hj)]
      exact ih
  | install _ k t tag ih => exact ih

/-- Every call tells its region what its answer says: an operation that is applied calls the hooks
of its kind once each and in order, and one that is not calls none, but for the callbacks of an
invalidation that was to have them. So after any run of calls for any regions, each region has
counted the operations that were applied for it, by their kind, and been told of those and no
others, in their order. -/
theorem hooks_follow_results :
    (∀ (op : EntryCall) (rules : Rules) (now : Int) (w w' : Task) (r : Applied),
      op.run rules now w = .ok (r, w') → op.Reported w r w') ∧
    ∀ (m : EntryMap) (a : ι → RegionAccount) (log : List (ι × EntryCall × Applied)),
      Served m a log → ∀ i, Balanced (a i) (appliedFor i log) :=
  ⟨fun op _ _ _ _ _ hok => op.reported hok, fun _ _ _ h i => h.balanced i⟩

/-- Of two regions on one map the first puts a key and the second destroys it. An invalidation that
follows finds nothing to invalidate, and may ask for its callbacks only. -/
theorem hooks_follow_results_shared :
    (∃ (m : EntryMap) (a : Bool → RegionAccount) (log : List (Bool × EntryCall × Applied)),
      Served m a log ∧ log.length = 3 ∧ (a true).stats.puts = 1 ∧
        (a true).stats.invalidates = 0 ∧ (a false).stats.destroys = 1 ∧
        (hooksOf (a true).notices).filter (· ≠ .invalidateCallbacks) = [.putDone] ∧
        (hooksOf (a false).notices).filter (· ≠ .invalidateCallbacks) = [.transactionApplied]) ∧
    ∃ w', (EntryCall.invalidate false true {}).run replica 0
        (arriving .tombstone (.ofInvalidate "a")) = .ok (.error (.notFound "a"), w') ∧
      (EntryCall.invalidate false true {}).Reported (arriving .tombstone (.ofInvalidate "a"))
        (.error (.notFound "a")) w' := by
  obtain ⟨hreported, hbalanced⟩ := hooks_follow_results (ι := Bool)
  have hput := (Served.new {}).operate true (.put {} {}) replica none 0
    (received (.ofPut "a" "v") 1 1) rfl
  have hdestroy := hput.operate false (.transactionDestroy false) replica none 1
    (received (.ofDestroy "a") 2 2) rfl
  have hinvalidate := hdestroy.operate true (.invalidate false true {}) replica none 2
    (received (.ofInvalidate "a") 3 3) rfl
  obtain ⟨m, a, log, hserved, hlength, hfirst, hsecond⟩ : ∃ (m : EntryMap)
      (a : Bool → RegionAccount) (log : List (Bool × EntryCall × Applied)), Served m a log ∧
        log.length = 3 ∧ appliedFor true log = [.put {} {}] ∧
        appliedFor false log = [.transactionDestroy false] := ⟨_, _, _, hinvalidate, rfl, rfl, rfl⟩
  have htrue := hbalanced m a log hserved true
  have hfalse := hbalanced m a log hserved false
  rw [hfirst] at htrue
  rw [hsecond] at hfalse
  exact ⟨⟨m, a, log, hserved, hlength, htrue.counts .put, htrue.counts .invalidate,
    hfalse.counts .destroy, htrue.hooks, hfalse.hooks⟩, _, rfl,
    hreported (.invalidate false true {}) replica 0
      (arriving .tombstone (.ofInvalidate "a")) _ (.error (.notFound "a")) rfl⟩

end EntryMap
end DataGrid
