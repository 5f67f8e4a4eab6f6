import DataGrid.Entry.Collection
import DataGrid.Proofs.Entry.Outcome

/-
The single changes of which everything is made that is done to a copy: a token
written, an entry taken out, the vector moved, and what touches neither entries
nor the count of tombstones (`RegionCopy.Edits`). Operations, clears and
collections all come to such changes, with one rule of order: an operation that
leaves a tombstone does so last.

A single change of an entry has its count of tombstones with it, one less where
a tombstone goes and one more where the first one comes. The operations count
in places of their own, each by the entry that it opened; that these come to
the same is what each branch of an operation has to show here, and it does so
because the entry in hand is still the one that the map has (`Opened.InHand`).

What every single change keeps therefore holds of all calls, and at every point
on their way. Nothing is assumed of the copy or of the region it belongs to.
-/

namespace DataGrid

open DataGrid.Task

namespace EntryMap

/-- The key holds a tombstone. -/
def isBuried (m : EntryMap) (k : Key) : Bool := (m.entry? k).any fun e => e.token.isTombstone

theorem isBuried_eq {m : EntryMap} {k : Key} {e : Entry} (h : m.entry? k = some e) :
    m.isBuried k = e.token.isTombstone := by
  rw [isBuried, h, Option.any_some]

end EntryMap

namespace RegionCopy

variable {V : Option VersionVector → Option VersionVector → Prop} {c u : RegionCopy} {n : Nat}
  {buried : Bool} {k : Key}

/-- The counters once a key does not hold the tombstone any more that it may have held. -/
def lessBuried (c : RegionCopy) (k : Key) : Stats :=
  if c.map.isBuried k then c.stats.addTombstones (-1) else c.stats

/-- The counters once a key holds a tombstone. -/
def moreBuried (c : RegionCopy) (k : Key) : Stats :=
  if c.map.isBuried k then c.stats else c.stats.addTombstones 1

/-- What `c` can have become on the way of a call, `n` collected tombstones later. Once a tombstone
was left no token changes any more. The vector moves as `V` says. -/
inductive Edits (V : Option VersionVector → Option VersionVector → Prop) (c : RegionCopy) :
    Nat → Bool → RegionCopy → Prop
  | refl : Edits V c 0 false c
  | write {n : Nat} {u : RegionCopy} (h : Edits V c n false u) (k : Key) {t : Token}
      (ht : t.isTombstone = false) (tag : Option VersionTag) :
      Edits V c n false { u.write k t tag with stats := u.lessBuried k }
  | bury {n : Nat} {u : RegionCopy} (h : Edits V c n false u) (k : Key) (tag : Option VersionTag) :
      Edits V c n true { u.write k .tombstone tag with stats := u.moreBuried k }
  | detach {n : Nat} {u : RegionCopy} (h : Edits V c n false u) (k : Key) :
      Edits V c n false { u.detach k with stats := u.lessBuried k }
  | dropDetached {n : Nat} {u : RegionCopy} (h : Edits V c n false u) (k : Key) :
      Edits V c n false (u.dropDetached k)
  | countGc {n : Nat} {u : RegionCopy} (h : Edits V c n false u) :
      Edits V c (n + 1) false { u with stats := u.stats.countTombstoneGc }
  | vector {n : Nat} {buried : Bool} {u : RegionCopy} (h : Edits V c n buried u)
      {v : Option VersionVector} (hv : V u.vector v) : Edits V c n buried { u with vector := v }
  | beside {n : Nat} {buried : Bool} {u u' : RegionCopy} (h : Edits V c n buried u)
      (hslots : u'.map.slots = u.map.slots) (hvector : u'.vector = u.vector)
      (htombstones : u'.stats.tombstones = u.stats.tombstones)
      (hgcs : u'.stats.tombstoneGcs = u.stats.tombstoneGcs) : Edits V c n buried u'

/-! ## Counting by the entry in hand -/

theorem lessBuried_eq {e : Entry} (h : u.map.entry? k = some e) :
    u.lessBuried k = if e.token.isTombstone then u.stats.addTombstones (-1) else u.stats := by
  rw [lessBuried, EntryMap.isBuried_eq h]

theorem moreBuried_eq {e : Entry} (h : u.map.entry? k = some e) :
    u.moreBuried k = if e.token.isTombstone then u.stats else u.stats.addTombstones 1 := by
  rw [moreBuried, EntryMap.isBuried_eq h]

theorem lessBuried_of_not (h : u.map.isBuried k = false) : u.lessBuried k = u.stats := by
  rw [lessBuried, h, if_neg Bool.false_ne_true]

/-- Nothing is counted where there was no tombstone to replace. -/
theorem Edits.writeOver (h : c.Edits V n false u) {t : Token} (ht : t.isTombstone = false)
    (tag : Option VersionTag) (hold : u.map.isBuried k = false) :
    c.Edits V n false (u.write k t tag) := by
  have hwritten := h.write k ht tag
  rwa [lessBuried_of_not hold] at hwritten

theorem Edits.detachOver (h : c.Edits V n false u) (hold : u.map.isBuried k = false) :
    c.Edits V n false (u.detach k) := by
  have hdetached := h.detach k
  rwa [lessBuried_of_not hold] at hdetached

/-! ## Clearing and collecting -/

theorem Edits.clearEntry (h : c.Edits V n false u) {p : Key × Entry}
    (hp : u.map.entry? p.1 = some p.2) : c.Edits V n false (u.clearEntry p) := by
  have hdetached := h.detach p.1
  rwa [lessBuried_eq hp] at hdetached

/-- Entries of different keys are each still there when it is their turn. -/
theorem Edits.foldl_clearEntry (h : c.Edits V n false u) {gone : List (Key × Entry)}
    (hdistinct : (gone.map (·.1)).Nodup) (hthere : ∀ p ∈ gone, u.map.entry? p.1 = some p.2) :
    c.Edits V n false (gone.foldl RegionCopy.clearEntry u) := by
  induction gone generalizing u with
  | nil => exact h
  | cons p gone ih =>
    rw [List.map_cons, List.nodup_cons] at hdistinct
    refine ih (h.clearEntry (hthere p List.mem_cons_self)) hdistinct.2 fun q hq => ?_
    have hother : q.1 ≠ p.1 := by
      intro heq
      exact hdistinct.1 (heq ▸ List.mem_map_of_mem hq)
    have hleft : (u.clearEntry p).map.entry? q.1 = if q.1 = p.1 then none else u.map.entry? q.1 :=
      u.map.entry?_detach p.1 q.1
    rw [hleft, if_neg hother]
    exact hthere q (List.mem_cons_of_mem _ hq)

theorem edits_clear (c : RegionCopy) (upTo : Option VersionVector) :
    c.Edits V 0 false (c.clear upTo).2 := by
  have hgone := (Edits.refl (V := V) (c := c)).foldl_clearEntry
    (c.map.slots.filter fun _ e => isCleared upTo e).nodup_keys
    fun p hp => OrdMap.mem_toList_iff.1 (List.mem_filter.1 hp).1
  exact hgone.beside rfl rfl rfl rfl

theorem Edits.collect {u' : RegionCopy} (h : c.Edits V n false u) {r : TombstoneRecord}
    (hr : u.collect r = some u') : c.Edits V (n + 1) false u' := by
  unfold RegionCopy.collect at hr
  split at hr
  next e he =>
    split at hr
    next hc =>
      rw [Bool.and_eq_true] at hc
      have hdetached := h.detach r.key
      rw [lessBuried_eq he, if_pos hc.1] at hdetached
      cases hr
      exact hdetached.countGc
    next => cases hr
  next => cases hr

theorem Edits.collectAll (h : c.Edits V n false u) (records : List TombstoneRecord) :
    c.Edits V (n + (u.collectAll records).1) false (u.collectAll records).2 := by
  refine List.foldlRecOn records _
    (motive := fun p : Nat × RegionCopy => c.Edits V (n + p.1) false p.2) h fun p hp r _ => ?_
  obtain ⟨i, u₁⟩ := p
  dsimp only at hp ⊢
  split
  next u₂ hr => exact hp.collect hr
  next => exact hp

theorem edits_expireTombstones (c : RegionCopy) (now : Int) :
    c.Edits V (c.expireTombstones now).1 false (c.expireTombstones now).2 := by
  have hqueued : c.Edits V 0 false { c with map := { c.map with queue :=
      (takeExpired now c.map.config.timeoutMs c.map.config.batchLimit c.map.queue).2 } } :=
    Edits.refl.beside rfl rfl rfl rfl
  have hcollected := hqueued.collectAll
    (takeExpired now c.map.config.timeoutMs c.map.config.batchLimit c.map.queue).1
  rwa [Nat.zero_add] at hcollected

theorem edits_gcTombstones (c : RegionCopy) (gc : VersionVector) :
    c.Edits V (c.gcTombstones gc).1 false (c.gcTombstones gc).2 := by
  have hqueued : c.Edits V 0 false { c with map := { c.map with queue :=
      (c.map.queue.partition (·.isCollectable gc)).2 } } := Edits.refl.beside rfl rfl rfl rfl
  have hcollected := hqueued.collectAll (c.map.queue.partition (·.isCollectable gc)).1
  rwa [Nat.zero_add] at hcollected

/-! ## What single changes keep -/

theorem Edits.related (h : c.Edits V n buried u) (hrefl : ∀ v, V v v)
    (htrans : ∀ v₁ v₂ v₃, V v₁ v₂ → V v₂ v₃ → V v₁ v₃) : V c.vector u.vector := by
  induction h with
  | refl => exact hrefl _
  | write _ _ _ _ ih => exact ih
  | bury _ _ _ ih => exact ih
  | detach _ _ ih => exact ih
  | dropDetached _ k ih => rwa [vector_dropDetached]
  | countGc _ ih => exact ih
  | vector _ hv ih => exact htrans _ _ _ ih hv
  | beside _ _ hvector _ _ ih => rwa [hvector]

theorem dropDetached_stats (u : RegionCopy) (k : Key) :
    (u.dropDetached k).stats.tombstones = u.stats.tombstones ∧
      (u.dropDetached k).stats.tombstoneGcs = u.stats.tombstoneGcs := by
  unfold RegionCopy.dropDetached
  split
  · split <;> exact ⟨rfl, rfl⟩
  · exact ⟨rfl, rfl⟩

theorem lessBuried_tombstoneGcs (u : RegionCopy) (k : Key) :
    (u.lessBuried k).tombstoneGcs = u.stats.tombstoneGcs := by
  unfold lessBuried
  split
  · rw [Stats.addTombstones_eq]
  · rfl

theorem moreBuried_tombstoneGcs (u : RegionCopy) (k : Key) :
    (u.moreBuried k).tombstoneGcs = u.stats.tombstoneGcs := by
  unfold moreBuried
  split
  · rfl
  · rw [Stats.addTombstones_eq]

/-- Collections, and nothing else, move their counter. -/
theorem Edits.tombstoneGcs (h : c.Edits V n buried u)
    (hc : c.stats.tombstoneGcs ≤ counterMax) :
    u.stats.tombstoneGcs = Counter.wrappingAdd c.stats.tombstoneGcs n := by
  induction h with
  | refl => exact (Counter.wrappingAdd_zero hc).symm
  | write _ k _ _ ih => exact (lessBuried_tombstoneGcs _ k).trans ih
  | bury _ k _ ih => exact (moreBuried_tombstoneGcs _ k).trans ih
  | detach _ k ih => exact (lessBuried_tombstoneGcs _ k).trans ih
  | dropDetached _ k ih => exact (dropDetached_stats _ k).2.trans ih
  | countGc _ ih => rw [Stats.countTombstoneGc, ih, Counter.wrappingAdd_wrappingAdd]
  | vector _ _ ih => exact ih
  | beside _ _ _ _ hgcs ih => rw [hgcs, ih]

end RegionCopy

/-! ## Operations -/

/-- However operations move the vector, they do it as `V` says. -/
structure Rules.Moves (rules : Rules) (V : Option VersionVector → Option VersionVector → Prop) :
    Prop where
  assigned : ∀ vector stamp now tag vector',
    rules.assignTag vector stamp now = .ok (tag, vector') → V vector vector'
  recorded : ∀ tag vector vector', recorded tag vector = .ok vector' → V vector vector'

namespace Task

variable {V : Option VersionVector → Option VersionVector → Prop} {c : RegionCopy} {n : Nat}
  {buried : Bool} {rules : Rules} {now : Int} {w w' : Task} {o : Opened} {r : Applied}

theorem isTombstone_of_live {t : Token} (h : t.isRemoved = false) : t.isTombstone = false := by
  cases t <;> first | rfl | cases h

theorem countReplaced_live {old : Token} (h : old.isTombstone = false) (w : Task) :
    w.countReplaced old = w := by
  rw [countReplaced, h]
  rfl

/-! ### The entry in hand -/

/-- The entry in hand is the one that the map has for the key, and a placeholder if it was made. -/
structure Opened.InHand (o : Opened) (w : Task) : Prop where
  entry : w.entry? = some o.entry
  made : o.created = true → o.entry.token = .placeholder

theorem Opened.InHand.frame (h : o.InHand w) (hmap : w'.copy.map = w.copy.map)
    (hkey : w'.key = w.key) : o.InHand w' := by
  refine ⟨?_, h.made⟩
  rw [Task.entry?, hmap, hkey]
  exact h.entry

/-- An entry that was there was not made. -/
theorem Opened.inHand_found {e : Entry} (h : w.entry? = some e) : Opened.InHand ⟨e, false⟩ w :=
  ⟨h, fun hmade => absurd hmade Bool.false_ne_true⟩

theorem inHand_openOrCreate (w : Task) : w.openOrCreate.1.InHand w.openOrCreate.2 := by
  simp only [Task.openOrCreate]
  split
  next e he => exact Opened.inHand_found he
  next hnone =>
    refine ⟨?_, fun _ => rfl⟩
    simp only [Task.entry?, mapCopy, RegionCopy.write, EntryMap.write, EntryMap.put,
      EntryMap.entry?] at hnone ⊢
    rw [hnone]
    exact OrdMap.find?_insert_self _ _ _

theorem inHand_open {create : Bool} (h : w.open_ create = (some o, w')) : o.InHand w' := by
  unfold Task.open_ at h
  split at h
  · have hhand := inHand_openOrCreate w
    generalize w.openOrCreate = p at h hhand
    cases h
    exact hhand
  · simp only [Task.openExisting, Prod.mk.injEq, Option.map_eq_some_iff] at h
    obtain ⟨⟨e, he, rfl⟩, rfl⟩ := h
    exact Opened.inHand_found he

theorem assignVersion_keeps {e : Entry} (hok : w.assignVersion rules now e = .ok w') :
    w'.key = w.key ∧ w'.copy.map = w.copy.map ∧ w'.copy.stats = w.copy.stats := by
  unfold Task.assignVersion at hok
  split at hok
  · obtain ⟨p, -, hok⟩ := bind_ok hok
    cases hok
    exact ⟨rfl, rfl, rfl⟩
  · cases hok
    exact ⟨rfl, rfl, rfl⟩

/-! ### Steps of an operation -/

theorem edits_mapStats (h : c.Edits V n buried w.copy) (f : Stats → Stats)
    (htombstones : (f w.copy.stats).tombstones = w.copy.stats.tombstones)
    (hgcs : (f w.copy.stats).tombstoneGcs = w.copy.stats.tombstoneGcs) :
    c.Edits V n buried (w.mapStats f).copy := h.beside rfl rfl htombstones hgcs

theorem edits_refuse (h : c.Edits V n false w.copy) (hhand : o.InHand w) :
    c.Edits V n false (w.refuse o).2.copy := by
  unfold Task.refuse
  split
  next hcreated =>
    refine h.detachOver ?_
    rw [EntryMap.isBuried_eq hhand.entry, hhand.made hcreated]
    rfl
  next => exact h

theorem edits_refuseStale (h : c.Edits V n false w.copy) (hhand : o.InHand w) :
    c.Edits V n false (w.refuseStale o).2.copy :=
  edits_refuse (edits_mapStats h Stats.countConflict rfl rfl) (hhand.frame rfl rfl)

theorem edits_openOrCreate (h : c.Edits V n false w.copy) :
    c.Edits V n false w.openOrCreate.2.copy := by
  have hdropped : c.Edits V n false (w.mapCopy (·.dropDetached w.key)).copy :=
    h.dropDetached w.key
  simp only [Task.openOrCreate]
  split
  next => exact hdropped
  next hnone =>
    refine hdropped.writeOver rfl none ?_
    have hnone : (w.copy.dropDetached w.key).map.entry? w.key = none := hnone
    rw [EntryMap.isBuried]
    exact congrArg _ hnone

theorem edits_open (h : c.Edits V n false w.copy) {create : Bool} {found : Option Opened}
    (hopen : w.open_ create = (found, w')) : c.Edits V n false w'.copy := by
  have hw' : (w.open_ create).2 = w' := congrArg Prod.snd hopen
  rw [← hw']
  unfold Task.open_
  split
  · exact edits_openOrCreate h
  · exact h.dropDetached w.key

theorem isTombstone_invalidMark (e : EntryEvent) : (invalidMark e).isTombstone = false := by
  unfold invalidMark
  split <;> rfl

theorem edits_finishDestroy (h : c.Edits V n buried w.copy) (config : OperationConfig)
    (options : DestroyOptions) : c.Edits V n buried (w.finishDestroy config options).2.copy :=
  h.beside rfl rfl rfl rfl

theorem edits_tellInvalidateCallbacks (h : c.Edits V n buried w.copy) (config : OperationConfig)
    (wanted : Bool) : c.Edits V n buried (w.tellInvalidateCallbacks config wanted).copy := by
  rw [copy_tellInvalidateCallbacks]
  exact h

theorem edits_missing (h : c.Edits V n buried w.copy) (rules : Rules) :
    c.Edits V n buried (w.missing rules).2.copy := by
  rw [missing_eq]
  exact h

/-- An answer that was there without a version. -/
theorem edits_of_answer {p : Applied × Task} (h : c.Edits V n buried p.2.copy)
    (hok : (.ok p : Checked (Applied × Task)) = .ok (r, w')) :
    ∃ buried, c.Edits V n buried w'.copy := by
  cases hok
  exact ⟨buried, h⟩

section

variable (hV : rules.Moves V)

include hV

theorem edits_assignVersion (h : c.Edits V n buried w.copy) {e : Entry}
    (hok : w.assignVersion rules now e = .ok w') : c.Edits V n buried w'.copy := by
  unfold Task.assignVersion at hok
  split at hok
  · obtain ⟨⟨tag, vector⟩, hassign, hok⟩ := bind_ok hok
    cases hok
    exact h.vector (hV.assigned _ _ _ _ _ hassign)
  · cases hok
    exact h

theorem edits_recordVersion (h : c.Edits V n buried w.copy) (hok : w.recordVersion = .ok w') :
    c.Edits V n buried w'.copy := by
  obtain ⟨vector, hrec, rfl⟩ := recordVersion_ok hok
  exact h.vector (hV.recorded _ _ _ hrec)

omit hV in
theorem edits_write (h : c.Edits V n false w.copy) {e : Entry} (he : w.entry? = some e) {t : Token}
    (ht : t.isTombstone = false) :
    c.Edits V n false ((w.write t).countReplaced e.token).copy := by
  have hwritten := h.write w.key ht w.event.tag
  rwa [RegionCopy.lessBuried_eq he] at hwritten

/-- The version is recorded before the count is lowered, and neither minds the other. -/
theorem edits_commit (h : c.Edits V n false w.copy) {e : Entry} (he : w.entry? = some e) {t : Token}
    (ht : t.isTombstone = false) (hok : (w.write t).recordVersion = .ok w') :
    c.Edits V n false (w'.countReplaced e.token).copy := by
  obtain ⟨vector, hrec, rfl⟩ := recordVersion_ok hok
  exact (edits_write h he ht).vector (hV.recorded _ _ _ hrec)

theorem edits_commitPut (h : c.Edits V n false w.copy) {e : Entry} (he : w.entry? = some e)
    {v : Value} (hok : w.commitPut e v = .ok w') :
    c.Edits V n false (w'.countReplaced e.token).copy := by
  refine edits_commit (t := .valid v) hV ?_ ?_ rfl hok
  · exact h
  · exact he

theorem edits_commitInvalidate (h : c.Edits V n false w.copy) {e : Entry}
    (he : w.entry? = some e) (hok : w.commitInvalidate e = .ok w') :
    c.Edits V n false (w'.countReplaced e.token).copy := by
  refine edits_commit hV ?_ ?_ (isTombstone_invalidMark w.event) hok
  · exact h
  · exact he

theorem edits_bury (h : c.Edits V n false w.copy) {e : Entry} (he : w.entry? = some e)
    (hok : w.bury now e.token = .ok w') : c.Edits V n true w'.copy := by
  obtain ⟨w₁, hrecord, hok⟩ := bind_ok hok
  obtain ⟨vector, hrec, rfl⟩ := recordVersion_ok hrecord
  have hburied := (h.bury w.key w.event.tag).vector (hV.recorded _ _ _ hrec)
  rw [RegionCopy.moreBuried_eq he] at hburied
  cases hok
  exact hburied.beside rfl rfl rfl rfl

/-- Token mode and the detaching of an entry count nothing, as the entry holds no tombstone. -/
theorem edits_commitDestroy (h : c.Edits V n false w.copy) {inTokenMode buries : Bool} {e : Entry}
    (he : w.entry? = some e) (hlive : e.token.isTombstone = false)
    (hok : w.commitDestroy inTokenMode buries now e = .ok w') :
    ∃ buried, c.Edits V n buried w'.copy := by
  have hold : w.copy.map.isBuried w.key = false :=
    (EntryMap.isBuried_eq he).trans hlive
  unfold Task.commitDestroy at hok
  split at hok
  · cases hok
    exact ⟨false, h.writeOver rfl _ hold⟩
  split at hok
  · exact ⟨true, edits_bury hV h he hok⟩
  · exact ⟨false, edits_recordVersion hV (h.detachOver hold) hok⟩

/-! ### Put -/

theorem edits_put {options : PutOptions} {config : OperationConfig}
    (hok : w.put rules now options config = .ok (r, w')) :
    ∃ buried, w.copy.Edits V 0 buried w'.copy := by
  unfold Task.put at hok
  split at hok
  · exact edits_of_answer .refl hok
  have hopened := edits_openOrCreate (V := V) (w := w) .refl
  have hhand := inHand_openOrCreate w
  generalize w.openOrCreate = p at hok hopened hhand
  obtain ⟨o, w₁⟩ := p
  dsimp only at hok hopened hhand
  split at hok
  · exact edits_of_answer (edits_refuse hopened hhand) hok
  split at hok
  · exact edits_of_answer (edits_refuseStale hopened hhand) hok
  · obtain ⟨w₂, hassign, hok⟩ := bind_ok hok
    obtain ⟨w₃, hcommit, hok⟩ := bind_ok hok
    obtain ⟨hkey, hmap, -⟩ := assignVersion_keeps hassign
    have hcommitted := edits_commitPut hV (edits_assignVersion hV hopened hassign)
      (hhand.frame hmap hkey).entry hcommit
    exact edits_of_answer (hcommitted.beside rfl rfl rfl rfl) hok

theorem edits_transactionPut (hok : w.transactionPut rules = .ok (r, w')) :
    ∃ buried, w.copy.Edits V 0 buried w'.copy := by
  unfold Task.transactionPut at hok
  split at hok
  · exact edits_of_answer .refl hok
  have hopened := edits_openOrCreate (V := V) (w := w) .refl
  have hhand := inHand_openOrCreate w
  generalize w.openOrCreate = p at hok hopened hhand
  obtain ⟨o, w₁⟩ := p
  dsimp only at hok hopened hhand
  split at hok
  · exact edits_of_answer (edits_refuseStale hopened hhand) hok
  · obtain ⟨w₂, hcommit, hok⟩ := bind_ok hok
    have hcommitted := edits_commitPut hV hopened hhand.entry hcommit
    exact edits_of_answer (hcommitted.beside rfl rfl rfl rfl) hok

/-! ### Invalidate -/

theorem edits_invalidate {forceNewEntry forceCallbacks : Bool} {config : OperationConfig}
    (hok : w.invalidate rules now forceNewEntry forceCallbacks config = .ok (r, w')) :
    ∃ buried, w.copy.Edits V 0 buried w'.copy := by
  unfold Task.invalidate at hok
  dsimp only at hok
  split at hok
  next w₁ hopen =>
    have hopened := edits_tellInvalidateCallbacks (edits_open (V := V) .refl hopen)
    exact edits_of_answer (edits_missing (hopened _ _) rules) hok
  next o w₁ hopen =>
    have hopened := edits_open (V := V) .refl hopen
    have hhand := inHand_open hopen
    split at hok
    · exact edits_of_answer (edits_tellInvalidateCallbacks hopened _ _) hok
    split at hok
    · exact edits_of_answer (edits_missing (edits_tellInvalidateCallbacks hopened _ _) rules) hok
    split at hok
    · exact edits_of_answer (edits_refuseStale hopened hhand) hok
    · obtain ⟨w₂, hassign, hok⟩ := bind_ok hok
      obtain ⟨w₃, hcommit, hok⟩ := bind_ok hok
      obtain ⟨hkey, hmap, -⟩ := assignVersion_keeps hassign
      have hcommitted := edits_commitInvalidate hV (edits_assignVersion hV hopened hassign)
        (hhand.frame hmap hkey).entry hcommit
      split at hok
      · exact edits_of_answer (edits_tellInvalidateCallbacks hcommitted _ _) hok
      · exact edits_of_answer (hcommitted.beside rfl rfl rfl rfl) hok

theorem edits_transactionInvalidate (hok : w.transactionInvalidate rules = .ok (r, w')) :
    ∃ buried, w.copy.Edits V 0 buried w'.copy := by
  unfold Task.transactionInvalidate at hok
  split at hok
  next => exact edits_of_answer .refl hok
  next e he =>
    split at hok
    next => exact edits_of_answer .refl hok
    next hvalid =>
      split at hok
      · exact edits_of_answer (edits_refuseStale .refl (Opened.inHand_found he)) hok
      · obtain ⟨w₁, hcommit, hok⟩ := bind_ok hok
        have hcommitted := edits_commitInvalidate hV .refl he hcommit
        rw [Bool.or_eq_true, not_or, Bool.not_eq_true] at hvalid
        rw [countReplaced_live (isTombstone_of_live hvalid.1)] at hcommitted
        exact edits_of_answer (hcommitted.beside rfl rfl rfl rfl) hok

/-! ### Destroy -/

variable {config : OperationConfig} {options : DestroyOptions}

theorem edits_destroyRemoved (h : c.Edits V n false w.copy) (hhand : o.InHand w)
    (hok : w.destroyRemoved rules now config options o = .ok (r, w')) :
    ∃ buried, c.Edits V n buried w'.copy := by
  unfold Task.destroyRemoved at hok
  split at hok
  · exact edits_of_answer h hok
  split at hok
  · have hmarked := edits_write h hhand.entry (t := .destroyed) rfl
    exact edits_of_answer (edits_finishDestroy hmarked config options) hok
  split at hok
  · split at hok
    · exact edits_of_answer (edits_refuseStale h hhand) hok
    split at hok
    · obtain ⟨w₁, hbury, hok⟩ := bind_ok hok
      have hburied := edits_bury hV h hhand.entry hbury
      exact edits_of_answer (edits_finishDestroy hburied config options) hok
    · exact edits_of_answer (edits_finishDestroy h config options) hok
  · exact edits_of_answer (edits_missing h rules) hok

theorem edits_destroyLive (h : c.Edits V n false w.copy) (hhand : o.InHand w)
    (hlive : o.entry.token.isRemoved = false)
    (hok : w.destroyLive rules now config options o = .ok (r, w')) :
    ∃ buried, c.Edits V n buried w'.copy := by
  unfold Task.destroyLive at hok
  split at hok
  · exact edits_of_answer h hok
  split at hok
  · exact edits_of_answer (edits_refuseStale h hhand) hok
  · obtain ⟨w₁, hassign, hok⟩ := bind_ok hok
    obtain ⟨w₂, hcommit, hok⟩ := bind_ok hok
    obtain ⟨hkey, hmap, -⟩ := assignVersion_keeps hassign
    have hassigned := edits_assignVersion hV h hassign
    obtain ⟨buried, hcommitted⟩ := edits_commitDestroy
      (w := { w₁ with event := { w₁.event with oldValue := o.entry.value? } }) hV hassigned
      (hhand.frame hmap hkey).entry (isTombstone_of_live hlive) hcommit
    split at hok
    · exact edits_of_answer (edits_finishDestroy (edits_mapStats hcommitted _ rfl rfl) _ _) hok
    · exact edits_of_answer (edits_finishDestroy hcommitted _ _) hok

theorem edits_destroy (hok : w.destroy rules now config options = .ok (r, w')) :
    ∃ buried, w.copy.Edits V 0 buried w'.copy := by
  unfold Task.destroy at hok
  dsimp only at hok
  split at hok
  next w₁ hopen =>
    have hopened := edits_open (V := V) .refl hopen
    split at hok
    · exact edits_of_answer hopened hok
    · exact edits_of_answer (edits_missing hopened rules) hok
  next o w₁ hopen =>
    have hopened := edits_open (V := V) .refl hopen
    have hhand := inHand_open hopen
    split at hok
    next => exact edits_destroyRemoved hV hopened hhand hok
    next hlive => exact edits_destroyLive hV hopened hhand (Bool.eq_false_iff.2 hlive) hok

theorem edits_transactionDestroy {inTokenMode : Bool}
    (hok : w.transactionDestroy rules now inTokenMode = .ok (r, w')) :
    ∃ buried, w.copy.Edits V 0 buried w'.copy := by
  unfold Task.transactionDestroy at hok
  split at hok
  next w₁ hopen => exact edits_of_answer (edits_open .refl hopen) hok
  next o w₁ hopen =>
    have hopened := edits_open (V := V) .refl hopen
    have hhand := inHand_open hopen
    split at hok
    next => exact edits_of_answer hopened hok
    next hthere =>
      have hlive : o.entry.token.isTombstone = false := by
        cases hcreated : o.created with
        | true =>
          rw [hhand.made hcreated]
          rfl
        | false =>
          rw [hcreated, Bool.not_false, Bool.and_true, Bool.not_eq_true] at hthere
          exact isTombstone_of_live hthere
      split at hok
      · exact edits_of_answer (edits_refuseStale hopened hhand) hok
      · obtain ⟨w₂, hcommit, hok⟩ := bind_ok hok
        obtain ⟨buried, hcommitted⟩ := edits_commitDestroy
          (w := { w₁ with event := { w₁.event with oldValue := o.entry.value? } }) hV hopened
          hhand.entry hlive hcommit
        exact edits_of_answer (hcommitted.beside rfl rfl rfl rfl) hok

end

end Task

/-- An operation makes single changes only, and leaves at most one tombstone, last. -/
theorem EntryCall.edits {V : Option VersionVector → Option VersionVector → Prop} {op : EntryCall}
    {rules : Rules} {now : Int} {w w' : Task} {r : Applied} (hV : rules.Moves V)
    (hok : op.run rules now w = .ok (r, w')) : ∃ buried, w.copy.Edits V 0 buried w'.copy := by
  cases op with
  | put options config => exact edits_put hV hok
  | invalidate forceNewEntry forceCallbacks config => exact edits_invalidate hV hok
  | destroy config options => exact edits_destroy hV hok
  | transactionPut => exact edits_transactionPut hV hok
  | transactionInvalidate => exact edits_transactionInvalidate hV hok
  | transactionDestroy inTokenMode => exact edits_transactionDestroy hV hok

end DataGrid
