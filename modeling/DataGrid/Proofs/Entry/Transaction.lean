import DataGrid.Proofs.Entry.Outcome
import DataGrid.Proofs.Entry.Tally

/-
An operation of a transaction comes to what the plain operation comes to: the
same answer or overflow, the same copy with its counters, and the same event.
Only what the region is told differs (`Task.Agree`). The event must have its
version, as one of a transaction has; without one a plain local operation would
ask for it.

Where the key is absent the two part ways on purpose: an invalidate or a destroy
of a transaction leaves the mark or the tombstone that it meets as it is.
-/

namespace DataGrid.Task

open RegionCopy (replica received)

variable {rules : Rules} {now : Int} {w u u' : Task} {o : Opened} {e : Entry} {r : Applied}
  {hooks hooks' : Task → List RegionNotice} {p q : Checked (Applied × Task)}

/-! ## Agreement but for what is told -/

/-- What the region is told of a call: `hooks` if it was applied, and nothing otherwise. -/
def heard (hooks : Task → List RegionNotice) : Applied × Task → List RegionNotice
  | (.ok true, u) => hooks u
  | _ => []

/-- What a call on `w` came to, with `hooks` for what was told of it. -/
def retold (w : Task) (hooks : Task → List RegionNotice) (p : Applied × Task) : Applied × Task :=
  (p.1, { p.2 with notices := w.notices ++ heard hooks p })

/-- Two calls on `w` come to the same. Of the first the region is told `hooks`, and of the second
`hooks'`. -/
structure Agree (w : Task) (p q : Checked (Applied × Task))
    (hooks hooks' : Task → List RegionNotice) : Prop where
  first : p = p.map (w.retold hooks)
  second : q = p.map (w.retold hooks')

theorem Agree.of_notices (h : u.Agree p q hooks hooks') (hu : u.notices = w.notices) :
    w.Agree p q hooks hooks' := by
  have hretold : ∀ hooks, w.retold hooks = u.retold hooks := fun hooks => by
    funext p
    simp only [retold, hu]
  exact ⟨by rw [hretold]; exact h.first, by rw [hretold]; exact h.second⟩

/-- Of a call that is not applied nothing is told. -/
theorem agree_refused (hooks hooks' : Task → List RegionNotice) (hr : r ≠ .ok true)
    (hu : u.notices = w.notices) : w.Agree (.ok (r, u)) (.ok (r, u)) hooks hooks' := by
  have hretold : ∀ hooks, w.retold hooks (r, u) = (r, u) := by
    intro hooks
    have hheard : heard hooks (r, u) = [] := by
      unfold heard
      split
      next heq =>
        cases heq
        exact absurd rfl hr
      next => rfl
    rw [retold, hheard, List.append_nil, ← hu]
  exact ⟨congrArg _ (hretold hooks).symm, congrArg _ (hretold hooks').symm⟩

theorem agree_stale (hooks hooks' : Task → List RegionNotice) (u : Task) (o : Opened) :
    u.Agree (.ok (u.refuseStale o)) (.ok (u.refuseStale o)) hooks hooks' := by
  refine agree_refused hooks hooks' nofun ?_
  split <;> rfl

/-- Two calls agree that make the same changes and then tell of them. -/
theorem agree_applied (changed : Checked Task) {f g : Task → Task}
    (h : ∀ u, changed = .ok u → (f u).notices = w.notices ++ hooks (f u) ∧
      g u = { f u with notices := w.notices ++ hooks' (f u) }) :
    w.Agree (changed >>= fun u => .ok ((f u).done true))
      (changed >>= fun u => .ok ((g u).done true)) hooks hooks' := by
  cases changed with
  | error e => exact ⟨rfl, rfl⟩
  | ok u =>
    obtain ⟨hf, hg⟩ := h u rfl
    refine ⟨congrArg Except.ok (Prod.ext rfl ?_), congrArg Except.ok (Prod.ext rfl hg)⟩
    change f u = { f u with notices := w.notices ++ hooks (f u) }
    rw [← hf]

/-! ## What the region is told -/

def putHooks (u : Task) : List RegionNotice :=
  [.putDone u.event.newValue u.event.operation (u.event.operation == .create)]

def invalidateHooks (u : Task) : List RegionNotice :=
  [.invalidated u.key u.tokenNow u.event.oldValue true]

def destroyHooks (inTokenMode : Bool) (u : Task) : List RegionNotice :=
  [.destroyed u.tokenNow u.event.oldValue inTokenMode false true,
    .destroyCompleted u.tokenNow inTokenMode false true none]

def transactionHooks (u : Task) : List RegionNotice :=
  [.transactionApplied u.tokenNow u.event.operation]

/-! ## Steps that tell nothing -/

theorem openOrCreate_quiet (w : Task) :
    w.openOrCreate.2.notices = w.notices ∧ w.openOrCreate.2.event = w.event := by
  unfold openOrCreate
  simp only
  split <;> exact ⟨rfl, rfl⟩

theorem open_quiet (w : Task) (create : Bool) :
    (w.open_ create).2.notices = w.notices ∧ (w.open_ create).2.event = w.event := by
  unfold open_
  split
  · exact openOrCreate_quiet w
  · exact ⟨rfl, rfl⟩

/-- An entry that has not left the map is opened as it is. -/
theorem open_entry (he : w.entry? = some e) (hd : e.token.isDetached = false) (create : Bool) :
    w.open_ create = (some ⟨e, false⟩, w) := by
  have hdrop : w.mapCopy (·.dropDetached w.key) = w := by
    have hmap : w.copy.map.entry? w.key = some e := he
    simp only [mapCopy, RegionCopy.dropDetached, hmap, hd, Bool.false_eq_true, if_false]
  unfold open_
  split
  · simp only [openOrCreate, hdrop, he]
    rfl
  · simp only [openExisting, hdrop, he]
    rfl

theorem assignVersion_versioned (h : w.event.remote = true ∨ w.event.tag.isSome = true)
    (rules : Rules) (now : Int) (e : Entry) : w.assignVersion rules now e = .ok w := by
  unfold assignVersion
  rw [if_neg]
  rcases h with hremote | htag
  · simp [hremote]
  · simp [Option.isNone_eq_false_iff.2 htag]

theorem recordVersion_quiet (h : u.recordVersion = .ok u') :
    u'.notices = u.notices ∧ u'.event = u.event := by
  obtain ⟨vector, -, rfl⟩ := recordVersion_ok h
  exact ⟨rfl, rfl⟩

theorem bury_quiet {old : Token} (h : u.bury now old = .ok u') :
    u'.notices = u.notices ∧ u'.event = u.event := by
  obtain ⟨u₁, hrecord, h⟩ := bind_ok h
  cases h
  obtain ⟨hnotices, hevent⟩ := recordVersion_quiet hrecord
  exact ⟨hnotices, hevent⟩

theorem commitDestroy_quiet {inTokenMode buries : Bool} {e : Entry}
    (h : u.commitDestroy inTokenMode buries now e = .ok u') :
    u'.notices = u.notices ∧ u'.event = u.event := by
  unfold commitDestroy at h
  split at h
  · cases h
    exact ⟨rfl, rfl⟩
  split at h
  · exact bury_quiet h
  · exact recordVersion_quiet (u := u.mapCopy (·.detach u.key)) h

/-! ## The three operations -/

theorem put_agree (hversion : w.event.remote = true ∨ w.event.tag.isSome = true) :
    w.Agree (w.put rules now {} {}) (w.transactionPut rules) putHooks transactionHooks := by
  unfold put transactionPut
  cases hv : w.event.newValue with
  | none => exact agree_refused _ _ nofun rfl
  | some v =>
    obtain ⟨hnotices, hevent⟩ := openOrCreate_quiet w
    generalize w.openOrCreate = opened at hnotices hevent ⊢
    obtain ⟨o, u⟩ := opened
    simp only at hnotices hevent ⊢
    rw [if_neg (by rw [putRefused_default]; nofun)]
    refine Agree.of_notices ?_ hnotices
    split
    · exact agree_stale _ _ u o
    · rw [assignVersion_versioned (by rw [hevent]; exact hversion)]
      refine agree_applied (u.commitPut o.entry v) fun u' hcommit => ?_
      obtain ⟨htold, hlearnt⟩ := recordVersion_quiet hcommit
      have hcreate : (u'.event.operation == .create) = o.entry.token.isRemoved := by
        rw [hlearnt]
        cases o.entry.token.isRemoved <;> rfl
      have hnew : u'.event.newValue = some v := by
        rw [hlearnt, ← hv, ← hevent]
        rfl
      have htold : u'.notices = u.notices := htold
      refine ⟨?_, ?_⟩
      · simp only [countReplaced, mapStats, mapCopy, tell, putHooks, htold, hcreate, hnew]
      · simp only [countReplaced, tellTransaction, mapStats, mapCopy, tell, transactionHooks,
          tokenNow, entry?, Task.key, htold]

theorem isDetached_of_isLive (hlive : e.token.isLive = true) : e.token.isDetached = false := by
  cases ht : e.token <;> rw [ht] at hlive <;> first | rfl | cases hlive

section

variable (he : w.entry? = some e) (hlive : e.token.isLive = true)
  (hversion : w.event.remote = true ∨ w.event.tag.isSome = true)

include he hlive hversion

theorem invalidate_agree (hinit : rules.initialized = true) :
    w.Agree (w.invalidate rules now false false {}) (w.transactionInvalidate rules) invalidateHooks
      transactionHooks := by
  have hremoved : e.token.isRemoved = false := by simpa [Token.isLive] using hlive
  simp only [invalidate, transactionInvalidate, open_entry he (isDetached_of_isLive hlive), he,
    hremoved, tellInvalidateCallbacks_false, hinit, Bool.false_or, Bool.false_and, Bool.not_true,
    Bool.and_false, Bool.false_eq_true, if_false]
  split
  · exact agree_refused _ _ (by simp) rfl
  split
  · exact agree_stale _ _ w _
  · rw [assignVersion_versioned hversion]
    simp only [countReplaced_live (isTombstone_of_live hremoved)]
    refine agree_applied (w.commitInvalidate e) fun u' hcommit => ?_
    obtain ⟨htold, -⟩ := recordVersion_quiet hcommit
    have htold : u'.notices = w.notices := htold
    refine ⟨?_, ?_⟩
    · simp only [mapStats, mapCopy, tell, invalidateHooks, tokenNow, entry?, Task.key, htold]
    · simp only [tellTransaction, mapStats, mapCopy, tell, transactionHooks, tokenNow, entry?,
        Task.key, htold]

theorem destroy_agree (inTokenMode : Bool) :
    w.Agree (w.destroy rules now { inTokenMode := inTokenMode } {})
      (w.transactionDestroy rules now inTokenMode) (destroyHooks inTokenMode)
      transactionHooks := by
  have hremoved : e.token.isRemoved = false := by simpa [Token.isLive] using hlive
  simp only [destroy, transactionDestroy, open_entry he (isDetached_of_isLive hlive), hremoved,
    destroyLive, Bool.false_and, Option.isSome_none, Bool.not_false, Bool.and_true,
    Bool.false_eq_true, if_false]
  split
  · exact agree_stale _ _ w _
  · rw [assignVersion_versioned hversion]
    refine agree_applied (Task.commitDestroy inTokenMode rules.concurrencyChecks now e
      { w with event := { w.event with oldValue := e.value? } }) fun u' hcommit => ?_
    obtain ⟨htold, -⟩ := commitDestroy_quiet hcommit
    have htold : u'.notices = w.notices := htold
    refine ⟨?_, ?_⟩
    · simp only [mapStats, mapCopy, tell, destroyHooks, tokenNow, entry?, Task.key, htold,
        List.append_assoc, List.singleton_append]
    · simp only [tellTransaction, mapStats, mapCopy, tell, transactionHooks, tokenNow, entry?,
        Task.key, htold]

end

/-- An absent key whose slot is kept is left alone. -/
theorem transaction_absent (he : w.entry? = some e)
    (habsent : e.token ∈ [.placeholder, .destroyed, .tombstone]) :
    w.transactionInvalidate rules = .ok (.ok false, w) ∧
      ∀ inTokenMode, w.transactionDestroy rules now inTokenMode = .ok (.ok false, w) := by
  have hkept : e.token.isDetached = false ∧ e.token.isRemoved = true := by
    simp only [List.mem_cons, List.not_mem_nil, or_false] at habsent
    rcases habsent with h | h | h <;> rw [h] <;> exact ⟨rfl, rfl⟩
  constructor
  · simp only [transactionInvalidate, he, hkept.2, Bool.true_or, if_true, done]
  · intro inTokenMode
    simp only [transactionDestroy, open_entry he hkept.1, hkept.2, Bool.not_false, Bool.and_true,
      if_true, done]

/-- The operations of a transaction agree with the plain ones on an event that has its version: a
put on every key, an invalidate and a destroy on a present one. An absent key whose slot is kept
they leave alone. -/
theorem transaction_agrees (rules : Rules) (now : Int) (w : Task) :
    (w.event.remote = true ∨ w.event.tag.isSome = true →
      w.Agree (w.put rules now {} {}) (w.transactionPut rules) putHooks transactionHooks ∧
      (w.copy.map.contains w.key = true →
        (rules.initialized = true →
          w.Agree (w.invalidate rules now false false {}) (w.transactionInvalidate rules)
            invalidateHooks transactionHooks) ∧
        ∀ inTokenMode,
          w.Agree (w.destroy rules now { inTokenMode := inTokenMode } {})
            (w.transactionDestroy rules now inTokenMode) (destroyHooks inTokenMode)
            transactionHooks)) ∧
      ∀ e, w.entry? = some e → e.token ∈ [.placeholder, .destroyed, .tombstone] →
        w.transactionInvalidate rules = .ok (.ok false, w) ∧
          ∀ inTokenMode, w.transactionDestroy rules now inTokenMode = .ok (.ok false, w) := by
  refine ⟨fun hversion => ⟨put_agree hversion, fun hpresent => ?_⟩, fun e => transaction_absent⟩
  obtain ⟨e, he, hlive⟩ : ∃ e, w.entry? = some e ∧ e.token.isLive = true := by
    unfold EntryMap.contains at hpresent
    split at hpresent
    next e he => exact ⟨e, he, hpresent⟩
    next => cases hpresent
  exact ⟨invalidate_agree he hlive hversion, destroy_agree he hlive hversion⟩

/-- A received event at a key that holds a token. -/
def arriving (t : Token) (e : EntryEvent) : Task :=
  { copy := { map := ({} : EntryMap).write e.key t none }, event := received e 1 1 }

/-- Over a value all three are applied, and over a tombstone the two are not. -/
theorem transaction_agrees_received :
    let put := arriving .tombstone (.ofPut "a" "v")
    let invalidate := arriving (.valid "v") (.ofInvalidate "a")
    let destroy := arriving (.valid "v") (.ofDestroy "a")
    let late := arriving .tombstone (.ofDestroy "a")
    put.Agree (put.put replica 0 {} {}) (put.transactionPut replica) putHooks transactionHooks ∧
      invalidate.Agree (invalidate.invalidate replica 0 false false {})
        (invalidate.transactionInvalidate replica) invalidateHooks transactionHooks ∧
      destroy.Agree (destroy.destroy replica 0 {} {}) (destroy.transactionDestroy replica 0 false)
        (destroyHooks false) transactionHooks ∧
      (∃ u v w, put.transactionPut replica = .ok (.ok true, u) ∧
        invalidate.transactionInvalidate replica = .ok (.ok true, v) ∧
        destroy.transactionDestroy replica 0 false = .ok (.ok true, w)) ∧
      late.transactionDestroy replica 0 true = .ok (.ok false, late) := by
  refine ⟨((transaction_agrees replica 0 _).1 (.inl rfl)).1,
    (((transaction_agrees replica 0 _).1 (.inl rfl)).2 rfl).1 rfl,
    (((transaction_agrees replica 0 _).1 (.inl rfl)).2 rfl).2 false,
    ⟨_, _, _, rfl, rfl, rfl⟩, ?_⟩
  exact ((transaction_agrees replica 0 _).2 _ rfl (by decide)).2 true

end DataGrid.Task
