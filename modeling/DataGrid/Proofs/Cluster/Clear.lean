import DataGrid.Proofs.Clear.Gathering
import DataGrid.Proofs.Cluster.Calm

/-
A clear of the whole region in a calm cluster, from the lock of the region to
its release. In the course of it (`amid`) the share that clears and the shares
that it asks change, each in one way, and nothing else does but the lock and
the number of ids given out. At the end the two ways in which a clear can run,
with or without the clear lock on every member, have come to the same.
-/

namespace DataGrid

namespace Cluster

variable {c : Cluster} {l : String} {s : Share}

theorem Calm.not_asked (h : c.Calm) (hs : c.share? l = some s) : l ∉ c.labelsOf (c.others s) := by
  intro hl
  obtain ⟨m, hm, hl⟩ := List.mem_filterMap.1 hl
  obtain ⟨l', s', hl', hne⟩ := h.staffed.asks hs hm
  rw [hl'.handler] at hl
  cases hl
  exact hne rfl

/-! ## In the course of a clear -/

/-- The cluster once the share with a label, which clears the region, and the shares that it asks
have changed. -/
def amid (c : Cluster) (l : String) (s : Share) (own asked : Share → Share) (grantor : LockGrantor)
    (ids : Nat) : Cluster :=
  { c with
    shares := c.shares.mapValues fun l' s' =>
      if l' = l then own s' else if l' ∈ c.labelsOf (c.others s) then asked s' else s'
    grantor
    ids }

variable {own asked f : Share → Share} {grantor : LockGrantor} {ids : Nat}

theorem share?_amid (l' : String) :
    (c.amid l s own asked grantor ids).share? l' = (c.share? l').map fun s' =>
      if l' = l then own s' else if l' ∈ c.labelsOf (c.others s) then asked s' else s' :=
  OrdMap.find?_mapValues_key _ _ _

theorem share?_amid_own (hs : c.share? l = some s) :
    (c.amid l s own asked grantor ids).share? l = some (own s) := by
  rw [share?_amid, hs, Option.map_some, if_pos rfl]

theorem amid_start (c : Cluster) (l : String) (s : Share) :
    c.amid l s id id c.grantor c.ids = c := by
  have hsame : (c.shares.mapValues fun l' s' =>
      if l' = l then id s' else if l' ∈ c.labelsOf (c.others s) then id s' else s') = c.shares := by
    refine OrdMap.mapValues_self fun l' s' _ => ?_
    simp only [id, ite_self]
  simp only [amid, hsame]

theorem amid_modifyShare (f : Share → Share) :
    (c.amid l s own asked grantor ids).modifyShare l f =
      c.amid l s (fun s' => f (own s')) asked grantor ids := by
  simp only [modifyShare, OrdMap.modify, amid, OrdMap.mapValues_mapValues, Std.compare_eq_iff_eq]
  congr 1
  refine OrdMap.mapValues_congr fun l' s' _ => ?_
  by_cases he : l' = l
  · simp only [he, if_true]
  · have hne : ¬ l = l' := fun h => he h.symm
    simp only [he, hne, if_false]

theorem amid_mapShares (hl : l ∉ c.labelsOf (c.others s)) (f : Share → Share) :
    (c.amid l s own asked grantor ids).mapShares (c.labelsOf (c.others s)) f =
      c.amid l s own (fun s' => f (asked s')) grantor ids := by
  simp only [mapShares, amid, OrdMap.mapValues_mapValues]
  congr 1
  refine OrdMap.mapValues_congr fun l' s' _ => ?_
  by_cases he : l' = l
  · simp only [he, hl, if_true, if_false]
  · simp only [he, if_false]
    split <;> rfl

/-- It only matters what becomes of the shares that there are. -/
theorem amid_congr (hs : c.share? l = some s) {own' asked' : Share → Share} (hown : own s = own' s)
    (hasked : ∀ l' s', c.share? l' = some s' → l' ∈ c.labelsOf (c.others s) → asked s' = asked' s') :
    c.amid l s own asked grantor ids = c.amid l s own' asked' grantor ids := by
  unfold amid
  congr 1
  refine OrdMap.mapValues_congr fun l' s' hm => ?_
  have hs' : c.share? l' = some s' := OrdMap.mem_toList_iff.1 hm
  split
  next he =>
    rw [he, hs] at hs'
    cases hs'
    exact hown
  next =>
    split
    next hin => exact hasked l' s' hs' hin
    next => rfl

/-- Whoever was asked still handles its messages. -/
theorem Calm.handles_amid (h : c.Calm) (hs : c.share? l = some s)
    (hasked : ∀ s', s'.Calm c.config → (asked s').coordinator.member = s'.coordinator.member)
    {m : Member} (hm : m ∈ c.others s) :
    ∃ l' s', s'.Calm c.config ∧ (c.amid l s own asked grantor ids).Handles m l' (asked s') := by
  obtain ⟨l', s', hl', hne⟩ := h.staffed.asks hs hm
  have hcalm := h.share l' s' hl'.share
  have hin : l' ∈ c.labelsOf (c.others s) := List.mem_filterMap.2 ⟨m, hm, hl'.handler⟩
  refine ⟨l', s', hcalm, hl'.current, hl'.handler, ?_, ?_⟩
  · rw [share?_amid, hl'.share, Option.map_some, if_neg hne, if_pos hin]
  · rw [hasked s' hcalm]
    exact hl'.member

/-- The shares that are asked, as they are by now. -/
theorem sharesOf_amid (hl : l ∉ c.labelsOf (c.others s)) :
    (c.amid l s own asked grantor ids).sharesOf (c.others s) =
      (c.sharesOf (c.others s)).map asked := by
  have hlabels : (c.amid l s own asked grantor ids).labelsOf (c.others s) =
      c.labelsOf (c.others s) := rfl
  simp only [sharesOf, hlabels, List.map_filterMap]
  refine List.filterMap_congr fun l' hl' => ?_
  have hne : l' ≠ l := fun he => hl (by rw [← he]; exact hl')
  rw [share?_amid]
  simp only [hne, hl', if_false, if_true]

/-! ## Sending -/

section

variable {k : Coordinator} {event : RegionEvent} {op : ClearOperation} {serves : Share → Prop}
  {cleared : Share → List Nat}

variable (own asked grantor ids)

theorem collectReplies_ok (message : ClearMessage) (member : Share → Member)
    (cleared : Share → List Nat) (shares : List Share) :
    Coordinator.collectReplies (shares.map fun s => .ok message (member s) (cleared s)) =
      .ok (shares.flatMap cleared) := by
  refine (Coordinator.collectReplies_ok_iff _ _).2 ⟨fun reply hreply => ?_, ?_⟩
  · obtain ⟨s, -, rfl⟩ := List.mem_map.1 hreply
    rfl
  · rw [List.flatMap_map]
    rfl

/-- A message reaches all that are asked, and they do what it asks. -/
theorem send_amid (h : c.Calm) (hs : c.share? l = some s) {message : ClearMessage}
    (hserved : (c.amid l s own asked grantor ids).Served message serves f cleared)
    (hserves : ∀ s', s'.Calm c.config →
      serves (asked s') ∧ (asked s').coordinator.member = s'.coordinator.member) :
    ∃ collector, (c.amid l s own asked grantor ids).send message (c.others s) =
        (collector, c.amid l s own (fun s' => f (asked s')) grantor ids) ∧
      collector.take.1 = .ok ⟨(c.sharesOf (c.others s)).map fun s' =>
        .ok message (asked s').coordinator.member (cleared (asked s')), []⟩ := by
  obtain ⟨collector, hsend, htake⟩ := send_eq hserved (pairwise_others c s) fun m hm => by
    obtain ⟨l', s', hcalm, hl'⟩ := h.handles_amid hs (fun s' hs' => (hserves s' hs').2) hm
    exact ⟨l', asked s', hl', (hserves s' hcalm).1⟩
  have hlabels : (c.amid l s own asked grantor ids).labelsOf (c.others s) =
    c.labelsOf (c.others s) := rfl
  rw [hlabels, amid_mapShares (h.not_asked hs)] at hsend
  rw [sharesOf_amid (h.not_asked hs), List.map_map] at htake
  exact ⟨collector, hsend, htake⟩

/-- All that are asked do what a message asks, and answer. -/
theorem yields_broadcast (h : c.Calm) (hs : c.share? l = some s)
    (hk : k.member = s.coordinator.member)
    (hserved : ∀ id n, (c.amid l s own asked grantor n).Served (.about id k.member op event) serves f
      cleared)
    (hserves : ∀ s', s'.Calm c.config →
      serves (asked s') ∧ (asked s').coordinator.member = s'.coordinator.member) :
    ∃ n, Yields (Coordinator.broadcast (c.surroundings l) event op).run k
      (c.amid l s own asked grantor ids)
      (.ok (.replied ((c.sharesOf (c.others s)).flatMap fun s' => cleared (asked s')))) k
      (c.amid l s own (fun s' => f (asked s')) grantor n) := by
  have hrecipients : ∀ effects, Coordinator.recipients (c.surroundings l)
      ⟨k, c.amid l s own asked grantor ids, effects⟩ = c.others s := by
    intro effects
    simp only [Coordinator.recipients, hk]
    rfl
  cases hto : c.others s with
  | nil =>
    have hnone : c.labelsOf (c.others s) = [] := by rw [hto]; rfl
    have hsame : c.amid l s own (fun s' => f (asked s')) grantor ids =
        c.amid l s own asked grantor ids := by
      refine amid_congr hs rfl fun l' s' _ hl' => ?_
      rw [hnone] at hl'
      cases hl'
    refine ⟨ids, .get_attempt fun effects => ?_⟩
    rw [hrecipients, hto, hsame]
    exact .done _
  | cons m members =>
    let message := ClearMessage.about ⟨BitVec.ofNat 128 ids⟩ k.member op event
    obtain ⟨collector, hsend, htake⟩ := send_amid own asked grantor (ids + 1) h hs
      (hserved ⟨BitVec.ofNat 128 ids⟩ (ids + 1)) hserves
    have hgather : (c.surroundings l).send message (m :: members)
        (c.amid l s own asked grantor (ids + 1)) =
          (.ok collector, c.amid l s own (fun s' => f (asked s')) grantor (ids + 1)) := by
      rw [← hto]
      simp only [surroundings, message, hsend]
    refine ⟨ids + 1, .get_attempt fun effects => ?_⟩
    rw [hrecipients, hto]
    refine .attempt (.sure (.outside (c.amid l s own asked grantor (ids + 1)))) ?_
    refine .attempt (.tryTo (settled_site c l) (.sent message (m :: members)) hgather) ?_
    rw [htake]
    refine .attempt (.ofExcept (.ok _)) ?_
    rw [collectReplies_ok message (fun s' => (asked s').coordinator.member), ← hto]
    exact .attempt (.ofExcept (.ok _)) (.done _)

theorem yields_send (h : c.Calm) (hs : c.share? l = some s) (hlive : c.isCurrent s.member = true)
    (hk : k.member = s.coordinator.member) (hown : (own s).member = s.member)
    (hserved : ∀ id n, (c.amid l s own asked grantor n).Served (.about id k.member op event) serves f
      cleared)
    (hserves : ∀ s', s'.Calm c.config →
      serves (asked s') ∧ (asked s').coordinator.member = s'.coordinator.member) :
    ∃ n, Yields (Coordinator.send (c.surroundings l) event op).run k
      (c.amid l s own asked grantor ids)
      (.ok ((c.sharesOf (c.others s)).flatMap fun s' => cleared (asked s'))) k
      (c.amid l s own (fun s' => f (asked s')) grantor n) := by
  obtain ⟨n, hbroadcast⟩ := yields_broadcast own asked grantor ids h hs hk hserved hserves
  have hrunning : (c.surroundings l).isCancelled (c.amid l s own asked grantor ids) = false := by
    have hout : c.isCancelled (own s).member = false := by
      rw [hown, isCancelled, h.running, hlive]
      rfl
    simp only [surroundings, share?_amid_own hs, Option.all_some]
    exact hout
  have honce : ∀ whenDeparted, Yields (Coordinator.sendOnce (c.surroundings l) event op
      whenDeparted).run k (c.amid l s own asked grantor ids)
      (.ok ((c.sharesOf (c.others s)).flatMap fun s' => cleared (asked s'))) k
      (c.amid l s own (fun s' => f (asked s')) grantor n) := by
    intro whenDeparted
    refine .get_attempt fun effects => ?_
    simp only [hrunning, Bool.false_eq_true, if_false]
    exact .attempt hbroadcast (.done _)
  refine ⟨n, .get_attempt fun effects => ?_⟩
  cases k.config.sendAttempts - 1 with
  | zero => exact honce _
  | succ further => exact honce _

end

/-! ## The messages of a clear -/

section

variable {o : Cluster} {m : Member} {event : RegionEvent} {config : BucketConfig} (id : Ulid)

theorem served_lock (hm : o.isCurrent m = true) (hregion : event.region = o.name) :
    o.Served (.about id m .lock event) (Share.Calm config) (·.lockedFor m) fun _ => [] := by
  intro c l s hname hview hs hcalm
  refine process_lock hs hcalm ?_ (hregion.trans hname.symm) rfl
  rw [isCurrent, hview]
  exact hm

theorem served_clear (hregion : event.region = o.name) :
    o.Served (.about id m .clear event) (fun s => s.store.Led ∧ s.store.creationGate = {})
      (·.clearedFor event.toRemote) (·.store.ids) := by
  intro c l s hname _ hs ⟨hled, hcreate⟩
  exact process_clear hs hled hcreate (hregion.trans hname.symm) rfl

theorem served_unlock (hregion : event.region = o.name) :
    o.Served (.about id m .unlock event) (fun s => s.coordinator.lock.isLocked = true) (·.released)
      fun _ => [] := by
  intro c l s hname _ hs hlock
  exact process_unlock hs hlock (hregion.trans hname.symm) rfl

end

end Cluster

/-! ## With and without the clear lock -/

namespace Share

variable {config : BucketConfig} {s : Share} {m : Member}

/-- A clear that holds the buckets leaves what one leaves that does not. -/
theorem store_unlocked {store : BucketStore} (h : store.Calm config) (m : Member) :
    ((store.mapAll (Cluster.lockedFor m)).mapAll (·.clear.2)).mapAll Bucket.releaseForClear =
      store.mapAll (·.clear.2) := by
  simp only [BucketStore.mapAll_mapAll]
  unfold BucketStore.mapAll
  congr 1
  refine OrdMap.mapValues_congr fun id b hm => ?_
  have hgate := (h.bucket id b (OrdMap.mem_toList_iff.1 hm)).gate
  obtain ⟨path, advisor, copy, gate, attributes⟩ := b
  simp only at hgate
  subst hgate
  rfl

/-- The share with its buckets held for a member. -/
def held (m : Member) (s : Share) : Share :=
  { s with store := s.store.mapAll (Cluster.lockedFor m) }

/-- The share with its buckets let go. -/
def letGo (s : Share) : Share := { s with store := s.store.mapAll Bucket.releaseForClear }

/-- The share that clears is left the same whether it held its buckets or not. -/
theorem Calm.letGo_held (h : s.Calm config) (m : Member) (event : RegionEvent) :
    ((s.held m).cleared.told event).letGo = s.cleared.told event := by
  simp only [held, letGo, Share.cleared, told_eq, hearingsOf, noticesOf, store_unlocked h.store]

/-- And so is one that was asked. -/
theorem Calm.released_lockedFor (h : s.Calm config) (m : Member) (event : RegionEvent) :
    ((s.lockedFor m).clearedFor event).released = s.clearedFor event := by
  simp only [Share.released, clearedFor, lockedFor, Share.cleared, told_eq, hearingsOf, noticesOf,
    store_unlocked h.store, h.unlocked]

/-- `t` is `s` on the way to being cleared, held by a clear or not. -/
structure Ready (s t : Share) : Prop where
  led : t.store.Led
  creation : t.store.creationGate = {}
  ids : t.store.ids = s.store.ids
  member : t.member = s.member
  coordinator : t.coordinator.member = s.coordinator.member

theorem Calm.ready (h : s.Calm config) : Ready s s :=
  ⟨h.store.led, h.store.creation, rfl, rfl, rfl⟩

theorem Calm.ready_held (h : s.Calm config) (m : Member) : Ready s (s.held m) :=
  ⟨h.store.led_locked m, h.store.creation, BucketStore.ids_mapAll _ _, rfl, rfl⟩

theorem Calm.ready_locked (h : s.Calm config) (m : Member) : Ready s (s.lockedFor m) :=
  ⟨h.store.led_locked m, h.store.creation, BucketStore.ids_mapAll _ _, rfl, rfl⟩

end Share

namespace Cluster

variable {c : Cluster} {l : String} {s : Share} {k : Coordinator} {own asked : Share → Share}
  {grantor : LockGrantor} {ids : Nat} {event : RegionEvent}

/-! ## The lock of the region -/

/-- The lock grantor while a share holds the lock of the region. -/
def lockedBy (c : Cluster) (s : Share) : LockGrantor :=
  let grant : Grant := ⟨s.member, s.coordinator.config.lockLeaseMs.map (0 + ·)⟩
  { c.grantor with grants := c.grantor.grants.insert (Coordinator.lockName c.name) grant }

/-- The lock grantor once a share has given the lock of the region up. -/
def unlockedBy (c : Cluster) (s : Share) : LockGrantor :=
  { c.lockedBy s with grants := (c.lockedBy s).grants.erase (Coordinator.lockName c.name) }

theorem Calm.unlockedBy_free (h : c.Calm) (s : Share) (name : String) :
    (c.unlockedBy s).grants.find? name = none := by
  by_cases he : name = Coordinator.lockName c.name
  · subst he
    exact OrdMap.find?_erase_self _ _
  · have hne : compare name (Coordinator.lockName c.name) ≠ .eq :=
      fun h => he (Std.LawfulEqCmp.eq_of_compare h)
    simp only [unlockedBy, lockedBy]
    rw [OrdMap.find?_erase_other _ hne, OrdMap.find?_insert_other _ _ hne, h.free]

theorem yields_acquireLock (asked : Share → Share) (ids : Nat) (h : c.Calm)
    (hs : c.share? l = some s) (hk : k.config = s.coordinator.config) :
    Yields (Coordinator.acquireLock (c.surroundings l) (Coordinator.lockName c.name)).run k
      (c.amid l s id asked c.grantor ids) (.ok ()) k (c.amid l s id asked (c.lockedBy s) ids) := by
  have hlock : lock l (Coordinator.lockName c.name) k.config.lockWaitMs k.config.lockLeaseMs
      (c.amid l s id asked c.grantor ids) =
        some (.ok (), c.amid l s id asked (c.lockedBy s) ids) := by
    have hfree : c.grantor.holder 0 (Coordinator.lockName c.name) = none := by
      simp only [LockGrantor.holder, h.free]
    simp only [lock, share?_amid_own hs, bind, Option.bind, id]
    simp only [amid, LockGrantor.lock, LockGrantor.attempt, hfree, hk]
    rfl
  exact .get_attempt fun effects =>
    .attempt (.sure (.consult (settled_site c l) _ hlock)) (.done ())

theorem yields_releaseLock (asked : Share → Share) (ids : Nat) (hs : c.share? l = some s)
    (hown : (own s).member = s.member) :
    Yields (Coordinator.releaseLock (c.surroundings l) (Coordinator.lockName c.name)).run k
      (c.amid l s own asked (c.lockedBy s) ids) (.ok ()) k
      (c.amid l s own asked (c.unlockedBy s) ids) := by
  have hunlock : unlock l (Coordinator.lockName c.name) (c.amid l s own asked (c.lockedBy s) ids) =
      (.ok (), c.amid l s own asked (c.unlockedBy s) ids) := by
    have hheld : (c.lockedBy s).unlock s.member (Coordinator.lockName c.name) =
        .ok (c.unlockedBy s) := by
      simp only [LockGrantor.unlock, lockedBy, OrdMap.find?_insert_self, Member.same_refl, if_true]
      rfl
    simp only [unlock, share?_amid_own hs, hown]
    simp only [amid, hheld]
  refine .tryTo (settled_site c l) _ ?_
  simp only [surroundings, hunlock]
  rfl

/-! ## The writer and the primaries -/

theorem yields_askWriter (hs : c.share? l = some s) (hveto : (own s).writer event = none) :
    Yields (Coordinator.askWriter (c.surroundings l) event).run k
      (c.amid l s own asked grantor ids) (.ok ()) k (c.amid l s own asked grantor ids) := by
  refine .tryTo (settled_site c l) _ ?_
  simp only [surroundings, askWriter, share?_amid_own hs, Option.bind_some, hveto]

theorem yields_askWriter_vetoed {reason : String} (hs : c.share? l = some s)
    (hveto : (own s).writer event = some reason) :
    Yields (Coordinator.askWriter (c.surroundings l) event).run k
      (c.amid l s own asked grantor ids) (.error (.cacheWriter reason)) k
      (c.amid l s own asked grantor ids) := by
  refine .tryTo (settled_site c l) _ ?_
  simp only [surroundings, askWriter, share?_amid_own hs, Option.bind_some, hveto]

theorem yields_assignPrimaries (hs : c.share? l = some s) (hled : (own s).store.Led) :
    Yields (Coordinator.assignPrimaries (c.surroundings l)).run k
      (c.amid l s own asked grantor ids) (.ok ()) k (c.amid l s own asked grantor ids) := by
  refine .tryTo (settled_site c l) _ ?_
  simp only [surroundings]
  rw [modifyShare_self (share?_amid_own hs) (Share.assignPrimaries_led hled.hasPrimary _)]

/-! ## Clearing everywhere -/

section

variable (h : c.Calm) (hs : c.share? l = some s) (hlive : c.isCurrent s.member = true)
  (hregion : event.region = c.name) (n : Nat) (grantor : LockGrantor) (ids : Nat)

/-- The ids of the buckets that a clear clears, once for each member that hosts them. -/
def clearedIds (c : Cluster) (s : Share) : List Nat :=
  s.store.ids ++ (c.sharesOf (c.others s)).flatMap (·.store.ids)

include h hs hlive hregion

theorem yields_assignAndClear (own asked : Share → Share) (hk : k.member = s.coordinator.member)
    (hown : Share.Ready s (own s)) (hasked : ∀ s', s'.Calm c.config → Share.Ready s' (asked s')) :
    ∃ ids', Yields (Coordinator.assignAndClear (c.surroundings l) (n + 1) event).run k
      (c.amid l s own asked grantor ids) (.ok (c.clearedIds s))
      { k with phase := .clearing, membershipChanged := false }
      (c.amid l s (fun s' => (own s').cleared.told event)
        (fun s' => (asked s').clearedFor event.toRemote) grantor ids') := by
  have hhere : (c.amid l s own asked grantor ids).share? l = some (own s) := share?_amid_own hs
  have hlocal := yields_clearLocal (c := c) (k := { k with phase := .clearing }) n hhere hown.led
    hown.creation event
  rw [amid_modifyShare, hown.ids] at hlocal
  have htold : (Share.told event (own s).cleared).member = s.member := by
    rw [Share.member_told]
    exact hown.member
  have hready : ∀ s', s'.Calm c.config →
      ((asked s').store.Led ∧ (asked s').store.creationGate = {}) ∧
        (asked s').coordinator.member = s'.coordinator.member := fun s' hs' =>
    ⟨⟨(hasked s' hs').led, (hasked s' hs').creation⟩, (hasked s' hs').coordinator⟩
  have hids : ((c.sharesOf (c.others s)).flatMap fun s' => (asked s').store.ids) =
      (c.sharesOf (c.others s)).flatMap (·.store.ids) := by
    refine List.flatMap_congr fun s' hs' => ?_
    obtain ⟨l', -, hl'⟩ := List.mem_filterMap.1 hs'
    exact (hasked s' (h.share l' s' hl')).ids
  obtain ⟨ids', hsend⟩ := yields_send (fun s' => (own s').cleared.told event) asked grantor ids
    (k := { k with phase := .clearing, membershipChanged := false }) h hs hlive hk htold
    (fun id n => served_clear id hregion) hready
  rw [hids] at hsend
  exact ⟨ids', .attempt (yields_assignPrimaries hs hown.led) (.attempt (.sure (.advance _))
    (.attempt hlocal (.attempt hsend (.done _))))⟩

/-- All take the clear lock for the member that clears. -/
theorem yields_obtainAll (hk : k.member = s.member) :
    ∃ ids', Yields (Coordinator.obtainAll (c.surroundings l) event).run k
      (c.amid l s id id grantor ids) (.ok ()) { k with lock := ⟨some k.member⟩ }
      (c.amid l s (·.held k.member) (·.lockedFor k.member) grantor ids') := by
  have hcalm := h.share l s hs
  have hm : c.isCurrent k.member = true := by
    rw [hk]
    exact hlive
  have hhere : (c.amid l s id id grantor ids).share? l = some s := share?_amid_own hs
  have hobtain := yields_obtainLocal (c := c) (k := k) hhere hcalm.store hm
  rw [modifyStore, amid_modifyShare] at hobtain
  obtain ⟨ids', hlock⟩ := yields_send (·.held k.member) id grantor ids
    (k := { k with lock := ⟨some k.member⟩ }) h hs hlive (hk.trans hcalm.coordinator.symm) rfl
    (fun id n => served_lock id hm hregion) fun s' hs' => ⟨hs', rfl⟩
  exact ⟨ids', .get_attempt fun effects => .attempt (.sure hobtain) (.attempt hlock (.done ()))⟩

/-- All give the clear lock up. -/
theorem yields_releaseAll (own asked : Share → Share) (hk : k.member = s.coordinator.member)
    (hlock : k.lock.isLocked = true) (hown : (own s).member = s.member)
    (hasked : ∀ s', s'.Calm c.config → (asked s').coordinator.lock.isLocked = true ∧
      (asked s').coordinator.member = s'.coordinator.member) :
    ∃ ids', Yields (Coordinator.releaseAll (c.surroundings l) event).run k
      (c.amid l s own asked grantor ids) (.ok ()) { k with lock := {} }
      (c.amid l s (fun s' => (own s').letGo) (fun s' => (asked s').released) grantor ids') := by
  have hhere : (c.amid l s own asked grantor ids).share? l = some (own s) := share?_amid_own hs
  have hrelease := yields_releaseLocal (c := c) hhere hlock
  rw [modifyStore, amid_modifyShare] at hrelease
  obtain ⟨ids', hunlock⟩ := yields_send (fun s' => (own s').letGo) asked grantor ids
    (k := { k with lock := {} }) h hs hlive hk hown (fun id n => served_unlock id hregion) hasked
  exact ⟨ids', .attempt (.sure hrelease) (.attempt hunlock (.done ()))⟩

/-- Nobody sees from the end of a clear whether it took the clear lock. -/
theorem yields_clearWhileLocked (hk : k.member = s.member) (hunlocked : k.lock = {})
    (hveto : s.writer event = none) :
    ∃ ids', Yields (Coordinator.clearWhileLocked (c.surroundings l) (n + 1) event true).run k
      (c.amid l s id id grantor ids) (.ok (c.clearedIds s))
      { k with phase := .clearing, membershipChanged := false }
      (c.amid l s (·.cleared.told event) (·.clearedFor event.toRemote) grantor ids') := by
  have hcalm := h.share l s hs
  have hk' : k.member = s.coordinator.member := hk.trans hcalm.coordinator.symm
  have hwriter : (id s).writer event = none := hveto
  cases htell : Coordinator.mustTell (c.surroundings l) (c.amid l s id id grantor ids) with
  | false =>
    obtain ⟨ids', hclear⟩ := yields_assignAndClear h hs hlive hregion n grantor ids id id hk'
      hcalm.ready fun s' hs' => hs'.ready
    refine ⟨ids', .attempt (yields_askWriter hs hwriter) (.get_attempt fun effects => ?_)⟩
    simp only [htell, Bool.false_eq_true, if_false]
    exact hclear
  | true =>
    let m := k.member
    obtain ⟨ids₁, hobtain⟩ := yields_obtainAll h hs hlive hregion grantor ids hk
    obtain ⟨ids₂, hclear⟩ := yields_assignAndClear h hs hlive hregion n grantor ids₁ (·.held m)
      (·.lockedFor m) (k := { k with lock := ⟨some m⟩ }) hk' (hcalm.ready_held m)
      fun s' hs' => hs'.ready_locked m
    obtain ⟨ids₃, hrelease⟩ := yields_releaseAll h hs hlive hregion grantor ids₂
      (fun s' => (s'.held m).cleared.told event)
      (fun s' => (s'.lockedFor m).clearedFor event.toRemote)
      (k := { k with lock := ⟨some m⟩, phase := .clearing, membershipChanged := false }) hk' rfl
      (Share.member_told event _) fun s' _ => ⟨rfl, rfl⟩
    have hend : c.amid l s (fun s' => ((s'.held m).cleared.told event).letGo)
        (fun s' => ((s'.lockedFor m).clearedFor event.toRemote).released) grantor ids₃ =
          c.amid l s (·.cleared.told event) (·.clearedFor event.toRemote) grantor ids₃ :=
      amid_congr hs (hcalm.letGo_held m event) fun l' s' hs' _ =>
        (h.share l' s' hs').released_lockedFor m event.toRemote
    rw [hend] at hrelease
    refine ⟨ids₃, .attempt (yields_askWriter hs hwriter) (.get_attempt fun effects => ?_)⟩
    simp only [htell, if_true, hunlocked]
    exact .attempt (.outcome (.attempt hobtain hclear)) (.attempt (.outcome hrelease)
      (.attempt (.ofExcept (.ok _)) (.attempt (.ofExcept (.ok _)) (.done _))))

end

/-! ## The whole clear -/

/-- What a clear answers that has come to an end: the ids, if they are all there are. -/
def clearAnswer (c : Cluster) : Except ClearError (List Nat) → Except ClearError (List Nat)
  | .ok ids => if ids.eraseDups.length == c.config.totalBuckets then .ok ids
    else .error (.incomplete c.name)
  | .error e => .error e

/-- The clear takes the lock of the region first, and gives it back last. -/
theorem yields_doClear (h : c.Calm) (hs : c.share? l = some s) (rounds : Nat)
    {r : Except ClearError (List Nat)} {k' : Coordinator} {ids' : Nat}
    (hclear : Yields (Coordinator.clearWhileLocked (c.surroundings l) rounds event true).run
      { s.coordinator with phase := .lockAcquired } (c.amid l s id id (c.lockedBy s) c.ids) r k'
      (c.amid l s own asked (c.lockedBy s) ids'))
    (hown : (own s).member = s.member)
    (hphase : k'.phase = if r.toBool then .clearing else .lockAcquired) :
    Yields (Coordinator.doClear (c.surroundings l) rounds event true).run s.coordinator c
      (c.clearAnswer r)
      { k' with phase := if (c.clearAnswer r).toBool then .done else .partialFailure }
      (c.amid l s own asked (c.unlockedBy s) ids') := by
  have hacquire := yields_acquireLock (k := { s.coordinator with phase := .idle }) id c.ids h hs rfl
  rw [amid_start] at hacquire
  have hrelease := yields_releaseLock (k := k') asked ids' hs hown
  refine .attempt (.sure (.advance _)) (.attempt hacquire (.attempt (.sure (.advance _))
    (.attempt (.outcome hclear) (.get_attempt fun effects => ?_))))
  cases r with
  | error e =>
    rw [if_neg (by rw [hphase]; exact Bool.false_ne_true)]
    refine .attempt (.outcome hrelease) (.get_attempt fun effects => ?_)
    rw [if_pos (by rw [hphase]; rfl)]
    exact .attempt (.sure (.advance _)) (.attempt (.sure (.advance _)) (.thrown e))
  | ok ids =>
    rw [if_neg (by exact Bool.false_ne_true)]
    refine .attempt (.outcome hrelease) (.get_attempt fun effects => ?_)
    rw [if_pos (by rw [hphase]; rfl)]
    refine .attempt (.sure (.advance _)) ?_
    cases hcover : ids.eraseDups.length == c.config.totalBuckets with
    | true =>
      have hcover' : Coordinator.coversRegion (c.surroundings l) ids = true := hcover
      simp only [clearAnswer, hcover, hcover', if_true]
      exact .attempt (.sure (.advance _)) (.done ids)
    | false =>
      have hcover' : Coordinator.coversRegion (c.surroundings l) ids = false := hcover
      simp only [clearAnswer, hcover, hcover', Bool.false_eq_true, if_false]
      exact .attempt (.sure (.advance _)) (.thrown _)

/-- The event of a clear that a share starts. -/
def clearEventOf (c : Cluster) (s : Share) : RegionEvent :=
  .clear ⟨BitVec.ofNat 128 c.ids⟩ c.name s.member none

/-- What a clear leaves of a cluster: what became of the share that clears and of those it asks.
Nobody holds a lock. -/
structure Left (c : Cluster) (l : String) (s : Share) (own asked : Share → Share) (c' : Cluster) :
    Prop where
  amid : ∃ grantor ids, c' = c.amid l s own asked grantor ids
  free : ∀ name, c'.grantor.grants.find? name = none

theorem Calm.regranted (h : c.Calm) {grantor : LockGrantor}
    (hfree : ∀ name, grantor.grants.find? name = none) (ids : Nat) : Calm { c with grantor, ids } := by
  have hstaffed : Staffed (·.Calm c.config) { c with grantor, ids } :=
    h.staffed.of_same rfl rfl rfl (fun _ => rfl) fun l s hs => ⟨h.share l s hs, h.staffed.owned l s hs⟩
  exact hstaffed.calm rfl h.running hfree

theorem Calm.newId (h : c.Calm) : c.newId.2.Calm := h.regranted h.free (c.ids + 1)

/-- A clear ends as the work of the coordinator under the lock of the region does. -/
theorem Calm.clear_eq (h : c.Calm) (hs : c.share? l = some s) {r : Except ClearError (List Nat)}
    {k' : Coordinator} {ids' : Nat}
    (hclear : Yields (Coordinator.clearWhileLocked (c.newId.2.surroundings l) rounds
        (c.clearEventOf s) true).run { s.coordinator with phase := .lockAcquired }
      (c.newId.2.amid l s id id (c.lockedBy s) c.newId.2.ids) r k'
      (c.newId.2.amid l s own asked (c.lockedBy s) ids'))
    (hown : (own s).member = s.member)
    (hphase : k'.phase = if r.toBool then .clearing else .lockAcquired) :
    ∃ k c', c.clear l = some (c.clearAnswer r, c') ∧
      c.Left l s (fun s' => { own s' with coordinator := k }) asked c' ∧
      k.member = k'.member ∧ k.lock = k'.lock := by
  have hs' : c.newId.2.share? l = some s := hs
  have hdo := yields_doClear h.newId hs' rounds hclear hown hphase
  have hrun : c.clear l = c.newId.2.coordinate l (Coordinator.doClear (c.newId.2.surroundings l)
      rounds (c.clearEventOf s) true).run := by
    simp only [clear, clearWith, clearEvent, hs, bind, Option.bind]
    rfl
  rw [coordinate_eq hs' hdo] at hrun
  exact ⟨_, _, hrun, ⟨⟨_, _, amid_modifyShare _⟩, h.unlockedBy_free s⟩, rfl, rfl⟩

/-- A clear that the writer lets pass clears every share that is there. -/
theorem Calm.clear_passed (h : c.Calm) (hs : c.share? l = some s)
    (hlive : c.isCurrent s.member = true) (hveto : s.writer (c.clearEventOf s) = none) :
    ∃ k c', c.clear l = some (c.clearAnswer (.ok (c.clearedIds s)), c') ∧
      c.Left l s (fun s' => { s'.cleared.told (c.clearEventOf s) with coordinator := k })
        (·.clearedFor (c.clearEventOf s).toRemote) c' ∧
      k.member = s.coordinator.member ∧ k.lock = {} := by
  have hcalm := h.share l s hs
  have hs' : c.newId.2.share? l = some s := hs
  have hregion : (c.clearEventOf s).region = c.newId.2.name := rfl
  obtain ⟨ids', hclear⟩ := yields_clearWhileLocked
    (k := { s.coordinator with phase := .lockAcquired }) h.newId hs' hlive hregion 999999
    (c.lockedBy s) c.newId.2.ids hcalm.coordinator hcalm.unlocked hveto
  obtain ⟨k, c', hrun, hleft, hmember, hlock⟩ := h.clear_eq hs hclear (Share.member_told _ _) rfl
  exact ⟨k, c', hrun, hleft, hmember, hlock.trans hcalm.unlocked⟩

/-- A clear that the writer does not let pass changes no share but for what its coordinator
remembers. -/
theorem Calm.clear_vetoed (h : c.Calm) (hs : c.share? l = some s) {reason : String}
    (hveto : s.writer (c.clearEventOf s) = some reason) :
    ∃ k c', c.clear l = some (.error (.cacheWriter reason), c') ∧
      c.Left l s (fun s' => { s' with coordinator := k }) id c' ∧
      k.member = s.coordinator.member ∧ k.lock = {} := by
  have hs' : c.newId.2.share? l = some s := hs
  have hwriter : (id s).writer (c.clearEventOf s) = some reason := hveto
  obtain ⟨k, c', hrun, hleft, hmember, hlock⟩ :=
    h.clear_eq hs (.fail (yields_askWriter_vetoed hs' hwriter)) rfl rfl
  exact ⟨k, c', hrun, hleft, hmember, hlock.trans (h.share l s hs).unlocked⟩

end Cluster
end DataGrid
