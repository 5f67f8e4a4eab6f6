import DataGrid.Cluster.Clear
import DataGrid.Proofs.Clear.Acts
import DataGrid.Proofs.Cluster.Share

/-
The part that one share has in a clear. Whatever its coordinator does changes
that share only, so that each act comes to `modifyShare`: locking, clearing and
releasing all buckets, and telling clients and listeners.
-/

namespace DataGrid

namespace Cluster

variable {c o : Cluster} {l : String} {s : Share}

theorem share?_modifyShare (c : Cluster) (l l' : String) (f : Share → Share) :
    (c.modifyShare l f).share? l' = if l' = l then (c.share? l').map f else c.share? l' :=
  OrdMap.find?_modify _ _ _ _

theorem modifyShare_modifyShare (c : Cluster) (l : String) (f g : Share → Share) :
    (c.modifyShare l f).modifyShare l g = c.modifyShare l fun s => g (f s) := by
  simp only [modifyShare, OrdMap.modify_modify]

theorem modifyShare_congr {f g : Share → Share} (hs : c.share? l = some s) (h : f s = g s) :
    c.modifyShare l f = c.modifyShare l g := by
  unfold modifyShare
  rw [OrdMap.modify_congr fun v hv => ?_]
  have he : c.share? l = some v := hv
  rw [hs] at he
  cases he
  exact h

theorem modifyShare_self {f : Share → Share} (hs : c.share? l = some s) (h : f s = s) :
    c.modifyShare l f = c := by
  unfold modifyShare
  rw [OrdMap.modify_self fun v hv => ?_]
  have he : c.share? l = some v := hv
  rw [hs] at he
  cases he
  exact h

theorem bucket?_eq (hs : o.share? l = some s) (id : Nat) : o.bucket? l id = s.store.bucket? id := by
  simp only [Cluster.bucket?, hs, Option.bind_some]

theorem bucket?_modifyBucket_other {id id' : Nat} (hne : id' ≠ id) (f : Bucket → Bucket) :
    (o.modifyBucket l id f).bucket? l id' = o.bucket? l id' := by
  simp only [Cluster.bucket?, modifyBucket, modifyStore, share?_modifyShare, if_true]
  cases o.share? l with
  | none => rfl
  | some s =>
    simp only [Option.map_some, Option.bind_some, BucketStore.bucket?, OrdMap.find?_modify, hne,
      if_false]

/-- What a share hosts is found under its label. -/
theorem hosted_bucket? (hs : o.share? l = some s) {id : Nat} (hid : id ∈ s.store.ids) :
    ∃ b, s.store.bucket? id = some b ∧ o.bucket? l id = some b := by
  obtain ⟨b, hb⟩ := Option.isSome_iff_exists.1 (BucketStore.mem_ids.1 hid)
  exact ⟨b, hb, by rw [bucket?_eq hs, hb]⟩

theorem buckets_site (hs : o.share? l = some s) :
    (c.site l).buckets o = some ⟨s.store.ids, s.store.primaries.map Bucket.id⟩ := by
  simp only [site, hs, Option.map_some]

/-- What the coordinator of a share does, it does to the cluster around the share. -/
theorem coordinate_eq {α : Type} {work : Act Cluster α} {a : α} {k' : Coordinator} {o' : Cluster}
    (hs : c.share? l = some s) (h : Yields work s.coordinator c a k' o') :
    c.coordinate l work =
      some (a, o'.modifyShare l fun s => { s with coordinator := k' }) := by
  obtain ⟨effects, hw⟩ := h []
  simp only [coordinate, hs, hw, bind, Option.bind]
  rfl

theorem settled_site (c : Cluster) (l : String) : (c.site l).Settled := fun _ => rfl

/-! ## One bucket after the other -/

section

variable {k : Coordinator} {f : Bucket → Bucket} (allowed : Bucket → Prop)

theorem modifyStore_modifyBucket {id : Nat} {ids : List Nat} (hid : id ∉ ids) :
    (o.modifyBucket l id f).modifyStore l (.mapOn ids f) = o.modifyStore l (.mapOn (id :: ids) f) := by
  simp only [modifyBucket, modifyStore, modifyShare_modifyShare, BucketStore.mapOn_modify hid]

theorem modifyStore_nil : o.modifyStore l (.mapOn [] f) = o := by
  simp only [modifyStore, modifyShare]
  rw [OrdMap.modify_self fun s _ => ?_]
  rw [BucketStore.mapOn_nil]

theorem yields_each {act : Nat → Act Cluster Unit}
    (hact : ∀ id o b, o.bucket? l id = some b → allowed b →
      Yields (act id) k o () k (o.modifyBucket l id f)) :
    ∀ (ids : List Nat) (o : Cluster), ids.Nodup →
      (∀ id ∈ ids, ∃ b, o.bucket? l id = some b ∧ allowed b) →
      Yields (ids.forM act) k o () k (o.modifyStore l (.mapOn ids f))
  | [], o, _, _ => by
    rw [modifyStore_nil]
    exact .pure ()
  | id :: ids, o, hn, hall => by
    obtain ⟨hid, hn⟩ := List.nodup_cons.1 hn
    obtain ⟨b, hb, hallowed⟩ := hall id List.mem_cons_self
    rw [← modifyStore_modifyBucket hid]
    refine .bind (hact id o b hb hallowed) (yields_each hact ids _ hn fun id' hid' => ?_)
    have hne : id' ≠ id := fun he => hid (by rw [← he]; exact hid')
    rw [bucket?_modifyBucket_other hne]
    exact hall id' (List.mem_cons_of_mem _ hid')

theorem yields_eachId {act : Nat → Attempt Cluster Nat}
    (hact : ∀ id o, Yields (act id).run k o (.ok id) k (o.modifyBucket l id f)) :
    ∀ (ids : List Nat) (o : Cluster), ids.Nodup →
      Yields (ids.mapM act).run k o (.ok ids) k (o.modifyStore l (.mapOn ids f))
  | [], o, _ => by
    rw [modifyStore_nil, List.mapM_nil]
    exact .done []
  | id :: ids, o, hn => by
    obtain ⟨hid, hn⟩ := List.nodup_cons.1 hn
    rw [← modifyStore_modifyBucket hid, List.mapM_cons]
    exact .attempt (hact id o) (.attempt (yields_eachId hact ids _ hn) (.done _))

end

theorem modifyStore_ids (hs : o.share? l = some s) (f : Bucket → Bucket) :
    o.modifyStore l (.mapOn s.store.ids f) = o.modifyStore l (.mapAll f) :=
  modifyShare_congr hs (by rw [BucketStore.mapOn_ids])

/-! ## What a call may change

Whatever the state of the cluster, and whether the call succeeds. -/

/-- A bucket that is not here is not locked. -/
theorem lockBucket_cases {id : Nat} {m : Member} {c' : Cluster}
    (h : (c.site l).lockBucket id m o = some c') :
    (o.bucket? l id = none ∧ c' = o) ∨ ∃ b b', o.bucket? l id = some b ∧
      b.lockForClear? m = some b' ∧ c' = o.modifyBucket l id fun _ => b' := by
  simp only [site] at h
  split at h
  next hb =>
    cases h
    exact .inl ⟨hb, rfl⟩
  next b hb =>
    obtain ⟨b', hlock, rfl⟩ := Option.map_eq_some_iff.1 h
    exact .inr ⟨b, b', hb, hlock, rfl⟩

theorem lockCreation_cases {c' : Cluster} (h : (c.site l).lockCreation o = some c') :
    (o.share? l = none ∧ c' = o) ∨ ∃ s store, o.share? l = some s ∧
      s.store.lockCreation? = some store ∧ c' = o.modifyStore l fun _ => store := by
  simp only [site] at h
  split at h
  next hs =>
    cases h
    exact .inl ⟨hs, rfl⟩
  next s hs =>
    obtain ⟨store, hlock, rfl⟩ := Option.map_eq_some_iff.1 h
    exact .inr ⟨s, store, hs, hlock, rfl⟩

theorem grantor_of_lock {name : String} {wait lease : Option Nat} {answer : Except LockError Unit}
    {c' : Cluster} (h : lock l name wait lease c = some (answer, c')) :
    ∃ grantor, c' = { c with grantor } := by
  obtain ⟨s, -, h⟩ := Option.bind_eq_some_iff.1 h
  split at h
  next grantor _ =>
    cases h
    exact ⟨grantor, rfl⟩
  next =>
    cases h
    exact ⟨c.grantor, rfl⟩
  next => cases h

theorem grantor_of_unlock (l name : String) (c : Cluster) :
    ∃ grantor, (unlock l name c).2 = { c with grantor } := by
  unfold unlock
  split
  next => exact ⟨c.grantor, rfl⟩
  next =>
    split
    next grantor _ => exact ⟨grantor, rfl⟩
    next => exact ⟨c.grantor, rfl⟩

theorem askWriter_same (l : String) (event : RegionEvent) (c : Cluster) :
    (askWriter l event c).2 = c := by
  unfold askWriter
  split <;> rfl

/-! ## The clear lock -/

/-- The bucket while a clear holds it for a member. -/
def lockedFor (m : Member) (b : Bucket) : Bucket := { b with gate := ⟨some m, []⟩ }

section

variable {k : Coordinator} {config : BucketConfig} {m : Member}

theorem lockBucket_eq {id : Nat} {b : Bucket} (hb : o.bucket? l id = some b) (hgate : b.gate = {}) :
    (c.site l).lockBucket id m o = some (o.modifyBucket l id (lockedFor m)) := by
  have hlock : b.lockForClear? m = some (lockedFor m b) := by
    simp only [Bucket.lockForClear?, hgate, ClearGate.close?, Option.map_some, lockedFor]
  simp only [site, hb, hlock, Option.map_some, Option.some.injEq]
  obtain ⟨s, hs, hb⟩ := Option.bind_eq_some_iff.1 hb
  have hsame : (s.store.buckets.modify id fun _ => lockedFor m b) =
      s.store.buckets.modify id (lockedFor m) := by
    refine OrdMap.modify_congr fun v hv => ?_
    have he : s.store.bucket? id = some v := hv
    rw [hb] at he
    cases he
    rfl
  exact modifyShare_congr hs (by simp only [hsame])

theorem yields_obtainLocal (hs : o.share? l = some s) (h : s.store.Calm config)
    (hm : o.isCurrent m = true) :
    Yields (Coordinator.obtainLocal (c.site l) m) k o () { k with lock := ⟨some m⟩ }
      (o.modifyStore l (.mapAll (lockedFor m))) := by
  have heach : Yields (s.store.ids.forM fun id => Coordinator.call (.bucketLocked id m) fun o =>
        ((c.site l).lockBucket id m o).map ((), ·)) { k with lock := ⟨some m⟩ } o ()
      { k with lock := ⟨some m⟩ } (o.modifyStore l (.mapOn s.store.ids (lockedFor m))) := by
    refine yields_each (fun b => b.gate = {}) (fun id o b hb hgate => .call _ ?_) s.store.ids o
      s.store.nodup_ids fun id hid => ?_
    · rw [lockBucket_eq hb hgate]
      rfl
    · obtain ⟨b, hb, hfound⟩ := hosted_bucket? hs hid
      exact ⟨b, hfound, (h.bucket id b hb).gate⟩
  rw [modifyStore_ids hs] at heach
  refine .get_bind fun effects => .ite (fun _ => .bind (.alter _) ?_) fun hno => absurd hm hno
  rw [buckets_site hs, h.primaries]
  exact heach

theorem yields_releaseLocal (hs : o.share? l = some s) (hk : k.lock.isLocked = true) :
    Yields (Coordinator.releaseLocal (c.site l)) k o () { k with lock := {} }
      (o.modifyStore l (.mapAll Bucket.releaseForClear)) := by
  have heach : Yields (s.store.ids.forM fun id =>
        Coordinator.perform (.bucketReleased id) ((c.site l).releaseBucket id)) k o () k
      (o.modifyStore l (.mapOn s.store.ids Bucket.releaseForClear)) := by
    refine yields_each (fun _ => True) (fun id o b _ _ => .perform _ _) s.store.ids o
      s.store.nodup_ids fun id hid => ?_
    obtain ⟨b, -, hfound⟩ := hosted_bucket? hs hid
    exact ⟨b, hfound, trivial⟩
  rw [modifyStore_ids hs] at heach
  refine .get_bind fun effects => .ite (fun _ => ?_) fun hno => absurd hk hno
  rw [buckets_site hs]
  exact .bind heach (.alter _)

end

end Cluster

/-! ## Clearing -/

/-- The member leads all buckets of the store, in a clear or not. -/
structure BucketStore.Led (s : BucketStore) : Prop where
  primaries : s.primaries.map Bucket.id = s.ids
  hasPrimary : ∀ id b, s.bucket? id = some b → b.advisor.hasPrimary = true

theorem BucketStore.Calm.led {config : BucketConfig} {s : BucketStore} (h : s.Calm config) : s.Led :=
  ⟨h.primaries, fun id b hb => (h.bucket id b hb).leading.hasPrimary⟩

/-- Who leads a bucket does not depend on its gate. -/
theorem BucketStore.Calm.led_locked {config : BucketConfig} {s : BucketStore} (h : s.Calm config)
    (m : Member) : (s.mapAll (Cluster.lockedFor m)).Led := by
  refine ⟨?_, fun id b hb => ?_⟩
  · have hall : (s.mapAll (Cluster.lockedFor m)).primaries.map Bucket.id =
        s.primaries.map Bucket.id := by
      simp only [BucketStore.primaries, BucketStore.all, BucketStore.mapAll, OrdMap.values,
        OrdMap.mapValues, List.map_map, List.filter_map]
      rfl
    rw [hall, h.primaries, ids_mapAll]
  · rw [bucket?_mapAll] at hb
    obtain ⟨b', hb', rfl⟩ := Option.map_eq_some_iff.1 hb
    exact (h.bucket id b' hb').leading.hasPrimary

namespace Share

/-- The share once the clients that want to know have been told of an event. -/
def toldClients (event : RegionEvent) (s : Share) : Share :=
  if s.clients.isEmpty then s else s.tellClients { event with clients := some s.clients }

/-- The share once its listeners, if there are any, have been told of an event. -/
def toldListeners (event : RegionEvent) (s : Share) : Share :=
  if 0 < s.listeners then s.tellListeners event else s

/-- The share once all that want to know have been told of an event. -/
def told (event : RegionEvent) (s : Share) : Share := (s.toldClients event).toldListeners event

/-- What an event has wait for the clients of a share. -/
def noticesOf (event : RegionEvent) (s : Share) : List ClientNotification :=
  s.clients.toList.map fun client => ⟨client, { event with clients := some s.clients }⟩

/-- What the listeners of a share hear of an event. -/
def hearingsOf (event : RegionEvent) (s : Share) : List Hearing :=
  (List.range s.listeners).map fun listener => ⟨listener, event⟩

/-- Where nobody wants to know, telling everybody changes nothing. -/
theorem told_eq (event : RegionEvent) (s : Share) :
    s.told event = { s with
      hearings := s.hearings ++ s.hearingsOf event
      notifications := s.notifications ++ s.noticesOf event } := by
  have hclients : s.toldClients event =
      { s with notifications := s.notifications ++ s.noticesOf event } := by
    unfold toldClients
    split
    next he =>
      have hnobody : s.clients.toList = [] := by
        simpa [OrdSet.isEmpty, OrdSet.size, OrdMap.size, OrdSet.toList, OrdMap.keys] using he
      simp only [noticesOf, hnobody, List.map_nil, List.append_nil]
    next => rfl
  simp only [told, hclients, toldListeners]
  split
  next => rfl
  next hn =>
    have hnobody : s.listeners = 0 := by omega
    simp only [hearingsOf, hnobody, List.range_zero, List.map_nil, List.append_nil]

theorem member_told (event : RegionEvent) (s : Share) : (s.told event).member = s.member := by
  rw [told_eq]
  rfl

end Share

namespace Cluster

variable {c o : Cluster} {l : String} {s : Share} {k : Coordinator}

theorem yields_allHavePrimary : ∀ ids : List Nat,
    (∀ id ∈ ids, (o.bucket? l id).any (·.advisor.hasPrimary) = true) →
    Yields (Coordinator.allHavePrimary (c.site l) ids) k o true k o
  | [], _ => .pure true
  | id :: ids, h =>
    .bind (.consult (settled_site c l) _ (congrArg some
        (show ((o.bucket? l id).any _, o) = (true, o) by rw [h id List.mem_cons_self])))
      (yields_allHavePrimary ids fun id' hid' => h id' (List.mem_cons_of_mem _ hid'))

/-- Buckets that are led are not waited for. -/
theorem yields_awaitPrimaries {τ : Type} (timer : RetryTimer τ) (t : τ) (rounds : Nat)
    (hs : o.share? l = some s) (h : s.store.Led) :
    Yields (Coordinator.awaitPrimaries (c.site l) timer (rounds + 1) t) k o (true, t) k o := by
  refine .get_bind fun effects => ?_
  rw [buckets_site hs, h.primaries]
  refine .bind (yields_allHavePrimary _ fun id hid => ?_) (.pure _)
  obtain ⟨b, hb, hfound⟩ := hosted_bucket? hs hid
  rw [hfound]
  exact h.hasPrimary id b hb

theorem yields_clearPrimaries (hs : o.share? l = some s) (h : s.store.Led) :
    Yields (Coordinator.clearPrimaries (c.site l)).run k o (.ok s.store.ids) k
      (o.modifyStore l (.mapAll (·.clear.2))) := by
  have hone : ∀ id o, Yields (show Attempt Cluster Nat from do
      sure (Coordinator.consult (c.site l) (.bucketCleared id) fun o =>
        some ((), (c.site l).clearBucket id o))
      return id).run k o (.ok id) k (o.modifyBucket l id (·.clear.2)) := fun id o => by
    have hclear : (c.site l).clearBucket id o = o.modifyBucket l id (·.clear.2) := rfl
    refine .attempt (.sure (.consult (settled_site c l) _ rfl)) ?_
    rw [hclear]
    exact .done id
  have heach := yields_eachId hone s.store.ids o s.store.nodup_ids
  rw [modifyStore_ids hs] at heach
  refine .get_attempt fun effects => ?_
  rw [buckets_site hs, h.primaries]
  exact heach

theorem yields_waitForPrimaries {τ : Type} (timer : RetryTimer τ) (t : τ) (rounds : Nat)
    (hs : o.share? l = some s) (h : s.store.Led) :
    Yields (Coordinator.waitForPrimaries (c.site l) timer (rounds + 1) t).run k o (.ok t) k o :=
  .attempt (.sure (yields_awaitPrimaries timer t rounds hs h)) (.done t)

theorem yields_clearPass (rounds : Nat) (hs : o.share? l = some s) (h : s.store.Led) :
    Yields (Coordinator.clearPass (c.site l) (rounds + 1)).run k o (.ok s.store.ids) k
      (o.modifyStore l (.mapAll (·.clear.2))) :=
  .get_attempt fun _ =>
    .attempt (yields_waitForPrimaries _ _ rounds hs h) (yields_clearPrimaries hs h)

theorem yields_clearUntilStable (rounds passes : Nat) (hs : o.share? l = some s) (h : s.store.Led)
    (hk : k.membershipChanged = false) :
    Yields (Coordinator.clearUntilStable (c.site l) (rounds + 1) (passes + 1)).run k o
      (.ok s.store.ids) k (o.modifyStore l (.mapAll (·.clear.2))) := by
  have hlook : Yields Coordinator.takeMembershipChange k
      (o.modifyStore l (.mapAll (·.clear.2))) false k (o.modifyStore l (.mapAll (·.clear.2))) := by
    refine .get_bind fun effects => .bind (.alter _) ?_
    have hsame : { k with membershipChanged := false } = k := by
      rw [← hk]
    rw [hsame]
    simp only [hk]
    exact .pure false
  exact .attempt (yields_clearPass rounds hs h) (.attempt (.sure hlook) (.done _))

/-- Only the share of the label changes, as the function says. -/
theorem share?_modifyShare_self (hs : o.share? l = some s) (f : Share → Share) :
    (o.modifyShare l f).share? l = some (f s) := by
  rw [share?_modifyShare, if_pos rfl, hs]
  rfl

theorem yields_tellListeners (hs : o.share? l = some s) (event : RegionEvent) :
    Yields (do
      if (c.site l).hasListener (← get).outside then
        Coordinator.consult (c.site l) (.listenersTold event) fun o =>
          some ((), (c.site l).tellListeners event o)) k o () k
      (o.modifyShare l (·.toldListeners event)) := by
  refine .get_bind fun effects => .ite (fun hl => ?_) fun hl => ?_
  · have hpos : 0 < s.listeners := by simpa [site, hs] using hl
    have htold : s.toldListeners event = s.tellListeners event := if_pos hpos
    rw [modifyShare_congr hs htold]
    exact .consult (settled_site c l) _ rfl
  · have hpos : ¬ 0 < s.listeners := by simpa [site, hs] using hl
    have htold : s.toldListeners event = s := if_neg hpos
    rw [modifyShare_self hs htold]
    exact .pure ()

theorem yields_tellAfterClear (hs : o.share? l = some s) (event : RegionEvent) :
    Yields (Coordinator.tellAfterClear (c.site l) event) k o () k (o.modifyShare l (·.told event)) := by
  have hclients : (c.site l).clients o = s.clients := by
    simp only [site, hs, Option.map_some, Option.getD_some]
  have hsplit : o.modifyShare l (·.told event) =
      (o.modifyShare l (·.toldClients event)).modifyShare l (·.toldListeners event) :=
    (modifyShare_modifyShare o l (·.toldClients event) (·.toldListeners event)).symm
  have hlisteners := yields_tellListeners (c := c) (k := k)
    (share?_modifyShare_self hs (·.toldClients event)) event
  rw [hsplit]
  refine .get_bind fun effects => ?_
  simp only [hclients]
  refine .ite (fun hc => ?_) fun hc => ?_
  · have htold : s.toldClients event = s.tellClients { event with clients := some s.clients } :=
      if_neg (by simpa using hc)
    rw [modifyShare_congr hs htold] at hlisteners ⊢
    exact .bind (.consult (settled_site c l) _ rfl) hlisteners
  · have htold : s.toldClients event = s := if_pos (by simpa using hc)
    rw [modifyShare_self hs htold] at hlisteners ⊢
    exact hlisteners

/-- The share is cleared between locking and unlocking the creation of buckets. -/
theorem cleared_unlocked {g : ClearGate} (hg : g.waiting = []) (hs : s.store.creationGate = {}) :
    { s with store :=
        (BucketStore.mapAll (·.clear.2) { s.store with creationGate := g }).unlockCreation } =
      s.cleared := by
  obtain ⟨store, _, _, _, _, _, _⟩ := s
  obtain ⟨_, _, _, _, _⟩ := store
  obtain ⟨holder, waiting⟩ := g
  simp only at hg hs
  subst hg hs
  rfl

theorem yields_clearLocal (n : Nat) (hs : o.share? l = some s) (h : s.store.Led)
    (hcreate : s.store.creationGate = {}) (event : RegionEvent) :
    Yields (Coordinator.clearLocal (c.site l) (n + 1) event).run k o (.ok s.store.ids)
      { k with membershipChanged := false } (o.modifyShare l (·.cleared.told event)) := by
  let locked : BucketStore := { s.store with creationGate := ⟨some s.store.member, []⟩ }
  have hlock : (c.site l).lockCreation o = some (o.modifyStore l fun _ => locked) := by
    simp only [site, hs, BucketStore.lockCreation?, hcreate, ClearGate.close?, Option.map_some, locked]
  have hs₁ : (o.modifyStore l fun _ => locked).share? l = some { s with store := locked } :=
    share?_modifyShare_self hs _
  have hled : locked.Led := ⟨h.primaries, h.hasPrimary⟩
  have hs₂ := share?_modifyShare_self hs₁
    (fun s => { s with store := s.store.mapAll (·.clear.2) })
  have hs₃ := share?_modifyShare_self hs₂
    (fun s => { s with store := s.store.unlockCreation })
  -- unlocking the creation of buckets undoes its lock
  have hend : o.modifyShare l (·.cleared.told event) =
      ((((o.modifyStore l fun _ => locked).modifyStore l (.mapAll (·.clear.2))).modifyStore l
        BucketStore.unlockCreation).modifyShare l (·.told event)) := by
    simp only [modifyStore, modifyShare_modifyShare]
    refine modifyShare_congr hs ?_
    exact congrArg (Share.told event) (cleared_unlocked rfl hcreate).symm
  rw [hend]
  refine .attempt (.sure (.alter _)) (.get_attempt fun effects => ?_)
  rw [buckets_site hs]
  refine .attempt (.sure (.consult (settled_site c l) _ (by rw [hlock]; rfl))) ?_
  refine .attempt (.outcome (yields_clearUntilStable n n hs₁ hled rfl)) ?_
  refine .attempt (.sure (.consult (settled_site c l) _ rfl)) ?_
  exact .attempt (.ofExcept (.ok _)) (.attempt (.sure (yields_tellAfterClear hs₃ event)) (.done _))

end Cluster
end DataGrid
