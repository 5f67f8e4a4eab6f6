import DataGrid.Proofs.Clear.Conduct
import DataGrid.Proofs.Clear.Whole
import DataGrid.Proofs.Cluster.Gates

/-
Shares that are guarded: whoever holds the clear lock is there, and the gates are
closed only while the lock is held (`Cluster.GuardedAt`). The work of coordinators
keeps them so.

Where a coordinator is at work its share has yet to get it back, so the work is
judged by the cluster with the coordinator put back (`around`). Work at other
shares spares a share (`Elsewhere`), except that messages may make it work itself;
its own work keeps it guarded (`Guards`), and sends it no messages, since no clear
has the member that it is for among its recipients.
-/

namespace DataGrid

/-- An act that is known to end as said leaves what it is said to leave. -/
theorem Yields.ensures {σ α : Type} {work : Act σ α} {s : Scene σ} {a : α} {k : Coordinator} {o : σ}
    (h : Yields work s.coordinator s.outside a k o) (hw : Comes work s fun _ _ _ => True) :
    Ensures work s fun _ _ s' => s'.coordinator = k ∧ s'.outside = o := fun a' s' hrun => by
  obtain ⟨es, he, -⟩ := hw.ensures a' s' hrun
  obtain ⟨effects, hy⟩ := h s.effects
  cases hrun.symm.trans hy
  exact ⟨es, he, rfl, rfl⟩

/-- Nobody waits for the gate, and it is closed only while the clear lock is held. -/
structure ClearGate.Tended (locked : Bool) (g : ClearGate) : Prop where
  waiting : g.waiting = []
  closed : g.isClosed = true → locked = true

namespace ClearGate

variable {g g' : ClearGate} {locked : Bool} {m : Member}

theorem tended_open : Tended locked {} := ⟨rfl, nofun⟩

theorem Tended.close (h : g.Tended true) (hclose : g.close? m = some g') : g'.Tended true := by
  refine ⟨?_, fun _ => rfl⟩
  unfold close? at hclose
  split at hclose
  next =>
    cases hclose
    exact h.waiting
  next =>
    split at hclose
    next =>
      cases hclose
      exact h.waiting
    next => cases hclose

theorem Tended.open_ (h : g.Tended locked) : g.open_.2 = {} := by
  simp only [ClearGate.open_, h.waiting]

end ClearGate

/-! ## Shares -/

namespace Share

variable {s s' : Share} {there there' : Member → Prop} {id : Nat} {b b' : Bucket} {m : Member}

/-- Whoever holds the clear lock of the share is there, and its gates are tended. -/
structure Guarded (there : Member → Prop) (s : Share) : Prop where
  holder : ∀ h, s.coordinator.lock.requester = some h → there h
  gates : s.Gated (·.Tended s.coordinator.lock.isLocked)

namespace Guarded

theorem mono (h : s.Guarded there) (hthere : ∀ m, there m → there' m) : s.Guarded there' :=
  ⟨fun m hm => hthere m (h.holder m hm), h.gates⟩

theorem spared (h : s.Guarded there) (hs : s.Spares s') : s'.Guarded there := by
  refine ⟨fun m hm => h.holder m (by rw [← hs.lock]; exact hm), ?_⟩
  rw [hs.lock]
  exact hs.gates _ ClearGate.tended_open h.gates

/-- A member that is there takes the lock. -/
theorem locked (h : s.Guarded there) (hm : there m) : Guarded there
    { s with coordinator := { s.coordinator with lock := s.coordinator.lock.lockFor m } } := by
  refine ⟨fun h' hh' => ?_, fun id b hb => ⟨(h.gates id b hb).waiting, fun _ => rfl⟩⟩
  cases hh'
  exact hm

/-- A gate is closed while the lock is held. -/
theorem closed (h : s.Guarded there) (hlocked : s.coordinator.lock.isLocked = true)
    (hb : s.store.bucket? id = some b) (hlock : b.lockForClear? m = some b') : Guarded there
    { s with store := { s.store with buckets := s.store.buckets.modify id fun _ => b' } } := by
  obtain ⟨g, hclose, rfl⟩ := Option.map_eq_some_iff.1 hlock
  refine ⟨h.holder, fun id' b'' hb'' => ?_⟩
  have hgates := h.gates
  rw [hlocked] at hgates ⊢
  rw [BucketStore.bucket?, OrdMap.find?_modify] at hb''
  split at hb''
  next he =>
    obtain ⟨_, -, rfl⟩ := Option.map_eq_some_iff.1 hb''
    exact (hgates id b hb).close hclose
  next => exact hgates id' b'' hb''

/-- All gates are opened, and the lock is given up. -/
theorem released (h : s.Guarded there) : s.released.Guarded there' := by
  refine ⟨nofun, fun id b hb => ?_⟩
  rw [Share.released, BucketStore.bucket?_mapAll] at hb
  obtain ⟨b', hb', rfl⟩ := Option.map_eq_some_iff.1 hb
  have hopen : b'.releaseForClear.gate = {} := (h.gates id b' hb').open_
  rw [hopen]
  exact ClearGate.tended_open

/-- Where the lock is not held, there is nobody who could leave. -/
theorem unlocked (h : s.Guarded there) (hlock : s.coordinator.lock.isLocked = false) :
    s.Guarded there' := by
  refine ⟨fun m hm => ?_, h.gates⟩
  rw [ClearLock.isLocked, hm] at hlock
  cases hlock

end Guarded
end Share

namespace Cluster

open Coordinator

variable {c c' o : Cluster} {l l' : String} {s : Share} {there there' : Member → Prop}

/-- The share of a label, if there is one, is guarded, and handles messages for its own member only. -/
structure GuardedFor (there : Member → Prop) (l : String) (c : Cluster) : Prop where
  share : ∀ s, c.share? l = some s → s.Guarded there
  own : ∀ m s, c.handlers.find? m = some l → c.share? l = some s →
    m.same s.coordinator.member = true

/-- The members that are there are those of the view. -/
def GuardedAt (l : String) (c : Cluster) : Prop := c.GuardedFor (fun m => c.isCurrent m = true) l

theorem GuardedFor.spared (h : c.GuardedFor there l) (hs : c.Spares l c') :
    c'.GuardedFor there l := by
  refine ⟨fun s' hs' => ?_, fun m s' hm hs' => ?_⟩
  · obtain ⟨s, hfound, hspares⟩ := hs.share? hs'
    exact (h.share s hfound).spared hspares
  · obtain ⟨s, hfound, hspares⟩ := hs.share? hs'
    rw [hspares.member]
    exact h.own m s (by rw [← hs.handlers]; exact hm) hfound

theorem GuardedFor.mono (h : c.GuardedFor there l) (hthere : ∀ m, there m → there' m) :
    c.GuardedFor there' l := ⟨fun s hs => (h.share s hs).mono hthere, h.own⟩

theorem GuardedAt.spared (h : c.GuardedAt l) (hs : c.Spares l c') : c'.GuardedAt l :=
  (GuardedFor.spared h hs).mono fun m hm => by
    rw [hs.isCurrent]
    exact hm

/-! ## Coordinators at work -/

theorem spares_lockCreation (h : (c.site l').lockCreation o = some c') : o.Spares l c' := by
  obtain ⟨-, rfl⟩ | ⟨s, store, hs, hlock, rfl⟩ := lockCreation_cases h
  · exact .refl l _
  · obtain ⟨g, -, rfl⟩ := Option.map_eq_some_iff.1 hlock
    refine spares_modifyShare fun he s' hs' => ?_
    obtain rfl : s = s' := Option.some.inj (hs.symm.trans (by rw [he, hs']))
    exact .of_same rfl rfl rfl

/-- The cluster with a coordinator put back in the share that it works for. -/
def putBack (c : Cluster) (l : String) (k : Coordinator) : Cluster :=
  c.modifyShare l fun s => { s with coordinator := k }

theorem share?_putBack (c : Cluster) (l l' : String) (k : Coordinator) :
    (c.putBack l k).share? l' =
      if l' = l then (c.share? l').map fun s => { s with coordinator := k } else c.share? l' :=
  share?_modifyShare _ _ _ _

/-- Work begins and ends with the coordinator in its place. -/
theorem putBack_of_coordinate {α : Type} {work : Act Cluster α} {a : α}
    (hrun : c.coordinate l work = some (a, c')) : ∃ s scene, c.share? l = some s ∧
      work.run ⟨s.coordinator, c, []⟩ = some (a, scene) ∧ c.putBack l s.coordinator = c ∧
      c' = scene.outside.putBack l scene.coordinator := by
  obtain ⟨s, hs, hrun⟩ := Option.bind_eq_some_iff.1 hrun
  obtain ⟨⟨a', scene⟩, hwork, hrun⟩ := Option.bind_eq_some_iff.1 hrun
  cases hrun
  exact ⟨s, scene, hs, hwork, modifyShare_self hs rfl, rfl⟩

theorem Spares.putBack {k k' : Coordinator} (h : c.Spares l c') (hlock : l' = l → k'.lock = k.lock)
    (hmember : l' = l → k'.member = k.member) : (c.putBack l' k).Spares l (c'.putBack l' k') := by
  refine ⟨h.view, h.handlers, ?_⟩
  rw [share?_putBack, share?_putBack]
  split
  next he =>
    have hrel := h.share
    generalize c.share? l = t, c'.share? l = t' at hrel ⊢
    cases hrel with
    | none => exact .none
    | some hspares => exact .some ⟨hlock he.symm, hmember he.symm, hspares.gates⟩
  next => exact h.share

/-- The relation holds wherever a share is spared, and no coordinator changes its lock. -/
structure Sparing (l : String) (R : Scene Cluster → List Effect → Scene Cluster → Prop) : Prop where
  chained : Chained R
  spares : ∀ {s es s'}, s.outside.Spares l s'.outside →
    s'.coordinator.lock = s.coordinator.lock → s'.coordinator.member = s.coordinator.member → R s es s'

namespace Sparing

variable {R : Scene Cluster → List Effect → Scene Cluster → Prop} (h : Sparing l R)

include h

theorem call {α : Type} {e : Effect} {f : Cluster → Option (α × Cluster)}
    (hf : ∀ o a o', f o = some (a, o') → o.Spares l o') : Keeps R (Coordinator.call e f) := fun s =>
  (Ensures.call e f).mono fun a _ s' ⟨_, hans, hk⟩ => h.spares (hf _ a _ hans) (by rw [hk]) (by rw [hk])

theorem consult {α : Type} {e : Effect} {f : Cluster → Option (α × Cluster)}
    (hf : ∀ o a o', f o = some (a, o') → o.Spares l o') : Keeps R (consult (c.site l') e f) := fun s =>
  (ensures_consulted c l' e f s).mono fun a _ s' ⟨hans, hk⟩ =>
    h.spares (hf _ a _ hans) (by rw [hk]) (by rw [hk])

/-- A call that gives no answer. -/
theorem consultUnit {e : Effect} {f : Cluster → Cluster} (hf : ∀ o : Cluster, o.Spares l (f o)) :
    Keeps R (Coordinator.consult (c.site l') e fun o => some ((), f o)) :=
  h.consult fun o a o' hans => by
    cases hans
    exact hf o

theorem tryTo {α : Type} {e : Effect} {f : Cluster → Except ClearError α × Cluster}
    (hf : ∀ o : Cluster, o.Spares l (f o).2) : Keeps R (tryTo (c.site l') e f).run :=
  h.consult fun o a o' hans => by
    have ho' : (f o).2 = o' := congrArg Prod.snd (Option.some.inj hans)
    rw [← ho']
    exact hf o

/-- Something about the coordinator changes, but not its lock. -/
theorem alter {f : Coordinator → Coordinator} (hlock : ∀ k, (f k).lock = k.lock)
    (hmember : ∀ k, (f k).member = k.member) : Keeps R (alter f : Act Cluster Unit) := fun s =>
  (Ensures.alter f).mono fun _ _ s' ⟨_, hs'⟩ => by
    subst hs'
    exact h.spares (.refl l s.outside) (hlock _) (hmember _)

theorem note (e : Effect) : Keeps R (note e : Act Cluster Unit) := fun s =>
  (Ensures.note e).mono fun _ _ s' ⟨_, hs'⟩ => by
    subst hs'
    exact h.spares (.refl l s.outside) rfl rfl

theorem advance (next : ClearPhase) : Keeps R (advance next : Act Cluster Unit) :=
  .get_bind fun _ => .bind h.chained (h.note _) fun _ => h.alter (fun _ => rfl) fun _ => rfl

/-- What a coordinator does for others spares the shares, except that it locks and releases
buckets. -/
theorem serves (hobtains : ∀ m, Keeps R (obtainLocal (c.site l') m))
    (hreleases : Keeps R (releaseLocal (c.site l'))) : (c.site l').Serves R where
  chained := h.chained
  polls id := h.consult fun o a o' hans => by
    cases hans
    exact .refl l o
  clears := by
    refine .get_attempt fun s => ?_
    cases (c.site l').buckets s.outside with
    | none => exact .done h.chained []
    | some buckets =>
      refine .mapM h.chained _ fun id _ => .attempt h.chained (.sure ?_) fun _ => .done h.chained _
      exact h.consultUnit fun o => spares_modifyBucket fun _ _ => rfl
  looksAway := h.alter (fun _ => rfl) fun _ => rfl
  tellsClients e := h.consultUnit fun o => spares_modifyShare fun _ _ _ => .of_same rfl rfl rfl
  tellsListeners e := h.consultUnit fun o => spares_modifyShare fun _ _ _ => .of_same rfl rfl rfl
  obtains := hobtains
  releases := hreleases
  locksCreation := h.consult fun _ _ _ hans => spares_lockCreation (some_of_map_unit hans)
  unlocksCreation := h.consultUnit fun o => spares_modifyShare fun _ _ _ => .of_same rfl rfl rfl

end Sparing

/-! ### Work at other shares -/

/-- The share of a label is spared, whatever becomes of the coordinator. -/
def Elsewhere (l : String) (s : Scene Cluster) (_ : List Effect) (s' : Scene Cluster) : Prop :=
  s.outside.Spares l s'.outside

theorem sparing_elsewhere (l : String) : Sparing l (Elsewhere l) where
  chained := ⟨fun s => .refl l s.outside, fun h h' => h.trans h'⟩
  spares h _ _ := h

theorem elsewhere_alter (f : Coordinator → Coordinator) :
    Keeps (Elsewhere l) (alter f : Act Cluster Unit) := fun s =>
  (Ensures.alter f).mono fun _ _ s' ⟨_, hs'⟩ => by
    subst hs'
    exact .refl l s.outside

theorem spares_lockBucket (hne : l' ≠ l) {id : Nat} {m : Member}
    (h : (c.site l').lockBucket id m o = some c') : o.Spares l c' := by
  obtain ⟨-, rfl⟩ | ⟨b, b', -, -, rfl⟩ := lockBucket_cases h
  · exact .refl l _
  · exact spares_modifyShare fun he => absurd he hne

theorem serves_elsewhere (hne : l' ≠ l) : (c.site l').Serves (Elsewhere l) := by
  have h := sparing_elsewhere l
  refine h.serves (fun m => .obtainLocal h.chained (elsewhere_alter _) fun _ => ?_)
    (.releaseLocal h.chained (elsewhere_alter _) fun _ => ?_)
  · exact h.call fun _ _ _ hans => spares_lockBucket hne (some_of_map_unit hans)
  · exact h.call fun _ _ _ hans => by
      cases hans
      exact spares_modifyShare fun he => absurd he hne

/-- A coordinator that does something for others leaves the shares that are not its own alone. -/
theorem spares_coordinate {α : Type} {work : Act Cluster α} {a : α} (hne : l' ≠ l)
    (hwork : Keeps (Elsewhere l) work) (hrun : c.coordinate l' work = some (a, c')) :
    c.Spares l c' := by
  obtain ⟨s, scene, -, hdone, hsame, rfl⟩ := putBack_of_coordinate hrun
  obtain ⟨es, -, hspares⟩ := hwork _ _ _ hdone
  have hback : (c.putBack l' s.coordinator).Spares l
      (scene.outside.putBack l' scene.coordinator) :=
    Spares.putBack hspares (fun he => absurd he hne) fun he => absurd he hne
  rw [hsame] at hback
  exact hback

/-! ### Work at a share itself -/

/-- With the coordinator of `l'` put back, the share of `l` stays guarded. -/
def Guards (l l' : String) (s : Scene Cluster) (_ : List Effect) (s' : Scene Cluster) : Prop :=
  (s.outside.putBack l' s.coordinator).GuardedAt l → (s'.outside.putBack l' s'.coordinator).GuardedAt l

theorem sparing_guards (l l' : String) : Sparing l (Guards l l') where
  chained := ⟨fun _ h => h, fun h h' hs => h' (h hs)⟩
  spares h hlock hmember hs := hs.spared (h.putBack (fun _ => hlock) fun _ => hmember)

theorem Guards.of_elsewhere {s s' : Scene Cluster} {es : List Effect} (hne : l' ≠ l)
    (h : Elsewhere l s es s') : Guards l l' s es s' := fun hs =>
  hs.spared (Spares.putBack h (fun he => absurd he hne) fun he => absurd he hne)

/-- A share changes with its coordinator. -/
theorem GuardedFor.changed {k k' : Coordinator} {f : Share → Share}
    (h : (c.putBack l k).GuardedFor there l) (hhandlers : c'.handlers = c.handlers)
    (hshare : c'.share? l = (c.share? l).map f) (hmember : k'.member = k.member)
    (hf : ∀ s, c.share? l = some s → Share.Guarded there { s with coordinator := k } →
      Share.Guarded there' { f s with coordinator := k' }) : (c'.putBack l k').GuardedFor there' l := by
  have hback : ∀ s, c.share? l = some s → (c.putBack l k).share? l = some { s with coordinator := k } :=
    fun s hs => by rw [share?_putBack, if_pos rfl, hs, Option.map_some]
  have hfound : ∀ s', (c'.putBack l k').share? l = some s' →
      ∃ s, c.share? l = some s ∧ s' = { f s with coordinator := k' } := fun s' hs' => by
    rw [share?_putBack, if_pos rfl, hshare, Option.map_map] at hs'
    obtain ⟨s, hs, rfl⟩ := Option.map_eq_some_iff.1 hs'
    exact ⟨s, hs, rfl⟩
  refine ⟨fun s' hs' => ?_, fun m s' hm hs' => ?_⟩
  · obtain ⟨s, hs, rfl⟩ := hfound s' hs'
    exact hf s hs (h.share _ (hback s hs))
  · obtain ⟨s, hs, rfl⟩ := hfound s' hs'
    have hhandler : c.handlers.find? m = some l := by
      rw [← hhandlers]
      exact hm
    have hown : m.same k.member = true := h.own m _ hhandler (hback s hs)
    exact (congrArg m.same hmember).trans hown

/-- While the lock is held, the share stays guarded. -/
def GuardsLocked (l : String) (s : Scene Cluster) (es : List Effect) (s' : Scene Cluster) : Prop :=
  s'.coordinator = s.coordinator ∧ (s.coordinator.lock.isLocked = true → Guards l l s es s')

theorem chained_guardsLocked (l : String) : Chained (GuardsLocked l) where
  refl _ := ⟨rfl, fun _ h => h⟩
  trans h h' := ⟨h'.1.trans h.1, fun hlocked hs =>
    h'.2 (by rw [h.1]; exact hlocked) (h.2 hlocked hs)⟩

theorem guarded_lockBucket {k : Coordinator} {id : Nat} {m : Member} (hlocked : k.lock.isLocked = true)
    (h : (c.site l).lockBucket id m o = some c') (hguarded : (o.putBack l k).GuardedAt l) :
    (c'.putBack l k).GuardedAt l := by
  obtain ⟨-, rfl⟩ | ⟨b, b', hb, hlock, rfl⟩ := lockBucket_cases h
  · exact hguarded
  · refine GuardedFor.changed hguarded rfl
      (by rw [modifyBucket, modifyStore, share?_modifyShare, if_pos rfl]) rfl fun s hs hshare => ?_
    exact hshare.closed hlocked (by rw [← bucket?_eq hs]; exact hb) hlock

theorem guardsLocked_lockBucket (id : Nat) (m : Member) :
    Keeps (GuardsLocked l) (Coordinator.call (.bucketLocked id m) fun o =>
      ((c.site l).lockBucket id m o).map ((), ·)) := fun s => by
  refine (Ensures.call _ _).mono fun _ es s₁ h => ?_
  obtain ⟨-, hans, hk⟩ := h
  refine ⟨hk, fun hlocked hs => ?_⟩
  rw [hk]
  exact guarded_lockBucket hlocked (some_of_map_unit hans) hs

/-- The lock is taken for a member that is there, and then the gates are closed. -/
theorem guards_obtainLocal (m : Member) : Keeps (Guards l l) (obtainLocal (c.site l) m) := fun s => by
  refine .get_bind ?_
  cases hm : (c.site l).isCurrent s.outside m with
  | false =>
    simp only [hm, Bool.false_eq_true, if_false]
    exact .pure _ id
  | true =>
    simp only [hm, if_true]
    refine .bind ((Ensures.alter _).mono ?_)
    rintro - es s₁ ⟨-, hs₁⟩
    have hlocked : s₁.coordinator.lock.isLocked = true := by
      rw [hs₁]
      rfl
    have hfirst : Guards l l s es s₁ := fun hs => by
      rw [hs₁]
      exact GuardedFor.changed (f := id) hs rfl (by simp) rfl fun t _ hshare => hshare.locked hm
    cases (c.site l).buckets s.outside with
    | none => exact .pure _ hfirst
    | some buckets =>
      have hgates := Keeps.forM (chained_guardsLocked l) buckets.primaries fun id _ =>
        guardsLocked_lockBucket (c := c) id m
      exact (hgates s₁).mono fun _ es' s₂ hrest =>
        (sparing_guards l l).chained.trans hfirst (hrest.2 hlocked)

theorem guardedAt_of_none (hs : c.share? l = none) : c.GuardedAt l :=
  ⟨fun _ hs' => (nomatch hs.symm.trans hs'), fun _ _ _ hs' => (nomatch hs.symm.trans hs')⟩

/-- All gates are opened, and then the lock is given up. -/
theorem guards_releaseLocal : Keeps (Guards l l) (releaseLocal (c.site l)) := fun s => by
  cases hlock : s.coordinator.lock.isLocked with
  | false =>
    refine .get_bind ?_
    simp only [hlock, Bool.false_eq_true, if_false]
    exact .pure _ id
  | true =>
    cases hs : s.outside.share? l with
    | none =>
      have hnone : (c.site l).buckets s.outside = none := by simp only [site, hs, Option.map_none]
      refine .get_bind ?_
      simp only [hlock, if_true, hnone]
      refine (Ensures.alter _).mono ?_
      rintro - _ _ ⟨-, rfl⟩ -
      exact guardedAt_of_none (by rw [share?_putBack, if_pos rfl, hs, Option.map_none])
    | some share =>
      refine ((yields_releaseLocal hs hlock).ensures (comes_releaseLocal _ s)).mono ?_
      rintro - _ s' ⟨hk, ho⟩ hguarded
      rw [hk, ho]
      exact GuardedFor.changed hguarded rfl (by rw [modifyStore, share?_modifyShare, if_pos rfl]) rfl
        fun t _ hshare => hshare.released

theorem serves_guards (c : Cluster) (l l' : String) : (c.site l').Serves (Guards l l') := by
  by_cases he : l' = l
  · rw [he]
    exact (sparing_guards l l).serves guards_obtainLocal guards_releaseLocal
  · have h := serves_elsewhere (c := c) he
    exact (sparing_guards l l').serves (fun m => (h.obtains m).mono (.of_elsewhere he))
      (h.releases.mono (.of_elsewhere he))

theorem guardedAt_coordinate {α : Type} {work : Act Cluster α} {a : α} (h : c.GuardedAt l)
    (hwork : Keeps (Guards l l') work) (hrun : c.coordinate l' work = some (a, c')) :
    c'.GuardedAt l := by
  obtain ⟨s, scene, -, hdone, hsame, rfl⟩ := putBack_of_coordinate hrun
  obtain ⟨es, -, hguards⟩ := hwork _ _ _ hdone
  exact hguards (by rw [hsame]; exact h)

/-! ## Messages -/

variable {message : ClearMessage} {reply : ClearReply}

theorem guardedAt_process (h : c.GuardedAt l) (hrun : c.process l' message = some (reply, c')) :
    c'.GuardedAt l :=
  guardedAt_coordinate h ((serves_guards c l l').process rounds message) hrun

theorem spares_process (hne : l' ≠ l) (hrun : c.process l' message = some (reply, c')) :
    c.Spares l c' :=
  spares_coordinate hne ((serves_elsewhere hne).process rounds message) hrun

theorem guardedAt_deliver (h : c.GuardedAt l) (collector : Collector) (m : Member) :
    (deliver message (collector, c) m).2.GuardedAt l := by
  simp only [deliver]
  split
  next => exact h
  next l' _ =>
    split
    next => exact h
    next =>
      split
      next reply c' hrun => exact guardedAt_process h hrun
      next => exact h

theorem guardedAt_send (h : c.GuardedAt l) (message : ClearMessage) (members : List Member) :
    (c.send message members).2.GuardedAt l :=
  List.foldlRecOn members (deliver message) h fun acc hacc m _ => guardedAt_deliver hacc acc.1 m

/-- A message that another share handles, or none. -/
theorem spares_deliver (collector : Collector) {m : Member}
    (hother : c.handlers.find? m = some l → c.share? l = none) :
    c.Spares l (deliver message (collector, c) m).2 := by
  simp only [deliver]
  split
  next => exact .refl l c
  next l' hl' =>
    split
    next => exact .refl l c
    next =>
      split
      next reply c' hrun =>
        refine spares_process (fun he => ?_) hrun
        subst he
        obtain ⟨s, hs⟩ := share?_of_coordinate hrun
        rw [hother hl'] at hs
        cases hs
      next => exact .refl l c

theorem spares_send (message : ClearMessage) {members : List Member}
    (hother : ∀ m ∈ members, c.handlers.find? m = some l → c.share? l = none) :
    c.Spares l (c.send message members).2 := by
  have hall : ∀ acc : Collector × Cluster, c.Spares l acc.2 → ∀ m ∈ members,
      c.Spares l (deliver message acc m).2 := fun acc hacc m hm => by
    refine hacc.trans (spares_deliver acc.1 fun hl => hacc.absent ?_)
    rw [hacc.handlers] at hl
    exact hother m hm hl
  exact List.foldlRecOn members (deliver message) (.refl l c) hall

/-! ## Clears -/

theorem spares_lock {name : String} {wait lease : Option Nat} {answer : Except LockError Unit}
    (h : lock l' name wait lease c = some (answer, c')) : c.Spares l c' := by
  obtain ⟨grantor, rfl⟩ := grantor_of_lock h
  exact .of_share rfl rfl rfl

theorem spares_unlock (name : String) (c : Cluster) : c.Spares l (unlock l' name c).2 := by
  obtain ⟨grantor, hc'⟩ := grantor_of_unlock l' name c
  rw [hc']
  exact .of_share rfl rfl rfl

theorem spares_askWriter (event : RegionEvent) (c : Cluster) :
    c.Spares l (Cluster.askWriter l' event c).2 := by
  rw [askWriter_same]
  exact .refl l c

/-- The coordinator of another share makes no difference. -/
theorem guardedAt_putBack (hne : l' ≠ l) {k : Coordinator} :
    (c.putBack l' k).GuardedAt l ↔ c.GuardedAt l := by
  have hshare : (c.putBack l' k).share? l = c.share? l := by
    rw [share?_putBack, if_neg fun he => hne he.symm]
  exact ⟨fun h => h.spared (.of_share rfl rfl hshare.symm), fun h => h.spared (.of_share rfl rfl hshare)⟩

/-- A clear asks nobody who is the member that it is for. -/
theorem guards_broadcast (event : RegionEvent) (operation : ClearOperation) :
    Keeps (Guards l l') (Coordinator.broadcast (c.surroundings l') event operation).run := by
  refine keeps_broadcast (sparing_guards l l').chained fun s message _ => ?_
  refine (ensures_consulted c l' _ _ _).mono fun collector es s' hsent hs => ?_
  obtain ⟨hans, hk⟩ := hsent
  let members := recipients (c.surroundings l') s
  let o := s.outside.newId.2
  have houtside : (o.send message members).2 = s'.outside := congrArg Prod.snd (Option.some.inj hans)
  have hid : s.outside.Spares l o := .of_share rfl rfl rfl
  rw [hk, ← houtside]
  by_cases he : l' = l
  · subst he
    refine hs.spared (Spares.putBack (hid.trans (spares_send message fun m hm hl => ?_))
      (fun _ => rfl) fun _ => rfl)
    cases hshare : s.outside.share? l' with
    | none => exact hshare
    | some share =>
      have hown := hs.own m { share with coordinator := s.coordinator } hl
        (by rw [share?_putBack, if_pos rfl, hshare, Option.map_some])
      obtain ⟨hother, -⟩ := Bool.and_eq_true_iff.1 (List.mem_filter.1 hm).2
      have hother : m.same s.coordinator.member = false := by simpa using hother
      exact absurd hown (by rw [hother]; decide)
  · -- the share may get a message, and does its work with its coordinator in its place
    rw [guardedAt_putBack he] at hs ⊢
    exact guardedAt_send (hs.spared hid) message members

/-- However a clear from any share ends, it keeps the shares guarded. -/
theorem permits_guards (c : Cluster) (l l' : String) : (c.surroundings l').Permits (Guards l l') where
  toServes := serves_guards c l l'
  advances next := (sparing_guards l l').advance next
  broadcasts := guards_broadcast
  asksLock _ _ _ := (sparing_guards l l').consult fun _ _ _ hans => spares_lock hans
  unlocks name := (sparing_guards l l').tryTo fun o => spares_unlock name o
  asksWriter event := (sparing_guards l l').tryTo fun o => spares_askWriter event o
  assigns := (sparing_guards l l').tryTo fun _ => spares_modifyShare fun _ s _ =>
    s.spares_assignPrimaries

theorem guardedAt_clear {argument : Option String} {cacheWrite : Bool}
    {r : Except ClearError (List Nat)} (h : c.GuardedAt l)
    (hrun : c.clearWith l' argument cacheWrite = some (r, c')) : c'.GuardedAt l := by
  obtain ⟨⟨event, o⟩, hevent, hrun⟩ := Option.bind_eq_some_iff.1 hrun
  obtain ⟨s, -, hevent⟩ := Option.bind_eq_some_iff.1 hevent
  cases hevent
  have hid : c.Spares l c.newId.2 := .of_share rfl rfl rfl
  exact guardedAt_coordinate (h.spared hid)
    ((permits_guards c.newId.2 l l').doClear rounds _ cacheWrite) hrun

end Cluster
end DataGrid
