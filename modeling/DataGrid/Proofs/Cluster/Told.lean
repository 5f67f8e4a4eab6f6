import Mathlib.Data.List.Nodup
import DataGrid.Proofs.Cluster.Gates

/-
How often each listener and each client at one share is told of an event while a
cluster changes (`Cluster.Tells`). Most changes tell nobody of anything
(`Cluster.Untold`).
-/

namespace DataGrid

/-! ## Shares -/

namespace Share

variable {s s' s'' : Share} {id : Ulid} {listener : Nat} {client : String}

/-- How often a listener heard of an event. -/
def heardBy (listener : Nat) (id : Ulid) (s : Share) : Nat :=
  s.hearings.countP fun h => h.listener == listener && h.event.id == id

/-- How often an event waits for a client. -/
def queuedFor (client : String) (id : Ulid) (s : Share) : Nat :=
  s.notifications.countP fun n => n.client == client && n.event.id == id

theorem heardBy_tellListeners (e : RegionEvent) (s : Share) :
    (s.tellListeners e).heardBy listener id ≤ s.heardBy listener id + 1 := by
  have honce : (List.range s.listeners).countP (· == listener) ≤ 1 :=
    List.nodup_iff_count_le_one.1 List.nodup_range listener
  rw [heardBy, tellListeners, List.countP_append, List.countP_map]
  refine Nat.add_le_add_left (Nat.le_trans (List.countP_mono_left fun i _ h => ?_) honce) _
  exact (Bool.and_eq_true_iff.1 h).1

theorem queuedFor_tellClients (e : RegionEvent) (s : Share) :
    (s.tellClients e).queuedFor client id ≤ s.queuedFor client id + 1 := by
  have honce (clients : OrdSet String) : clients.toList.countP (· == client) ≤ 1 := by
    have hnodup : clients.toList.Nodup := clients.pairwise_toList.imp fun hne he =>
      hne (by rw [he]; exact Std.ReflCmp.compare_self)
    exact List.nodup_iff_count_le_one.1 hnodup client
  have hmore : ((e.clients.map OrdSet.toList).getD []).countP (· == client) ≤ 1 := by
    cases e.clients with
    | none => exact Nat.zero_le 1
    | some clients => exact honce clients
  rw [queuedFor, tellClients, List.countP_append, List.countP_map]
  refine Nat.add_le_add_left (Nat.le_trans (List.countP_mono_left fun c _ h => ?_) hmore) _
  exact (Bool.and_eq_true_iff.1 h).1

/-- Nobody is told of anything, and the coordinator stays that of its member. -/
structure Untold (s s' : Share) : Prop where
  member : s'.coordinator.member = s.coordinator.member
  hearings : s'.hearings = s.hearings
  notifications : s'.notifications = s.notifications

namespace Untold

theorem refl (s : Share) : s.Untold s := ⟨rfl, rfl, rfl⟩

theorem trans (h : s.Untold s') (h' : s'.Untold s'') : s.Untold s'' :=
  ⟨h'.member.trans h.member, h'.hearings.trans h.hearings, h'.notifications.trans h.notifications⟩

end Untold

variable {hostsRegion : Member → Bool} {m : Member}

theorem untold_volunteer (s : Share) (bucket : Nat) : s.Untold (s.volunteer hostsRegion bucket) := by
  unfold volunteer
  cases h : s.advise? hostsRegion .volunteer bucket with
  | none => exact .refl s
  | some p =>
    obtain ⟨b, -, heq⟩ := Option.map_eq_some_iff.1 h
    cases heq
    exact ⟨rfl, rfl, rfl⟩

theorem untold_assignPrimaries (s : Share) : s.Untold (s.assignPrimaries hostsRegion) := by
  refine List.foldlRecOn s.store.all _ (.refl s) fun s' h b _ => ?_
  split
  next => exact h
  next => exact h.trans (s'.untold_volunteer b.id)

theorem untold_bucketsHearOf (s : Share) : s.Untold (s.bucketsHearOf hostsRegion m) :=
  ⟨rfl, rfl, rfl⟩

end Share

/-! ## Clusters -/

namespace Cluster

variable {c c' c'' o : Cluster} {l l' : String} {id : Ulid} {h h' q q' : Nat}

/-- How often a listener at a share heard of an event. -/
def heardAt (c : Cluster) (l : String) (listener : Nat) (id : Ulid) : Nat :=
  ((c.share? l).map (·.heardBy listener id)).getD 0

/-- How often an event waits for a client at a share. -/
def queuedAt (c : Cluster) (l client : String) (id : Ulid) : Nat :=
  ((c.share? l).map (·.queuedFor client id)).getD 0

/-- Nobody is told of anything, no share changes hands, and no more messages are handled. -/
structure Untold (c c' : Cluster) : Prop where
  handlers : ∀ m l, c'.handlers.find? m = some l → c.handlers.find? m = some l
  shares : ∀ l, Option.Rel Share.Untold (c.share? l) (c'.share? l)

namespace Untold

theorem of_shares (hhandlers : c'.handlers = c.handlers) (hshares : c'.shares = c.shares) :
    c.Untold c' :=
  ⟨fun m l hl => by rw [← hhandlers]; exact hl, fun l => by
    rw [share?, share?, hshares]
    exact rel_refl Share.Untold.refl _⟩

theorem refl (c : Cluster) : c.Untold c := of_shares rfl rfl

end Untold

theorem untold_modifyShare {f : Share → Share} (hf : ∀ s, c.share? l = some s → s.Untold (f s)) :
    c.Untold (c.modifyShare l f) := by
  refine ⟨fun _ _ hl => hl, fun l' => ?_⟩
  rw [share?_modifyShare]
  split
  next he =>
    rw [he]
    cases hs : c.share? l with
    | none => exact .none
    | some s => exact .some (hf s hs)
  next => exact rel_refl Share.Untold.refl _

theorem untold_modifyStore {f : BucketStore → BucketStore} : c.Untold (c.modifyStore l f) :=
  untold_modifyShare fun _ _ => ⟨rfl, rfl, rfl⟩

theorem untold_modifyBucket {bucket : Nat} {f : Bucket → Bucket} :
    c.Untold (c.modifyBucket l bucket f) := untold_modifyStore

theorem untold_lockBucket {bucket : Nat} {m : Member}
    (h : (c.site l).lockBucket bucket m o = some c') : o.Untold c' := by
  obtain ⟨-, rfl⟩ | ⟨b, b', -, -, rfl⟩ := lockBucket_cases h
  · exact .refl _
  · exact untold_modifyBucket

theorem untold_lockCreation (h : (c.site l).lockCreation o = some c') : o.Untold c' := by
  obtain ⟨-, rfl⟩ | ⟨s, store, -, -, rfl⟩ := lockCreation_cases h
  · exact .refl _
  · exact untold_modifyStore

theorem untold_lock {name : String} {wait lease : Option Nat} {answer : Except LockError Unit}
    (h : lock l name wait lease c = some (answer, c')) : c.Untold c' := by
  obtain ⟨grantor, rfl⟩ := grantor_of_lock h
  exact .of_shares rfl rfl

theorem untold_unlock {name : String} : c.Untold (unlock l name c).2 := by
  obtain ⟨grantor, hc'⟩ := grantor_of_unlock l name c
  rw [hc']
  exact .of_shares rfl rfl

theorem untold_askWriter {event : RegionEvent} : c.Untold (Cluster.askWriter l event c).2 := by
  rw [askWriter_same]
  exact .refl c

/-- Each share handles messages for its own member only. -/
def Arranged (c : Cluster) : Prop :=
  ∀ m l s, c.handlers.find? m = some l → c.share? l = some s → m.same s.coordinator.member = true

/-- The cluster stays arranged, no share changes hands, and each listener and each client of one share
is told of an event so often at most. -/
structure Tells (id : Ulid) (l : String) (h q : Nat) (c c' : Cluster) : Prop where
  arranged : c'.Arranged
  members : ∀ l s, c.share? l = some s → ∃ s', c'.share? l = some s' ∧
    s'.coordinator.member = s.coordinator.member
  heard : ∀ listener, c'.heardAt l listener id ≤ c.heardAt l listener id + h
  queued : ∀ client, c'.queuedAt l client id ≤ c.queuedAt l client id + q

namespace Tells

theorem mono (ht : Tells id l h q c c') (hh : h ≤ h') (hq : q ≤ q') : Tells id l h' q' c c' :=
  ⟨ht.arranged, ht.members,
    fun listener => Nat.le_trans (ht.heard listener) (Nat.add_le_add_left hh _),
    fun client => Nat.le_trans (ht.queued client) (Nat.add_le_add_left hq _)⟩

theorem trans (ht : Tells id l h q c c') (ht' : Tells id l h' q' c' c'') :
    Tells id l (h + h') (q + q') c c'' where
  arranged := ht'.arranged
  members l s hs := by
    obtain ⟨s', hs', hm⟩ := ht.members l s hs
    obtain ⟨s'', hs'', hm'⟩ := ht'.members l s' hs'
    exact ⟨s'', hs'', hm'.trans hm⟩
  heard listener := by
    have := ht.heard listener
    have := ht'.heard listener
    omega
  queued client := by
    have := ht.queued client
    have := ht'.queued client
    omega

end Tells

/-- A share changes, and not who it belongs to. -/
theorem tells_modifyShare (hc : c.Arranged) {f : Share → Share}
    (hmember : ∀ s, (f s).coordinator.member = s.coordinator.member)
    (hheard : l' = l → ∀ listener s, (f s).heardBy listener id ≤ s.heardBy listener id + h)
    (hqueued : l' = l → ∀ client s, (f s).queuedFor client id ≤ s.queuedFor client id + q) :
    Tells id l h q c (c.modifyShare l' f) where
  arranged m l₁ s hm hs := by
    rw [share?_modifyShare] at hs
    split at hs
    · obtain ⟨t, ht, rfl⟩ := Option.map_eq_some_iff.1 hs
      rw [hmember]
      exact hc m l₁ t hm ht
    · exact hc m l₁ s hm hs
  members l₁ s hs := by
    rw [share?_modifyShare, hs]
    split
    · exact ⟨f s, rfl, hmember s⟩
    · exact ⟨s, rfl, rfl⟩
  heard listener := by
    rw [heardAt, heardAt, share?_modifyShare]
    split
    next he =>
      cases hs : c.share? l with
      | none => exact Nat.zero_le _
      | some s => exact hheard he.symm listener s
    next => exact Nat.le_add_right _ _
  queued client := by
    rw [queuedAt, queuedAt, share?_modifyShare]
    split
    next he =>
      cases hs : c.share? l with
      | none => exact Nat.zero_le _
      | some s => exact hqueued he.symm client s
    next => exact Nat.le_add_right _ _

/-- The share of a label after nobody was told of anything, if there is one, is the one before. -/
theorem Untold.share? {s' : Share} (h : c.Untold c') (hs' : c'.share? l = some s') :
    ∃ s, c.share? l = some s ∧ s.Untold s' := by
  have hrel := h.shares l
  rw [hs'] at hrel
  generalize c.share? l = t at hrel ⊢
  cases hrel with
  | some hsame => exact ⟨_, rfl, hsame⟩

theorem Untold.lasts {s : Share} (h : c.Untold c') (hs : c.share? l = some s) :
    ∃ s', c'.share? l = some s' ∧ s.Untold s' := by
  have hrel := h.shares l
  rw [hs] at hrel
  generalize c'.share? l = t at hrel ⊢
  cases hrel with
  | some hsame => exact ⟨_, rfl, hsame⟩

theorem Untold.heardAt {listener : Nat} (h : c.Untold c') :
    c'.heardAt l listener id = c.heardAt l listener id := by
  have hrel := h.shares l
  rw [Cluster.heardAt, Cluster.heardAt]
  generalize c.share? l = t, c'.share? l = t' at hrel ⊢
  cases hrel with
  | none => rfl
  | some hsame => simp only [Option.map_some, Share.heardBy, hsame.hearings]

theorem Untold.queuedAt {client : String} (h : c.Untold c') :
    c'.queuedAt l client id = c.queuedAt l client id := by
  have hrel := h.shares l
  rw [Cluster.queuedAt, Cluster.queuedAt]
  generalize c.share? l = t, c'.share? l = t' at hrel ⊢
  cases hrel with
  | none => rfl
  | some hsame => simp only [Option.map_some, Share.queuedFor, hsame.notifications]

theorem Untold.tells (hu : c.Untold c') (hc : c.Arranged) : Tells id l h q c c' where
  arranged m l s' hm hs' := by
    obtain ⟨s, hs, hsame⟩ := hu.share? hs'
    rw [hsame.member]
    exact hc m l s (hu.handlers m l hm) hs
  members l s hs := by
    obtain ⟨s', hs', hsame⟩ := hu.lasts hs
    exact ⟨s', hs', hsame.member⟩
  heard _ := by
    rw [hu.heardAt]
    exact Nat.le_add_right _ _
  queued _ := by
    rw [hu.queuedAt]
    exact Nat.le_add_right _ _

theorem Tells.refl (hc : c.Arranged) : Tells id l 0 0 c c := (Untold.refl c).tells hc

theorem tells_tellListeners (hc : c.Arranged) (e : RegionEvent) :
    Tells id l (if l' = l then 1 else 0) 0 c (c.modifyShare l' (·.tellListeners e)) := by
  refine tells_modifyShare hc (fun _ => rfl) (fun he listener s => ?_) fun _ _ _ => Nat.le_refl _
  rw [if_pos he]
  exact s.heardBy_tellListeners e

theorem tells_tellClients (hc : c.Arranged) (e : RegionEvent) :
    Tells id l 0 (if l' = l then 1 else 0) c (c.modifyShare l' (·.tellClients e)) := by
  refine tells_modifyShare hc (fun _ => rfl) (fun _ _ _ => Nat.le_add_right _ _) fun he client s => ?_
  rw [if_pos he]
  exact s.queuedFor_tellClients e

end Cluster
end DataGrid
