import DataGrid.Proofs.Bucket.Aware
import DataGrid.Proofs.Clear.Loops
import DataGrid.Proofs.Cluster.Staffed

/-
What the work of a coordinator does to the buckets of a cluster, whatever state
they are in and whether or not the work succeeds. No member and no bucket comes
or goes, and each bucket changes in one way (`Turns`): not at all but for its
gate (`Still`), or by being emptied if its member is primary (`Cleansed`), or in
what its advisor knows (`Advised`), such as a primary where it knew none
(`Assigned`).

A local clear that succeeds has emptied all buckets whose primary the member is
(`attains_clearLocal`).
-/

namespace DataGrid

/-! ## What becomes of a bucket -/

namespace Bucket

/-- At most the gate of the bucket is another. -/
structure Still (b b' : Bucket) : Prop where
  advisor : b'.advisor = b.advisor
  copy : b'.copy = b.copy

/-- The bucket may have been emptied, if the member is primary. -/
structure Cleansed (b b' : Bucket) : Prop where
  advisor : b'.advisor = b.advisor
  copy : b'.copy = b.copy ∨ b.advisor.isPrimary = true ∧ b'.copy.Known ∧ b'.copy.Vacant

/-- What the advisor of the bucket knows may be another. -/
structure Advised (b b' : Bucket) : Prop where
  bucketId : b'.advisor.bucketId = b.advisor.bucketId
  copy : b'.copy = b.copy

/-- Whom the advisor of a bucket knows as primary, if anybody, it goes on knowing. -/
structure Loyal (b b' : Bucket) : Prop where
  state : b.advisor.hasPrimary = true → b'.advisor.state = b.advisor.state
  primary : b.advisor.hasPrimary = true → b'.advisor.primary = b.advisor.primary

/-- The bucket may have got a primary, if its advisor knew none. -/
structure Assigned (b b' : Bucket) : Prop where
  advised : Advised b b'
  loyal : Loyal b b'

variable {a b b' : Bucket} {id : Nat}

theorem Loyal.of_advisor (h : b'.advisor = b.advisor) : Loyal b b' :=
  ⟨fun _ => by rw [h], fun _ => by rw [h]⟩

theorem Loyal.hasPrimary (h : Loyal b b') (hb : b.advisor.hasPrimary = true) :
    b'.advisor.hasPrimary = true := by
  rw [Advisor.hasPrimary, h.primary hb]
  exact hb

theorem Loyal.trans (h : Loyal a b) (h' : Loyal b b') : Loyal a b' where
  state ha := (h'.state (h.hasPrimary ha)).trans (h.state ha)
  primary ha := (h'.primary (h.hasPrimary ha)).trans (h.primary ha)

theorem Still.cleansed (h : Still b b') : Cleansed b b' := ⟨h.advisor, .inl h.copy⟩

theorem Still.advised (h : Still b b') : Advised b b' := ⟨by rw [h.advisor], h.copy⟩

theorem Still.assigned (h : Still b b') : Assigned b b' := ⟨h.advised, .of_advisor h.advisor⟩

theorem Cleansed.isPrimary (h : Cleansed b b') : b'.advisor.isPrimary = b.advisor.isPrimary := by
  rw [h.advisor]

/-- What was empty stays so. -/
theorem Cleansed.vacant (h : Cleansed b b') (hb : b.copy.Vacant) : b'.copy.Vacant := by
  rcases h.copy with hcopy | ⟨-, -, hvacant⟩
  · rw [hcopy]
    exact hb
  · exact hvacant

/-- A kind of change that may be made any number of times, to buckets that know all versions in
them. -/
structure Transit (touch : Bucket → Bucket → Prop) : Prop where
  refl : ∀ b, touch b b
  trans : ∀ {a b b'}, touch a b → touch b b' → touch a b'
  aware : ∀ {id b b'}, touch b b' → b.Aware id → b'.Aware id

theorem transit_still : Transit Still where
  refl _ := ⟨rfl, rfl⟩
  trans h h' := ⟨h'.advisor.trans h.advisor, h'.copy.trans h.copy⟩
  aware h hb := hb.of_copy (by rw [h.advisor]) h.copy

theorem transit_advised : Transit Advised where
  refl _ := ⟨rfl, rfl⟩
  trans h h' := ⟨h'.bucketId.trans h.bucketId, h'.copy.trans h.copy⟩
  aware h hb := hb.of_copy h.bucketId h.copy

theorem transit_assigned : Transit Assigned where
  refl b := ⟨transit_advised.refl b, .of_advisor rfl⟩
  trans h h' := ⟨transit_advised.trans h.advised h'.advised, h.loyal.trans h'.loyal⟩
  aware h hb := transit_advised.aware h.advised hb

theorem transit_cleansed : Transit Cleansed where
  refl _ := ⟨rfl, .inl rfl⟩
  trans h h' := by
    refine ⟨h'.advisor.trans h.advisor, ?_⟩
    rcases h'.copy with hcopy | ⟨hprimary, hrest⟩
    · rw [hcopy]
      exact h.copy
    · exact .inr ⟨by rw [← h.isPrimary]; exact hprimary, hrest⟩
  aware h hb := by
    rcases h.copy with hcopy | ⟨-, hknown, -⟩
    · exact hb.of_copy (by rw [h.advisor]) hcopy
    · exact ⟨by rw [h.advisor]; exact hb.bucketId, hknown⟩

theorem Aware.cleansed (h : b.Aware id) (hprimary : b.advisor.isPrimary = true) :
    Cleansed b b.clear.2 := ⟨rfl, .inr ⟨hprimary, h.clear.known, h.vacant_clear⟩⟩

end Bucket

/-! ## What becomes of a share -/

theorem rel_refl {α : Type} {r : α → α → Prop} (h : ∀ a, r a a) : ∀ a, Option.Rel r a a
  | none => .none
  | some a => .some (h a)

theorem rel_trans {α : Type} {r : α → α → Prop} (h : ∀ {a b c}, r a b → r b c → r a c) :
    ∀ {a b c}, Option.Rel r a b → Option.Rel r b c → Option.Rel r a c
  | _, _, _, .none, .none => .none
  | _, _, _, .some hab, .some hbc => .some (h hab hbc)

theorem rel_mono {α : Type} {r r' : α → α → Prop} (h : ∀ {a b}, r a b → r' a b) :
    ∀ {a b}, Option.Rel r a b → Option.Rel r' a b
  | _, _, .none => .none
  | _, _, .some hab => .some (h hab)

namespace Share

open Bucket (Transit Still Advised Assigned transit_advised transit_assigned)

variable {s s' s'' : Share} {touch : Bucket → Bucket → Prop} {id : Nat}

/-- All buckets of the share know the versions in them. -/
def Aware (s : Share) : Prop := ∀ id b, s.store.bucket? id = some b → b.Aware id

/-- Whose share it is, and whose coordinator works on it. -/
def owners (s : Share) : Member × Member := (s.member, s.coordinator.member)

/-- No bucket comes or goes, and each changes as said. -/
structure Turns (touch : Bucket → Bucket → Prop) (s s' : Share) : Prop where
  owners : s'.owners = s.owners
  buckets : ∀ id, Option.Rel touch (s.store.bucket? id) (s'.store.bucket? id)

namespace Turns

/-- The share changes, but not its buckets. -/
theorem apart (ht : Transit touch) (howners : s'.owners = s.owners)
    (hbuckets : s'.store.buckets = s.store.buckets) : Turns touch s s' :=
  ⟨howners, fun id => by
    rw [BucketStore.bucket?, BucketStore.bucket?, hbuckets]
    exact rel_refl ht.refl _⟩

theorem refl (ht : Transit touch) (s : Share) : Turns touch s s := apart ht rfl rfl

theorem trans (ht : Transit touch) (h : Turns touch s s') (h' : Turns touch s' s'') :
    Turns touch s s'' :=
  ⟨h'.owners.trans h.owners, fun id => rel_trans (r := touch) ht.trans (h.buckets id) (h'.buckets id)⟩

/-- One bucket changes. -/
theorem setBucket {b b' : Bucket} (h : Turns touch s s')
    (hb : s.store.bucket? id = some b) (htouch : touch b b') :
    Turns touch s { s' with store := s'.store.setBucket id b' } :=
  ⟨h.owners, fun id' => by
    rw [BucketStore.bucket?_setBucket]
    split
    next he =>
      rw [he, hb]
      exact .some htouch
    next => exact h.buckets id'⟩

theorem aware (ht : Transit touch) (h : Turns touch s s') (hs : s.Aware) : s'.Aware := by
  intro id b' hb'
  have hrel := h.buckets id
  rw [hb'] at hrel
  cases hb : s.store.bucket? id with
  | none =>
    rw [hb] at hrel
    cases hrel
  | some b =>
    rw [hb] at hrel
    cases hrel with
    | some htouch => exact ht.aware htouch (hs id b hb)

end Turns

/-! ### Advice -/

variable {hostsRegion : Member → Bool}

theorem turns_advise {call : AdvisorCall} {answer : AdvisorAnswer}
    (h : s.advise? hostsRegion call id = some (answer, s')) : s.Turns Advised s' := by
  obtain ⟨b, hb, heq⟩ := Option.map_eq_some_iff.1 h
  cases heq
  exact (Turns.refl transit_advised s).setBucket hb
    ⟨Advisor.bucketId_perform call b.advisor, rfl⟩

theorem turns_volunteer (s : Share) : s.Turns Assigned (s.volunteer hostsRegion id) := by
  unfold volunteer
  cases h : s.advise? hostsRegion .volunteer id with
  | none => exact .refl transit_assigned s
  | some p =>
    obtain ⟨b, hb, heq⟩ := Option.map_eq_some_iff.1 h
    cases heq
    refine (Turns.refl transit_assigned s).setBucket hb
      ⟨⟨Advisor.bucketId_perform .volunteer b.advisor, rfl⟩, ⟨fun h => ?_, fun h => ?_⟩⟩
    · exact (Advisor.volunteer_of_hasPrimary h).1
    · exact (Advisor.volunteer_of_hasPrimary h).2

theorem turns_assignPrimaries (s : Share) : s.Turns Assigned (s.assignPrimaries hostsRegion) := by
  refine List.foldlRecOn s.store.all _ (.refl transit_assigned s) fun s' h b _ => ?_
  split
  next => exact h
  next => exact h.trans transit_assigned s'.turns_volunteer

/-- The buckets of a share that hears that a member left. -/
theorem turns_bucketsHearOf (hs : s.Aware) (p : Member) :
    s.Turns Advised (s.bucketsHearOf hostsRegion p) := by
  have hall : ∀ (l : List Bucket) (r : BucketStore × List DelegateReport), (∀ b ∈ l, b ∈ s.store.all) →
      s.Turns Advised { s with store := r.1 } →
      s.Turns Advised
        { s with store := (Id.run (l.foldlM (BucketStore.bucketHearsOf hostsRegion p) r)).1 } := by
    intro l
    induction l with
    | nil => exact fun _ _ h => h
    | cons b rest ih =>
      intro r hl h
      rw [List.foldlM_cons]
      refine ih _ (fun b' hb' => hl b' (List.mem_cons_of_mem _ hb')) ?_
      -- each bucket is looked up as it was when the member left, and is put back under its own id
      obtain ⟨id, hb⟩ := BucketStore.mem_all.1 (hl b List.mem_cons_self)
      obtain rfl : b.id = id := (hs id b hb).bucketId
      exact h.setBucket hb ⟨Advisor.bucketId_memberDeparted b.advisor p, rfl⟩
  exact hall s.store.all (s.store, []) (fun _ hb => hb) (.refl transit_advised s)

end Share

/-! ## What becomes of a cluster -/

namespace Cluster

open Bucket (Still Cleansed Assigned Transit transit_still transit_cleansed transit_assigned)
open Coordinator

variable {c c' c'' o : Cluster} {l : String} {s : Share} {id : Nat}
  {touch touch' : Bucket → Bucket → Prop}

/-- No member and no bucket comes or goes, and each bucket changes as said. -/
structure Turns (touch : Bucket → Bucket → Prop) (c c' : Cluster) : Prop where
  region : c'.region = c.region
  nodes : c'.nodes = c.nodes
  handlers : c'.handlers = c.handlers
  owners : ∀ l, (c'.share? l).map Share.owners = (c.share? l).map Share.owners
  buckets : ∀ l id, Option.Rel touch (c.bucket? l id) (c'.bucket? l id)

namespace Turns

theorem of_shares (ht : Transit touch) (hregion : c'.region = c.region) (hnodes : c'.nodes = c.nodes)
    (hhandlers : c'.handlers = c.handlers) (hshares : c'.shares = c.shares) : Turns touch c c' := by
  have hshare : ∀ l, c'.share? l = c.share? l := fun l => by rw [share?, hshares, share?]
  refine ⟨hregion, hnodes, hhandlers, fun l => by rw [hshare], fun l id => ?_⟩
  rw [Cluster.bucket?, Cluster.bucket?, hshare]
  exact rel_refl ht.refl _

theorem refl (ht : Transit touch) (c : Cluster) : Turns touch c c := of_shares ht rfl rfl rfl rfl

theorem trans (ht : Transit touch) (h : Turns touch c c') (h' : Turns touch c' c'') :
    Turns touch c c'' :=
  ⟨h'.region.trans h.region, h'.nodes.trans h.nodes, h'.handlers.trans h.handlers,
    fun l => (h'.owners l).trans (h.owners l),
    fun l id => rel_trans (r := touch) ht.trans (h.buckets l id) (h'.buckets l id)⟩

theorem mono (h : Turns touch c c') (htouch : ∀ {b b'}, touch b b' → touch' b b') :
    Turns touch' c c' :=
  ⟨h.region, h.nodes, h.handlers, h.owners, fun l id => rel_mono htouch (h.buckets l id)⟩

theorem isCurrent (h : Turns touch c c') (m : Member) : c'.isCurrent m = c.isCurrent m := by
  rw [Cluster.isCurrent, h.region]
  rfl

theorem share? (h : Turns touch c c') (hs : c'.share? l = some s) :
    ∃ t, c.share? l = some t ∧ s.member = t.member ∧ s.coordinator.member = t.coordinator.member := by
  have ht : (c.share? l).map Share.owners = some s.owners := by
    rw [← h.owners, hs]
    rfl
  obtain ⟨t, ht, hsame⟩ := Option.map_eq_some_iff.1 ht
  simp only [Share.owners, Prod.mk.injEq] at hsame
  exact ⟨t, ht, hsame.1.symm, hsame.2.symm⟩

theorem bucket? (h : Turns touch c c') {b' : Bucket} (hb' : c'.bucket? l id = some b') :
    ∃ b, c.bucket? l id = some b ∧ touch b b' := by
  have hrel := h.buckets l id
  rw [hb'] at hrel
  cases hb : c.bucket? l id with
  | none =>
    rw [hb] at hrel
    cases hrel
  | some b =>
    rw [hb] at hrel
    cases hrel with
    | some htouch => exact ⟨b, rfl, htouch⟩

/-- What was empty stays so. -/
theorem vacant (h : Turns Cleansed c c')
    (hc : ∀ b, c.bucket? l id = some b → b.copy.Vacant) {b' : Bucket}
    (hb' : c'.bucket? l id = some b') : b'.copy.Vacant := by
  obtain ⟨b, hb, htouch⟩ := h.bucket? hb'
  exact htouch.vacant (hc b hb)

theorem staffed (ht : Transit touch) (h : Turns touch c c') (hc : c.Staffed Share.Aware) :
    c'.Staffed Share.Aware := by
  refine hc.of_same h.region h.nodes h.handlers (fun l => ?_) fun l s hs => ⟨fun id b' hb' => ?_, ?_⟩
  · have howners := congrArg (Option.map Prod.fst) (h.owners l)
    simp only [Option.map_map] at howners
    exact howners
  · have hfound : c'.bucket? l id = some b' := by rw [bucket?_eq hs, hb']
    obtain ⟨b, hb, htouch⟩ := h.bucket? hfound
    obtain ⟨t, hst, -⟩ := h.share? hs
    rw [bucket?_eq hst] at hb
    exact ht.aware htouch (hc.share l t hst id b hb)
  · obtain ⟨t, hst, hmember, hcoordinator⟩ := h.share? hs
    rw [hcoordinator, hmember, hc.owned l t hst]

end Turns

theorem Staffed.aware (h : c.Staffed Share.Aware) {b : Bucket} (hb : c.bucket? l id = some b) :
    b.Aware id := by
  obtain ⟨s, hs, hb⟩ := Option.bind_eq_some_iff.1 hb
  exact h.share l s hs id b hb

/-! ## Changes of one share -/

theorem turns_modifyShare (ht : Transit touch) {f : Share → Share}
    (hf : ∀ s, c.share? l = some s → s.Turns touch (f s)) : c.Turns touch (c.modifyShare l f) := by
  refine ⟨rfl, rfl, rfl, fun l' => ?_, fun l' id => ?_⟩
  · rw [share?_modifyShare]
    split
    next he =>
      subst he
      cases hs : c.share? l' with
      | none => rfl
      | some s => exact congrArg some (hf s hs).owners
    next => rfl
  · rw [Cluster.bucket?, Cluster.bucket?, share?_modifyShare]
    split
    next he =>
      subst he
      cases hs : c.share? l' with
      | none => exact .none
      | some s => exact (hf s hs).buckets id
    next => exact rel_refl ht.refl _

theorem turns_modifyBucket (ht : Transit touch) {f : Bucket → Bucket}
    (hf : ∀ b, c.bucket? l id = some b → touch b (f b)) :
    c.Turns touch (c.modifyBucket l id f) := by
  refine turns_modifyShare ht fun s hs => ⟨rfl, fun id' => ?_⟩
  simp only [BucketStore.bucket?, OrdMap.find?_modify]
  split
  next he =>
    subst he
    have hb := bucket?_eq hs id'
    cases hfound : s.store.buckets.find? id' with
    | none => exact .none
    | some b => exact .some (hf b (hb.trans hfound))
  next => exact rel_refl ht.refl _

/-! ## What the coordinator of a share does -/

/-- In a cluster whose buckets know the versions in them: the coordinator stays with its member, and
each bucket changes as said. -/
def Steady (touch : Bucket → Bucket → Prop) (s : Scene Cluster) (_ : List Effect)
    (s' : Scene Cluster) : Prop :=
  s.outside.Staffed Share.Aware →
    s'.coordinator.member = s.coordinator.member ∧ s.outside.Turns touch s'.outside

section

variable {s s' : Scene Cluster} {es es' : List Effect}

theorem Steady.mono (h : Steady touch s es s') (htouch : ∀ {b b'}, touch b b' → touch' b b') :
    Steady touch' s es' s' := fun hc => ⟨(h hc).1, (h hc).2.mono htouch⟩

theorem Steady.staffed (ht : Transit touch) (h : Steady touch s es s')
    (hc : s.outside.Staffed Share.Aware) : s'.outside.Staffed Share.Aware :=
  (h hc).2.staffed ht hc

/-- What was done is not looked at. -/
theorem Steady.trans {s₁ : Scene Cluster} {es₁ : List Effect} (ht : Transit touch)
    (h : Steady touch s es s₁) (h' : Steady touch s₁ es' s') : Steady touch s es₁ s' := fun hc => by
  obtain ⟨hmember, hturns⟩ := h hc
  obtain ⟨hmember', hturns'⟩ := h' (hturns.staffed ht hc)
  exact ⟨hmember'.trans hmember, hturns.trans ht hturns'⟩

theorem chained_steady (ht : Transit touch) : Chained (Steady touch) where
  refl s _ := ⟨rfl, .refl ht s.outside⟩
  trans h h' := h.trans ht h'

/-- Only the coordinator changes. -/
theorem steady_alter (ht : Transit touch) {f : Coordinator → Coordinator}
    (hf : ∀ k, (f k).member = k.member) : Keeps (Steady touch) (alter f : Act Cluster Unit) :=
  fun s => (Ensures.alter f).mono fun _ _ s' ⟨_, hs'⟩ _ => by
    subst hs'
    exact ⟨hf _, .refl ht s.outside⟩

theorem steady_advance (ht : Transit touch) (next : ClearPhase) :
    Keeps (Steady touch) (advance next : Act Cluster Unit) := by
  refine .get_bind fun s => .bind (chained_steady ht) (fun s => (Ensures.note _).mono ?_) fun _ =>
    steady_alter ht fun _ => rfl
  rintro - _ _ ⟨-, rfl⟩ -
  exact ⟨rfl, .refl ht s.outside⟩

theorem steady_call {α : Type} {e : Effect} {f : Cluster → Option (α × Cluster)}
    (hf : ∀ o a o', o.Staffed Share.Aware → f o = some (a, o') → o.Turns touch o') :
    Keeps (Steady touch) (Coordinator.call e f) := fun s =>
  (Ensures.call e f).mono fun a _ s' ⟨_, hans, hk⟩ hc => ⟨by rw [hk], hf _ a _ hc hans⟩

/-- Nobody leaves during a call. -/
theorem ensures_consulted {α : Type} (c : Cluster) (l : String) (e : Effect)
    (f : Cluster → Option (α × Cluster)) (s : Scene Cluster) :
    Ensures (consult (c.site l) e f) s fun a _ s' =>
      f s.outside = some (a, s'.outside) ∧ s'.coordinator = s.coordinator := by
  refine .bind ((Ensures.call e f).mono ?_)
  rintro a es s₁ ⟨-, hans, hk⟩
  refine .bind (.get_bind (.bind ((Ensures.outside _).mono ?_)))
  rintro - _ _ ⟨-, rfl⟩
  exact .pure _ (.pure a ⟨hans, hk⟩)

theorem steady_consult {α : Type} {e : Effect} {f : Cluster → Option (α × Cluster)}
    (hf : ∀ o a o', o.Staffed Share.Aware → f o = some (a, o') → o.Turns touch o') :
    Keeps (Steady touch) (consult (c.site l) e f) := fun s =>
  (ensures_consulted c l e f s).mono fun a _ s' ⟨hans, hk⟩ hc => ⟨by rw [hk], hf _ a _ hc hans⟩

theorem steady_tryTo {α : Type} {e : Effect} {f : Cluster → Except ClearError α × Cluster}
    (hf : ∀ o : Cluster, o.Staffed Share.Aware → o.Turns touch (f o).2) :
    Keeps (Steady touch) (tryTo (c.site l) e f).run :=
  steady_consult fun o a o' hc hans => by
    have ho' : (f o).2 = o' := congrArg Prod.snd (Option.some.inj hans)
    rw [← ho']
    exact hf o hc

end

/-! ## The clear lock -/

theorem turns_lockBucket {m : Member} {o' : Cluster}
    (h : (c.site l).lockBucket id m o = some o') : o.Turns Still o' := by
  obtain ⟨-, rfl⟩ | ⟨b, b', hb, hlock, rfl⟩ := lockBucket_cases h
  · exact .refl transit_still _
  · obtain ⟨g, -, rfl⟩ := Option.map_eq_some_iff.1 hlock
    refine turns_modifyBucket transit_still fun b'' hb'' => ?_
    obtain rfl : b = b'' := Option.some.inj (hb.symm.trans hb'')
    exact ⟨rfl, rfl⟩

theorem steady_obtainLocal (m : Member) : Keeps (Steady Still) (obtainLocal (c.site l) m) :=
  .obtainLocal (chained_steady transit_still) (steady_alter transit_still fun _ => rfl) fun _ =>
    steady_call fun _ _ _ _ h => turns_lockBucket (some_of_map_unit h)

theorem steady_releaseLocal : Keeps (Steady Still) (releaseLocal (c.site l)) :=
  .releaseLocal (chained_steady transit_still) (steady_alter transit_still fun _ => rfl) fun _ =>
    steady_call fun _ _ _ _ h => by
      cases h
      exact turns_modifyBucket transit_still fun _ _ => ⟨rfl, rfl⟩

/-! ## A local clear -/

/-- All buckets whose primary the member of a share is are empty. -/
def Cleared (c : Cluster) (l : String) : Prop :=
  ∀ id b, c.bucket? l id = some b → b.advisor.isPrimary = true → b.copy.Vacant

theorem Cleared.turns (h : c.Cleared l) (ht : c.Turns Cleansed c') : c'.Cleared l := by
  intro id b' hb' hprimary
  obtain ⟨b, hb, htouch⟩ := ht.bucket? hb'
  exact htouch.vacant (h id b hb (by rw [← htouch.isPrimary]; exact hprimary))

/-- The shares with some labels are cleared in the end. -/
def Clears (targets : Scene Cluster → List String) (s s' : Scene Cluster) : Prop :=
  s.outside.Staffed Share.Aware → ∀ l ∈ targets s, s'.outside.Cleared l

theorem lasting_clears {targets : Scene Cluster → List String}
    (h : ∀ s s', s'.coordinator.member = s.coordinator.member →
      s.outside.Turns Cleansed s'.outside → targets s' = targets s) :
    Lasting (Steady Cleansed) (Clears targets) where
  after hR hP hc l hl := by
    obtain ⟨hmember, hturns⟩ := hR hc
    exact hP (hturns.staffed transit_cleansed hc) l (by rw [h _ _ hmember hturns]; exact hl)
  before hR hP hR' hc l hl :=
    (hP hc l hl).turns (hR' (hR.staffed transit_cleansed hc)).2

theorem bucket?_modifyBucket_self (c : Cluster) (l : String) (id : Nat) (f : Bucket → Bucket) :
    (c.modifyBucket l id f).bucket? l id = (c.bucket? l id).map f := by
  simp only [Cluster.bucket?, modifyBucket, modifyStore, share?_modifyShare, if_true]
  cases c.share? l with
  | none => rfl
  | some s =>
    simp only [Option.map_some, Option.bind_some, BucketStore.bucket?, OrdMap.find?_modify, if_true]

/-- Buckets are cleared one after the other, and none is missed. -/
theorem ensures_clearEach (c : Cluster) (l : String) : ∀ (ids : List Nat) (s : Scene Cluster),
    Ensures (ids.mapM fun id => do
        sure (consult (c.site l) (.bucketCleared id) fun o => some ((), (c.site l).clearBucket id o))
        return id : Attempt Cluster (List Nat)).run s fun _ _ s' =>
      s.outside.Staffed Share.Aware →
      (∀ id ∈ ids, ∀ b, s.outside.bucket? l id = some b → b.advisor.isPrimary = true) →
      s'.coordinator.member = s.coordinator.member ∧ s.outside.Turns Cleansed s'.outside ∧
        ∀ id ∈ ids, ∀ b, s'.outside.bucket? l id = some b → b.copy.Vacant
  | [], s => .done [] fun _ _ => ⟨rfl, .refl transit_cleansed _, by simp⟩
  | id :: ids, s => by
    rw [List.mapM_cons]
    refine .attempt (.attempt (.sure ((ensures_consulted c l _ _ s).mono ?_)))
    rintro _ _ s₁ ⟨hcleared, hk⟩
    refine .done id (.attempt ((ensures_clearEach c l ids s₁).mono fun r es s₂ hrest => ?_))
    have hall : s.outside.Staffed Share.Aware →
        (∀ id' ∈ id :: ids, ∀ b, s.outside.bucket? l id' = some b → b.advisor.isPrimary = true) →
        s₂.coordinator.member = s.coordinator.member ∧ s.outside.Turns Cleansed s₂.outside ∧
          ∀ id' ∈ id :: ids, ∀ b, s₂.outside.bucket? l id' = some b → b.copy.Vacant := by
      intro hc hprimary
      have ho : s.outside.modifyBucket l id (·.clear.2) = s₁.outside :=
        congrArg Prod.snd (Option.some.inj hcleared)
      have hfirst : s.outside.Turns Cleansed s₁.outside := by
        rw [← ho]
        exact turns_modifyBucket transit_cleansed fun b hb =>
          (hc.aware hb).cleansed (hprimary id List.mem_cons_self b hb)
      obtain ⟨hmember, hturns, hvacant⟩ := hrest (hfirst.staffed transit_cleansed hc)
        fun id' hid' b' hb' => by
          obtain ⟨b, hb, htouch⟩ := hfirst.bucket? hb'
          rw [htouch.isPrimary]
          exact hprimary id' (List.mem_cons_of_mem _ hid') b hb
      refine ⟨by rw [hmember, hk], hfirst.trans transit_cleansed hturns, fun id' hid' b hb => ?_⟩
      rcases List.mem_cons.1 hid' with rfl | hid'
      · -- what was emptied first is not filled again while the others are
        refine hturns.vacant (fun b' hb' => ?_) hb
        rw [← ho, bucket?_modifyBucket_self] at hb'
        obtain ⟨b'', hb'', rfl⟩ := Option.map_eq_some_iff.1 hb'
        exact (hc.aware hb'').vacant_clear
      · exact hvacant id' hid' b hb
    cases r with
    | error e => exact hall
    | ok rest => exact .done _ hall

/-- The buckets that a share clears are all whose primary its member is. -/
theorem attains_clearPrimaries (c : Cluster) (l : String) :
    Attains (Steady Cleansed) (Clears fun _ => [l]) (clearPrimaries (c.site l)) := fun s => by
  refine .get_attempt ?_
  cases hs : s.outside.share? l with
  | none =>
    have hbuckets : (c.site l).buckets s.outside = none := by simp only [site, hs, Option.map_none]
    rw [hbuckets]
    refine .done [] ⟨(chained_steady transit_cleansed).refl s, fun _ _ l' hl' id b hb => ?_⟩
    obtain rfl := List.mem_singleton.1 hl'
    rw [Cluster.bucket?, hs] at hb
    cases hb
  | some share =>
    rw [buckets_site hs]
    refine (ensures_clearEach c l _ s).mono fun r es s' hcleared => ?_
    have hprimary : s.outside.Staffed Share.Aware → ∀ id ∈ share.store.primaries.map Bucket.id,
        ∀ b, s.outside.bucket? l id = some b → b.advisor.isPrimary = true := by
      intro hc id hid b hb
      obtain ⟨b', hb', rfl⟩ := List.mem_map.1 hid
      obtain ⟨hb', hprimary⟩ := List.mem_filter.1 hb'
      obtain ⟨id', hid'⟩ := BucketStore.mem_all.1 hb'
      have haware := hc.share l share hs id' b' hid'
      obtain rfl : b'.id = id' := haware.bucketId
      rw [bucket?_eq hs, hid'] at hb
      cases hb
      exact hprimary
    refine ⟨fun hc => ?_, fun _ hc l' hl' id b hb hprimary' => ?_⟩
    · obtain ⟨hmember, hturns, -⟩ := hcleared hc (hprimary hc)
      exact ⟨hmember, hturns⟩
    · obtain rfl := List.mem_singleton.1 hl'
      obtain ⟨-, hturns, hvacant⟩ := hcleared hc (hprimary hc)
      -- a clear makes nobody primary, so that the bucket was on the list
      refine hvacant id ?_ b hb
      obtain ⟨b', hb', htouch⟩ := hturns.bucket? hb
      rw [htouch.isPrimary] at hprimary'
      obtain rfl : b'.id = id := (hc.aware hb').bucketId
      rw [bucket?_eq hs] at hb'
      exact List.mem_map.2 ⟨b', List.mem_filter.2 ⟨BucketStore.mem_all.2 ⟨_, hb'⟩, hprimary'⟩, rfl⟩

theorem allows_cleansed (c : Cluster) (l : String) : (c.site l).Allows (Steady Cleansed) where
  chained := chained_steady transit_cleansed
  polls id := steady_consult fun o a o' _ h => by
    cases h
    exact .refl transit_cleansed o
  clears := (attains_clearPrimaries c l).keeps
  looksAway := steady_alter transit_cleansed fun _ => rfl
  tellsClients e := steady_consult fun o a o' _ h => by
    cases h
    exact turns_modifyShare transit_cleansed fun _ _ => .apart transit_cleansed rfl rfl
  tellsListeners e := steady_consult fun o a o' _ h => by
    cases h
    exact turns_modifyShare transit_cleansed fun _ _ => .apart transit_cleansed rfl rfl

theorem turns_lockCreation {o' : Cluster} (h : (c.site l).lockCreation o = some o') :
    o.Turns Cleansed o' := by
  obtain ⟨-, rfl⟩ | ⟨s, store, hs, hlock, rfl⟩ := lockCreation_cases h
  · exact .refl transit_cleansed _
  · obtain ⟨g, -, rfl⟩ := Option.map_eq_some_iff.1 hlock
    refine turns_modifyShare transit_cleansed fun s' hs' => ?_
    obtain rfl : s = s' := Option.some.inj (hs.symm.trans hs')
    exact .apart transit_cleansed rfl rfl

/-- A member that reports that it has cleared has cleared all buckets that it is primary for. -/
theorem attains_clearLocal (c : Cluster) (l : String) (rounds : Nat) (event : RegionEvent) :
    Attains (Steady Cleansed) (Clears fun _ => [l]) (clearLocal (c.site l) rounds event) := by
  refine (allows_cleansed c l).attains_clearLocal (lasting_clears fun _ _ _ _ => rfl)
    (attains_clearPrimaries c l) (fun s hnone _ l' hl' id b hb => ?_)
    (steady_consult fun o a o' _ h => ?_) (steady_consult fun o a o' _ h => ?_) rounds event
  · obtain rfl := List.mem_singleton.1 hl'
    obtain ⟨share, hs, -⟩ := Option.bind_eq_some_iff.1 hb
    rw [buckets_site hs] at hnone
    cases hnone
  · exact turns_lockCreation (some_of_map_unit h)
  · cases h
    exact turns_modifyShare transit_cleansed fun _ _ => .apart transit_cleansed rfl rfl

end Cluster
end DataGrid
