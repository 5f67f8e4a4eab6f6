import DataGrid.Proofs.Cluster.Secondary

/-
The gates that clears close, and all that does not close them. Whatever is done
to the entries, the advisors and the number of buckets, a bucket is left with a
gate that there was before, or with an open one if it is new, and the clear lock
of its member stays as it is (`Share.Spares`). For a cluster this is said of one
share (`Cluster.Spares`): what is done at other shares spares it all the more.
-/

namespace DataGrid

/-! ## Buckets -/

namespace Bucket

variable {b b' : Bucket} {now : Int}

theorem gate_apply {e e' : EntryEvent} {r : Except BucketError Bool}
    (h : b.apply now e = .ok (r, e', b')) : b'.gate = b.gate := by
  simp only [apply] at h
  split at h
  next =>
    cases h
    rfl
  next =>
    split at h
    next =>
      obtain ⟨⟨applied, w⟩, -, h⟩ := bind_ok h
      cases h
      rfl
    next =>
      cases h
      rfl

theorem gate_submit {e : EntryEvent} {r : Except BucketError EntryEvent}
    (h : b.submit now e = .ok (r, b')) : b'.gate = b.gate := by
  obtain ⟨⟨applied, e', b''⟩, happ, h⟩ := bind_ok h
  cases h
  exact gate_apply happ

end Bucket

/-! ## Shares -/

namespace Share

variable {s s' s'' : Share} {P : ClearGate → Prop} {id : Nat} {b b' : Bucket}

/-- `P` holds of the gates of all buckets. -/
def Gated (P : ClearGate → Prop) (s : Share) : Prop :=
  ∀ id b, s.store.bucket? id = some b → P b.gate

theorem Gated.setBucket (h : s.Gated P) (hb : P b.gate) :
    Gated P { s with store := s.store.setBucket id b } := by
  intro id' b' hb'
  rw [BucketStore.bucket?_setBucket] at hb'
  split at hb'
  next =>
    cases hb'
    exact hb
  next => exact h id' b' hb'

/-- Whose clear lock it is and who holds it stays, and what holds of the gates that there are goes on
holding of all gates, if it holds of an open one. -/
structure Spares (s s' : Share) : Prop where
  lock : s'.coordinator.lock = s.coordinator.lock
  member : s'.coordinator.member = s.coordinator.member
  gates : ∀ P : ClearGate → Prop, P {} → s.Gated P → s'.Gated P

namespace Spares

/-- Neither the clear lock nor a bucket changes. -/
theorem of_same (hlock : s'.coordinator.lock = s.coordinator.lock)
    (hmember : s'.coordinator.member = s.coordinator.member)
    (hbuckets : s'.store.buckets = s.store.buckets) : s.Spares s' :=
  ⟨hlock, hmember, fun P _ h id b hb => h id b (by
    rw [BucketStore.bucket?, hbuckets] at hb
    exact hb)⟩

theorem refl (s : Share) : s.Spares s := of_same rfl rfl rfl

theorem trans (h : s.Spares s') (h' : s'.Spares s'') : s.Spares s'' :=
  ⟨h'.lock.trans h.lock, h'.member.trans h.member, fun P hopen hs =>
    h'.gates P hopen (h.gates P hopen hs)⟩

/-- A bucket is put in whose gate there was before. -/
theorem setBucket {id' : Nat} (h : s.Spares s') (hb : s.store.bucket? id' = some b)
    (hgate : b'.gate = b.gate) : s.Spares { s' with store := s'.store.setBucket id b' } :=
  ⟨h.lock, h.member, fun P hopen hs => (h.gates P hopen hs).setBucket (by
    rw [hgate]
    exact hs id' b hb)⟩

/-- A bucket is put in whose gate is open. -/
theorem addBucket (h : s.Spares s') (hgate : b.gate = {}) :
    s.Spares { s' with store := s'.store.setBucket id b } :=
  ⟨h.lock, h.member, fun P hopen hs => (h.gates P hopen hs).setBucket (by
    rw [hgate]
    exact hopen)⟩

end Spares

/-! ### What spares the gates -/

variable {hostsRegion : Member → Bool}

theorem spares_submit {k : Key} {answer : Except ClearError Unit}
    {f : Bucket → Checked (Except BucketError EntryEvent × Bucket)}
    (hf : ∀ b r b', f b = .ok (r, b') → b'.gate = b.gate) (h : s.submit k f = .ok (answer, s')) :
    s.Spares s' := by
  simp only [submit] at h
  split at h
  next =>
    cases h
    exact .refl s
  next b hb =>
    obtain ⟨⟨r, b'⟩, hfb, h⟩ := bind_ok h
    cases h
    exact (Spares.refl s).setBucket hb (hf b r b' hfb)

theorem spares_sweep (now : Int) (s : Share) : s.Spares (s.sweep now).2 := by
  refine ⟨rfl, rfl, fun P _ h id b hb => ?_⟩
  simp only [sweep, BucketStore.expireTombstones, BucketStore.mapBuckets, BucketStore.bucket?,
    OrdMap.find?_mapValues] at hb
  obtain ⟨b', hb', rfl⟩ := Option.map_eq_some_iff.1 hb
  exact h id b' hb'

theorem spares_advise {call : AdvisorCall} {answer : AdvisorAnswer}
    (h : s.advise? hostsRegion call id = some (answer, s')) : s.Spares s' := by
  obtain ⟨b, hb, heq⟩ := Option.map_eq_some_iff.1 h
  cases heq
  exact (Spares.refl s).setBucket hb rfl

theorem spares_volunteer (s : Share) : s.Spares (s.volunteer hostsRegion id) := by
  unfold volunteer
  cases h : s.advise? hostsRegion .volunteer id with
  | none => exact .refl s
  | some p => exact spares_advise h

theorem spares_hostBucket (s : Share) : s.Spares (s.hostBucket hostsRegion id).2 := by
  unfold hostBucket
  split
  next => exact .refl s
  next b store hcreate =>
    have hstore : s.Spares { s with store } := by
      rcases BucketStore.of_create hcreate with rfl | rfl
      · exact .refl s
      · exact (Spares.refl s).addBucket rfl
    exact hstore.trans (spares_volunteer _)

theorem spares_removeBucket (s : Share) : s.Spares (s.removeBucket id).2 := by
  refine ⟨rfl, rfl, fun P _ h id' b hb => ?_⟩
  have hb' : (s.store.remove id).2.bucket? id' = some b := hb
  rw [BucketStore.bucket?_remove] at hb'
  split at hb'
  next => cases hb'
  next => exact h id' b hb'

theorem spares_assignPrimaries (s : Share) : s.Spares (s.assignPrimaries hostsRegion) := by
  refine List.foldlRecOn s.store.all _ (.refl s) fun s' h b _ => ?_
  split
  next => exact h
  next => exact h.trans s'.spares_volunteer

/-- Each bucket is put back with the gate that it had. -/
theorem spares_bucketsHearOf (p : Member) (s : Share) : s.Spares (s.bucketsHearOf hostsRegion p) := by
  have hall : ∀ (l : List Bucket) (r : BucketStore × List DelegateReport),
      (∀ b ∈ l, ∃ id, s.store.bucket? id = some b) → s.Spares { s with store := r.1 } →
      s.Spares
        { s with store := (Id.run (l.foldlM (BucketStore.bucketHearsOf hostsRegion p) r)).1 } := by
    intro l
    induction l with
    | nil => exact fun _ _ h => h
    | cons b rest ih =>
      intro r hl h
      rw [List.foldlM_cons]
      refine ih _ (fun b' hb' => hl b' (List.mem_cons_of_mem _ hb')) ?_
      obtain ⟨id, hb⟩ := hl b List.mem_cons_self
      exact h.setBucket hb rfl
  exact hall s.store.all (s.store, []) (fun _ => BucketStore.mem_all.1) (.refl s)

end Share

/-! ## Clusters -/

namespace Cluster

variable {c c' c'' : Cluster} {l l' : String} {s s' : Share}

/-- The share of a label is spared, and who is there and handles messages stays. -/
structure Spares (l : String) (c c' : Cluster) : Prop where
  view : c'.region.view = c.region.view
  handlers : c'.handlers = c.handlers
  share : Option.Rel Share.Spares (c.share? l) (c'.share? l)

namespace Spares

/-- Nothing happens to the share. -/
theorem of_share (hview : c'.region.view = c.region.view) (hhandlers : c'.handlers = c.handlers)
    (hshare : c'.share? l = c.share? l) : c.Spares l c' :=
  ⟨hview, hhandlers, by
    rw [hshare]
    exact rel_refl Share.Spares.refl _⟩

theorem refl (l : String) (c : Cluster) : c.Spares l c := of_share rfl rfl rfl

theorem trans (h : c.Spares l c') (h' : c'.Spares l c'') : c.Spares l c'' :=
  ⟨h'.view.trans h.view, h'.handlers.trans h.handlers,
    rel_trans (r := Share.Spares) Share.Spares.trans h.share h'.share⟩

theorem isCurrent (h : c.Spares l c') (m : Member) : c'.isCurrent m = c.isCurrent m := by
  rw [Cluster.isCurrent, h.view]
  rfl

theorem share? (h : c.Spares l c') (hs' : c'.share? l = some s') :
    ∃ s, c.share? l = some s ∧ s.Spares s' := by
  have hrel := h.share
  rw [hs'] at hrel
  cases hs : c.share? l with
  | none =>
    rw [hs] at hrel
    cases hrel
  | some s =>
    rw [hs] at hrel
    cases hrel with
    | some hspares => exact ⟨s, rfl, hspares⟩

theorem absent (h : c.Spares l c') (hnone : c.share? l = none) : c'.share? l = none := by
  cases hs' : c'.share? l with
  | none => rfl
  | some s' =>
    obtain ⟨s, hs, -⟩ := h.share? hs'
    rw [hnone] at hs
    cases hs

end Spares

/-- The share of a label changes. If it is the one to be spared, it is. -/
theorem spares_modifyShare {f : Share → Share}
    (hf : l' = l → ∀ s, c.share? l = some s → s.Spares (f s)) : c.Spares l (c.modifyShare l' f) := by
  refine ⟨rfl, rfl, ?_⟩
  rw [share?_modifyShare]
  split
  next he =>
    cases hs : c.share? l with
    | none => exact .none
    | some s => exact .some (hf he.symm s hs)
  next => exact rel_refl Share.Spares.refl _

theorem spares_setShare (hs : c.share? l' = some s) (hspares : s.Spares s') :
    c.Spares l (c.setShare l' s') := by
  refine ⟨rfl, rfl, ?_⟩
  rw [share?_setShare]
  split
  next he =>
    rw [he, hs]
    exact .some hspares
  next => exact rel_refl Share.Spares.refl _

theorem spares_modifyBucket {id : Nat} {f : Bucket → Bucket}
    (hf : ∀ b, c.bucket? l' id = some b → (f b).gate = b.gate) :
    c.Spares l (c.modifyBucket l' id f) := by
  refine spares_modifyShare fun he s hs => ⟨rfl, rfl, fun P _ h id' b hb => ?_⟩
  rw [BucketStore.bucket?, OrdMap.find?_modify] at hb
  split at hb
  next hid =>
    obtain ⟨b', hb', rfl⟩ := Option.map_eq_some_iff.1 hb
    rw [hf b' (by rw [he, bucket?_eq hs, ← hid]; exact hb')]
    exact h id' b' hb'
  next => exact h id' b hb

theorem spares_askShare {α : Type} {f : Share → Checked (α × Share)} {r : Option α}
    (hf : ∀ s a s', f s = .ok (a, s') → s.Spares s') (h : c.askShare? l' f = .ok (r, c')) :
    c.Spares l c' := by
  unfold askShare? at h
  split at h
  next =>
    cases h
    exact .refl l c
  next s hs =>
    obtain ⟨⟨a, s'⟩, hfs, h⟩ := bind_ok h
    cases h
    exact spares_setShare hs (hf s a s' hfs)

end Cluster
end DataGrid
