import Mathlib.Logic.Relation
import DataGrid.Proofs.Cluster.Staffed

/-
Clusters on which no clear works (`Cluster.Calm`): every member that is there
has a share that handles its messages, no two shares belong to one member, and
all shares are calm. A new cluster is, and it stays so whatever it is asked for
(`calm_of_steps`).
-/

namespace DataGrid

namespace Cluster

/-- A cluster on which no clear works, and which knows all members that are there. -/
structure Calm (c : Cluster) : Prop where
  running : c.isShutDown = false
  free : ∀ name, c.grantor.grants.find? name = none
  share : ∀ l s, c.share? l = some s → s.Calm c.config
  apart : ∀ l l' s s', c.share? l = some s → c.share? l' = some s' →
    s.member.same s'.member = true → l = l'
  known : ∀ m, c.isCurrent m = true → c.nodes.contains m = true
  handled : ∀ m, c.isCurrent m = true → ∃ l s, c.Handles m l s

variable {c c' : Cluster} {l : String} {s : Share}

theorem calm_new (name : String) (config : BucketConfig) (clearConfig : ClearConfig) :
    (Cluster.new name config clearConfig).Calm where
  running := rfl
  free _ := rfl
  share _ _ h := nomatch h
  apart _ _ _ _ h := nomatch h
  known _ h := nomatch h
  handled _ h := nomatch h

/-- Besides, a calm cluster is staffed with calm shares. -/
theorem Calm.staffed (h : c.Calm) : c.Staffed (·.Calm c.config) :=
  ⟨h.share, fun l s hs => (h.share l s hs).coordinator, h.apart, h.known, h.handled⟩

theorem Staffed.calm {config : BucketConfig} (h : c.Staffed (·.Calm config))
    (hconfig : c.config = config) (hrunning : c.isShutDown = false)
    (hfree : ∀ name, c.grantor.grants.find? name = none) : c.Calm :=
  ⟨hrunning, hfree, fun l s hs => hconfig ▸ h.share l s hs, h.apart, h.known, h.handled⟩

/-- Shares of the same members take the place of the shares. -/
theorem Calm.reshared (h : c.Calm) {shares : OrdMap String Share}
    (hmember : ∀ l, (shares.find? l).map Share.member = (c.share? l).map Share.member)
    (hcalm : ∀ l s, shares.find? l = some s → s.Calm c.config) : Calm { c with shares } := by
  have hstaffed : Staffed (·.Calm c.config) { c with shares } :=
    h.staffed.of_same rfl rfl rfl hmember fun l s hs => ⟨hcalm l s hs, (hcalm l s hs).coordinator⟩
  exact hstaffed.calm rfl h.running h.free

theorem Calm.modifyShare (h : c.Calm) {f : Share → Share}
    (hf : ∀ s, c.share? l = some s → s.Calm c.config →
      (f s).Calm c.config ∧ (f s).member = s.member) : (c.modifyShare l f).Calm := by
  refine h.reshared (fun l' => ?_) fun l' s' hs' => ?_
  · have hl := share?_modifyShare c l l' f
    rw [share?] at hl
    unfold Cluster.modifyShare at hl
    rw [hl]
    split
    next he =>
      cases hs : c.share? l' with
      | none => rfl
      | some s =>
        simp only [Option.map_some, Option.some.injEq]
        exact (hf s (by rw [← he]; exact hs) (h.share l' s hs)).2
    next => rfl
  · have hl : (c.modifyShare l f).share? l' = some s' := hs'
    rw [share?_modifyShare] at hl
    split at hl
    next he =>
      obtain ⟨s, hs, rfl⟩ := Option.map_eq_some_iff.1 hl
      exact (hf s (by rw [← he]; exact hs) (h.share l' s hs)).1
    next => exact h.share l' s' hl

/-! ## Members come -/

theorem calm_newShare (c : Cluster) (m : Member) : (c.newShare m).Calm c.config where
  store := ⟨rfl, rfl, fun _ _ h => nomatch h⟩
  coordinator := rfl
  unlocked := rfl

/-- A member that was not there before has a share of its own. -/
theorem Calm.add (h : c.Calm) {m : Member} (hl : c.share? l = none)
    (hm : ∀ l s, c.share? l = some s → s.member.same m = false) : (c.add l m).Calm := by
  have hout := h.staffed.isCurrent_eq_false hm
  have hstaffed := h.staffed.add hl hm (c.calm_newShare m)
  refine hstaffed.calm ?_ ?_ fun name => ?_
  · simp only [Cluster.add, changeView_joined hout]
  · simp only [Cluster.add, changeView_joined hout]
    exact h.running
  · simp only [Cluster.add, changeView_joined hout]
    exact h.free name

/-! ## Members leave -/

/-- What a share is once it has heard that a member left. -/
theorem Calm.shareHearsOf (h : c.Calm) (p : Member) (l : String) : (shareHearsOf p c l).Calm := by
  have hbuckets : (c.modifyShare l (·.bucketsHearOf c.region.hasRegion p)).Calm :=
    h.modifyShare fun s _ hs => hs.bucketsHearOf _ p
  rw [Cluster.shareHearsOf]
  generalize c.modifyShare l (·.bucketsHearOf c.region.hasRegion p) = o at hbuckets ⊢
  cases hs : o.share? l with
  | none =>
    simp only [coordinate, hs, bind, Option.bind, Option.map_none, Option.getD_none]
    exact hbuckets
  | some s =>
    have hcalm := hbuckets.share l s hs
    have hwork : Yields (Coordinator.memberDeparted (o.site l) p) s.coordinator o ()
        { s.coordinator with membershipChanged := true } o := by
      refine .bind (.note _) (.bind (.alter _) (.get_bind fun effects => .ite (fun hheld => ?_)
        fun _ => .pure ()))
      rw [hcalm.unlocked] at hheld
      cases hheld
    rw [coordinate_eq hs hwork]
    refine hbuckets.modifyShare fun s' hs' h' => ?_
    obtain rfl : s' = s := Option.some.inj (hs'.symm.trans hs)
    exact ⟨⟨h'.store, h'.coordinator, h'.unlocked⟩, rfl⟩

/-- What is left of the others once a member has crashed. -/
theorem Calm.crash (h : c.Calm) (m : Member) : (c.crash m).Calm := by
  obtain ⟨labels, region, grantor, hcrash, hview, hfree⟩ := crash_eq c m
  have hwithout := (h.staffed.without m grantor hview).calm rfl h.running
    fun name => hfree name (h.free name)
  rw [hcrash]
  exact List.foldlRecOn labels _ hwithout fun c' h' l _ => h'.shareHearsOf m l

/-! ## What a cluster goes through -/

theorem Calm.setShare (h : c.Calm) (hs : c.share? l = some s) {s' : Share} (hcalm : s'.Calm c.config)
    (hmember : s'.member = s.member) : (c.setShare l s').Calm := by
  refine h.reshared (fun l' => ?_) fun l' t ht => ?_
  · show ((c.setShare l s').share? l').map Share.member = _
    rw [share?_setShare]
    split
    next he => rw [he, hs, Option.map_some, Option.map_some, hmember]
    next => rfl
  · have hl : (c.setShare l s').share? l' = some t := ht
    rw [share?_setShare] at hl
    split at hl
    next => cases hl; exact hcalm
    next => exact h.share l' t hl

/-- Whatever a share is asked for, if it stays calm. -/
theorem Calm.asked {α : Type} (h : c.Calm) {f : Share → Checked (α × Share)} {r : Option α}
    (hf : ∀ s a s', s.Calm c.config → f s = .ok (a, s') → s'.Calm c.config ∧ s'.member = s.member)
    (hask : c.askShare? l f = .ok (r, c')) : c'.Calm := by
  unfold askShare? at hask
  split at hask
  next =>
    cases hask
    exact h
  next s hs =>
    cases hfs : f s with
    | error e => simp [hfs, bind, Except.bind] at hask
    | ok p =>
      obtain ⟨a, s'⟩ := p
      simp only [hfs, bind, Except.bind, pure, Except.pure, Except.ok.injEq, Prod.mk.injEq] at hask
      obtain ⟨-, rfl⟩ := hask
      obtain ⟨hcalm, hmember⟩ := hf s a s' (h.share l s hs) hfs
      exact h.setShare hs hcalm hmember

/-- Members join, each for the first time and under a label of its own, and host buckets; some
want to hear of clears, or may forbid them. -/
inductive SetUp : Cluster → Cluster → Prop
  | add {c : Cluster} {l : String} {m : Member} (hl : c.share? l = none)
      (hm : ∀ l s, c.share? l = some s → s.member.same m = false) : SetUp c (c.add l m)
  | host (c : Cluster) (l : String) (id : Nat) :
      SetUp c (c.modifyShare l fun s => (s.hostBucket c.region.hasRegion id).2)
  | listen (c : Cluster) (l : String) :
      SetUp c (c.modifyShare l fun s => { s with listeners := s.listeners + 1 })
  | interest (c : Cluster) (l client : String) :
      SetUp c (c.modifyShare l fun s => { s with clients := s.clients.insert client })
  | guard (c : Cluster) (l : String) (writer : RegionEvent → Option String) :
      SetUp c (c.modifyShare l fun s => { s with writer })

/-- A cluster is set up further, entries are written and destroyed, and members crash. -/
inductive Step : Cluster → Cluster → Prop
  | setUp {c c' : Cluster} (h : SetUp c c') : Step c c'
  | put {c c' : Cluster} (l : String) (now : Int) (k : Key) (v : Value)
      {r : Option (Except ClearError Unit)} (h : c.askShare? l (·.put now k v) = .ok (r, c')) :
      Step c c'
  | destroy {c c' : Cluster} (l : String) (now : Int) (k : Key)
      {r : Option (Except ClearError Unit)} (h : c.askShare? l (·.destroy now k) = .ok (r, c')) :
      Step c c'
  | crash (c : Cluster) (m : Member) : Step c (c.crash m)

/-- That a member and its label are new can be seen from the shares. -/
theorem SetUp.add_new {m : Member} (hl : c.share? l = none)
    (hm : c.shares.values.all (fun s => !s.member.same m) = true) : SetUp c (c.add l m) := by
  refine .add hl fun l' s hs => ?_
  have hnew := List.all_eq_true.1 hm s (OrdMap.mem_values_iff.2 ⟨l', hs⟩)
  simpa using hnew

theorem Calm.setUp (h : c.Calm) (hstep : SetUp c c') : c'.Calm := by
  cases hstep with
  | add hl hm => exact h.add hl hm
  | host l id =>
    refine h.modifyShare fun s _ hs => ?_
    obtain ⟨hcalm, -, hmember, -⟩ := hs.hostBucket c.region.hasRegion id
    exact ⟨hcalm, hmember⟩
  | listen l => exact h.modifyShare fun s _ hs => ⟨⟨hs.store, hs.coordinator, hs.unlocked⟩, rfl⟩
  | interest l client =>
    exact h.modifyShare fun s _ hs => ⟨⟨hs.store, hs.coordinator, hs.unlocked⟩, rfl⟩
  | guard l writer =>
    exact h.modifyShare fun s _ hs => ⟨⟨hs.store, hs.coordinator, hs.unlocked⟩, rfl⟩

theorem Calm.step (h : c.Calm) (hstep : Step c c') : c'.Calm := by
  cases hstep with
  | setUp hset => exact h.setUp hset
  | put l now k v hask =>
    refine h.asked (fun s a s' hs ha => ?_) hask
    obtain ⟨hcalm, hkept⟩ := hs.of_put now ha
    exact ⟨hcalm, hkept.member⟩
  | destroy l now k hask =>
    refine h.asked (fun s a s' hs ha => ?_) hask
    obtain ⟨hcalm, hkept⟩ := hs.of_destroy now ha
    exact ⟨hcalm, hkept.member⟩
  | crash m => exact h.crash m

/-- Whatever a cluster has gone through since it was new. -/
theorem calm_of_steps {name : String} {config : BucketConfig} {clearConfig : ClearConfig}
    (h : Relation.ReflTransGen Step (.new name config clearConfig) c) : c.Calm := by
  induction h with
  | refl => exact calm_new name config clearConfig
  | tail _ hstep ih => exact ih.step hstep

end Cluster
end DataGrid
