import DataGrid.Proofs.Cluster.Messages

/-
Clusters that know all members that are there (`Staffed`): each has a share that
handles its messages, and no two shares belong to one member. So a clear, which
goes to the recorded members, reaches the share of every member that is there
(`Staffed.mem_reached`).

What else holds of each share is left open, since it depends on what the shares
have gone through.
-/

namespace DataGrid.Cluster

variable {c c' : Cluster} {l l' : String} {s s' : Share} {m : Member} {P Q : Share → Prop}

theorem isCurrent_congr (c : Cluster) {m m' : Member} (he : m.same m' = true) :
    c.isCurrent m = c.isCurrent m' :=
  OrdSet.contains_congr _ (Member.same_iff.1 he)

theorem share?_setShare (c : Cluster) (l l' : String) (s : Share) :
    (c.setShare l s).share? l' = if l' = l then some s else c.share? l' := by
  simp only [setShare, share?, OrdMap.find?_insert, Std.compare_eq_iff_eq]

/-- The cluster knows all members that are there. Each has a share that handles its messages, no two
shares belong to one member, and `P` holds of all shares. -/
structure Staffed (P : Share → Prop) (c : Cluster) : Prop where
  share : ∀ l s, c.share? l = some s → P s
  owned : ∀ l s, c.share? l = some s → s.coordinator.member = s.member
  apart : ∀ l l' s s', c.share? l = some s → c.share? l' = some s' →
    s.member.same s'.member = true → l = l'
  known : ∀ m, c.isCurrent m = true → c.nodes.contains m = true
  handled : ∀ m, c.isCurrent m = true → ∃ l s, c.Handles m l s

namespace Staffed

theorem new (name : String) (config : BucketConfig) (clearConfig : ClearConfig) :
    (Cluster.new name config clearConfig).Staffed P where
  share _ _ h := nomatch h
  owned _ _ h := nomatch h
  apart _ _ _ _ h := nomatch h
  known _ h := nomatch h
  handled _ h := nomatch h

/-- Shares of the same members take the place of the shares, and no member comes or goes. -/
theorem of_same (h : c.Staffed P) (hregion : c'.region = c.region) (hnodes : c'.nodes = c.nodes)
    (hhandlers : c'.handlers = c.handlers)
    (hmember : ∀ l, (c'.share? l).map Share.member = (c.share? l).map Share.member)
    (hshare : ∀ l s, c'.share? l = some s → Q s ∧ s.coordinator.member = s.member) :
    c'.Staffed Q := by
  have hcurrent : ∀ m, c'.isCurrent m = c.isCurrent m := fun m => by
    rw [isCurrent, hregion]
    rfl
  have hfound : ∀ {l s}, c'.share? l = some s →
      ∃ t, c.share? l = some t ∧ t.member = s.member := fun {l s} hs => by
    refine Option.map_eq_some_iff.1 ?_
    rw [← hmember, hs]
    rfl
  refine ⟨fun l s hs => (hshare l s hs).1, fun l s hs => (hshare l s hs).2,
    fun l l' s s' hs hs' hsame => ?_, fun m hm => ?_, fun m hm => ?_⟩
  · obtain ⟨t, ht, htm⟩ := hfound hs
    obtain ⟨t', ht', htm'⟩ := hfound hs'
    exact h.apart l l' t t' ht ht' (by rw [htm, htm']; exact hsame)
  · rw [hnodes]
    exact h.known m (by rw [← hcurrent]; exact hm)
  · obtain ⟨l, s, hl⟩ := h.handled m (by rw [← hcurrent]; exact hm)
    have hl' : (c'.share? l).map Share.member = some s.member := by
      rw [hmember, hl.share]
      rfl
    obtain ⟨s', hs', hm'⟩ := Option.map_eq_some_iff.1 hl'
    refine ⟨l, s', hm, by rw [hhandlers]; exact hl.handler, hs', ?_⟩
    rw [(hshare l s' hs').2, hm', ← h.owned l s hl.share]
    exact hl.member

theorem modifyShare (h : c.Staffed P) {f : Share → Share}
    (hf : ∀ s, c.share? l = some s → P s → P (f s) ∧ (f s).member = s.member ∧
      (f s).coordinator.member = s.coordinator.member) : (c.modifyShare l f).Staffed P := by
  refine h.of_same rfl rfl rfl (fun l' => ?_) fun l' t ht => ?_
  · rw [share?_modifyShare]
    split
    next he =>
      subst he
      cases hs : c.share? l' with
      | none => rfl
      | some s => exact congrArg some (hf s hs (h.share l' s hs)).2.1
    next => rfl
  · rw [share?_modifyShare] at ht
    split at ht
    next he =>
      subst he
      obtain ⟨s, hs, rfl⟩ := Option.map_eq_some_iff.1 ht
      obtain ⟨hP, hmember, hcoordinator⟩ := hf s hs (h.share l' s hs)
      exact ⟨hP, by rw [hcoordinator, hmember, h.owned l' s hs]⟩
    next => exact ⟨h.share l' t ht, h.owned l' t ht⟩

theorem setShare (h : c.Staffed P) (hs : c.share? l = some s) (hP : P s')
    (hmember : s'.member = s.member) (howned : s'.coordinator.member = s'.member) :
    (c.setShare l s').Staffed P := by
  refine h.of_same rfl rfl rfl (fun l' => ?_) fun l' t ht => ?_
  · rw [share?_setShare]
    split
    next he => rw [he, hs, Option.map_some, Option.map_some, hmember]
    next => rfl
  · rw [share?_setShare] at ht
    split at ht
    next =>
      cases ht
      exact ⟨hP, howned⟩
    next => exact ⟨h.share l' t ht, h.owned l' t ht⟩

/-- A member that is there handles its messages itself. -/
theorem handles (h : c.Staffed P) (hs : c.share? l = some s) (hm : c.isCurrent s.member = true) :
    c.Handles s.member l s := by
  obtain ⟨l', s', hl'⟩ := h.handled _ hm
  have hsame : s.member.same s'.member = true := by
    rw [← h.owned l' s' hl'.share]
    exact Member.same_symm hl'.member
  obtain rfl := h.apart l l' s s' hs hl'.share hsame
  obtain rfl : s' = s := Option.some.inj (hl'.share.symm.trans hs)
  exact hl'

/-- Nobody is there who has no share. -/
theorem isCurrent_eq_false (h : c.Staffed P)
    (hm : ∀ l s, c.share? l = some s → s.member.same m = false) : c.isCurrent m = false := by
  rw [Bool.eq_false_iff]
  intro hcur
  obtain ⟨l, s, hl⟩ := h.handled m hcur
  have hsame := hl.member
  rw [h.owned l s hl.share] at hsame
  exact Bool.false_ne_true ((hm l s hl.share).symm.trans hsame)

end Staffed

/-! ## Members come and go -/

theorem changeView_joined (hm : c.isCurrent m = false) :
    c.changeView (.joined m) = (true, { c with region := { c.region with
      view := ⟨c.region.view.id + 1, c.region.view.members.insert m⟩ } }) := by
  have hview : c.region.view.change? (.joined m) =
      some ⟨c.region.view.id + 1, c.region.view.members.insert m⟩ := by
    rw [isCurrent] at hm
    simp only [View.change?, hm, Bool.false_eq_true, if_false]
  simp only [changeView, HostedRegion.change, hview]

section

variable (hm : c.isCurrent m = false)

include hm

theorem share?_add (l l' : String) :
    (c.add l m).share? l' = if l' = l then some (c.newShare m) else c.share? l' := by
  simp only [add, changeView_joined hm, share?, OrdMap.find?_insert, Std.compare_eq_iff_eq]
  rfl

theorem isCurrent_add (l : String) (m' : Member) :
    (c.add l m).isCurrent m' = (compare m' m == .eq || c.isCurrent m') := by
  simp only [add, changeView_joined hm, isCurrent, HostedRegion.addHost, View.isCurrent,
    OrdSet.contains_insert]

theorem nodes_add (l : String) (m' : Member) :
    (c.add l m).nodes.contains m' = (compare m' m == .eq || c.nodes.contains m') := by
  simp only [add, changeView_joined hm, NodeSet.add, NodeSet.contains, OrdSet.contains_insert]

theorem handler_add (l : String) (m' : Member) :
    (c.add l m).handlers.find? m' =
      if compare m' m = .eq then some l else (c.handlers.find? m').filter (· != l) := by
  simp only [add, changeView_joined hm, OrdMap.find?_insert, OrdMap.find?_filter]

end

/-- Nobody hears of the departure of a member that is not there. -/
theorem changeView_absent (hm : c.isCurrent m = false) (crashed : Bool) :
    (c.changeView (.departed m crashed)).2 = c := by
  have hview : c.region.view.change? (.departed m crashed) = none := by
    rw [isCurrent] at hm
    simp only [View.change?, hm, Bool.false_eq_true, if_false]
  simp only [changeView, HostedRegion.change, hview]

/-- The region once a member has left. -/
def regionWithout (c : Cluster) (m : Member) : HostedRegion :=
  ⟨⟨c.region.view.id + 1, c.region.view.members.erase m⟩, (c.region.hosts.remove m).2⟩

theorem isCurrent_regionWithout (c : Cluster) (m m' : Member) :
    (c.regionWithout m).view.isCurrent m' = true ↔ c.isCurrent m' = true ∧ compare m' m ≠ .eq := by
  by_cases he : compare m' m = .eq
  · simp [regionWithout, View.isCurrent, OrdSet.contains_congr _ he, OrdSet.contains_erase_self, he]
  · simp [regionWithout, View.isCurrent, OrdSet.contains_erase_other _ he, isCurrent, he]

/-- When a member leaves, its locks are released, and all shares hear of it. -/
theorem changeView_leaves (hm : c.isCurrent m = true) (crashed : Bool) :
    (c.changeView (.departed m crashed)).2 = c.shares.keys.foldl (shareHearsOf m)
      { c with region := c.regionWithout m, grantor := (c.grantor.releaseAll m).2 } := by
  have hview : c.region.view.change? (.departed m crashed) =
      some ⟨c.region.view.id + 1, c.region.view.members.erase m⟩ := by
    rw [isCurrent] at hm
    simp only [View.change?, hm, if_true]
  simp only [changeView, HostedRegion.change, hview, regionWithout]

/-- Whoever leaves, only its locks are released, and only shares hear of it. -/
theorem changeView_departed (c : Cluster) (m : Member) (crashed : Bool) :
    ∃ (labels : List String) (region : HostedRegion) (grantor : LockGrantor),
    (c.changeView (.departed m crashed)).2 =
      labels.foldl (shareHearsOf m) { c with region, grantor } ∧
    (∀ m', region.view.isCurrent m' = true → c.isCurrent m' = true ∧ compare m' m ≠ .eq) ∧
    ∀ name, c.grantor.grants.find? name = none → grantor.grants.find? name = none := by
  cases hm : c.isCurrent m with
  | false =>
    refine ⟨[], c.region, c.grantor, changeView_absent hm crashed, fun m' hm' => ⟨hm', fun he => ?_⟩,
      fun _ h => h⟩
    have hcur : c.isCurrent m = true := by
      rw [isCurrent, View.isCurrent, ← OrdSet.contains_congr _ he]
      exact hm'
    rw [hm] at hcur
    cases hcur
  | true =>
    refine ⟨c.shares.keys, c.regionWithout m, (c.grantor.releaseAll m).2, changeView_leaves hm crashed,
      fun m' => (c.isCurrent_regionWithout m m').1, fun name h => ?_⟩
    simp only [LockGrantor.releaseAll, OrdMap.find?_filter, h]
    rfl

/-- A member that crashes is forgotten, and then the shares hear of it. -/
theorem crash_eq (c : Cluster) (m : Member) :
    ∃ (labels : List String) (region : HostedRegion) (grantor : LockGrantor),
    c.crash m = labels.foldl (shareHearsOf m)
      { c.unregister m with nodes := (c.nodes.remove m).2, region, grantor } ∧
    (∀ m', region.view.isCurrent m' = true → c.isCurrent m' = true ∧ compare m' m ≠ .eq) ∧
    ∀ name, c.grantor.grants.find? name = none → grantor.grants.find? name = none :=
  changeView_departed { c.unregister m with nodes := (c.nodes.remove m).2 } m true

namespace Staffed

section

variable (h : c.Staffed P) (hl : c.share? l = none)
  (hm : ∀ l s, c.share? l = some s → s.member.same m = false)

include h hm

theorem apart_add {l₁ l₂ : String} {s₁ s₂ : Share} (hs₁ : (c.add l m).share? l₁ = some s₁)
    (hs₂ : (c.add l m).share? l₂ = some s₂) (hsame : s₁.member.same s₂.member = true) : l₁ = l₂ := by
  have hout := h.isCurrent_eq_false hm
  rw [share?_add hout] at hs₁ hs₂
  split at hs₁
  next he₁ =>
    split at hs₂
    next he₂ => rw [he₁, he₂]
    next =>
      cases hs₁
      have hyes : s₂.member.same m = true := Member.same_symm hsame
      exact absurd (hm l₂ s₂ hs₂) (by rw [hyes]; decide)
  next =>
    split at hs₂
    next he₂ =>
      cases hs₂
      have hyes : s₁.member.same m = true := hsame
      exact absurd (hm l₁ s₁ hs₁) (by rw [hyes]; decide)
    next => exact h.apart l₁ l₂ s₁ s₂ hs₁ hs₂ hsame

include hl

theorem handled_add {m' : Member} (hm' : (c.add l m).isCurrent m' = true) :
    ∃ l' s, (c.add l m).Handles m' l' s := by
  have hout := h.isCurrent_eq_false hm
  by_cases he : compare m' m = .eq
  · refine ⟨l, c.newShare m, hm', ?_, ?_, ?_⟩
    · rw [handler_add hout, if_pos he]
    · rw [share?_add hout, if_pos rfl]
    · exact Member.same_symm (Member.same_iff.2 he)
  · have hcur : c.isCurrent m' = true := by
      rw [isCurrent_add hout] at hm'
      simpa [he] using hm'
    obtain ⟨l', s, hl'⟩ := h.handled m' hcur
    have hne : l' ≠ l := fun he => by
      rw [he] at hl'
      exact nomatch hl.symm.trans hl'.share
    refine ⟨l', s, hm', ?_, ?_, hl'.member⟩
    · rw [handler_add hout, if_neg he, hl'.handler]
      simp [hne]
    · rw [share?_add hout, if_neg hne, hl'.share]

/-- A member that was not there before has a share of its own. -/
theorem add (hnew : P (c.newShare m)) : (c.add l m).Staffed P := by
  have hout := h.isCurrent_eq_false hm
  refine ⟨fun l' s hs => ?_, fun l' s hs => ?_,
    fun _ _ _ _ hs₁ hs₂ hsame => h.apart_add hm hs₁ hs₂ hsame, fun m' hm' => ?_,
    fun _ hm' => h.handled_add hl hm hm'⟩
  · rw [share?_add hout] at hs
    split at hs
    next =>
      cases hs
      exact hnew
    next => exact h.share l' s hs
  · rw [share?_add hout] at hs
    split at hs
    next =>
      cases hs
      rfl
    next => exact h.owned l' s hs
  · rw [isCurrent_add hout] at hm'
    rw [nodes_add hout]
    rcases Bool.or_eq_true_iff.1 hm' with he | hcur
    · rw [he, Bool.true_or]
    · rw [h.known m' hcur, Bool.or_true]

end

/-- Only the view changes, and no member comes. -/
theorem fewer (h : c.Staffed P) {region : HostedRegion} (grantor : LockGrantor)
    (hview : ∀ m, region.view.isCurrent m = true → c.isCurrent m = true) :
    Staffed P { c with region, grantor } where
  share := h.share
  owned := h.owned
  apart := h.apart
  known m hm := h.known m (hview m hm)
  handled m hm := by
    obtain ⟨l, s, hl⟩ := h.handled m (hview m hm)
    exact ⟨l, s, hm, hl.handler, hl.share, hl.member⟩

/-- Nobody counts on a member that is not there any more. -/
theorem without (h : c.Staffed P) (m : Member) {region : HostedRegion} (grantor : LockGrantor)
    (hview : ∀ m', region.view.isCurrent m' = true → c.isCurrent m' = true ∧ compare m' m ≠ .eq) :
    Staffed P { c.unregister m with nodes := (c.nodes.remove m).2, region, grantor } where
  share := h.share
  owned := h.owned
  apart := h.apart
  known m' hm' := by
    obtain ⟨hcur, hne⟩ := hview m' hm'
    have hknown := h.known m' hcur
    simp only [NodeSet.remove, NodeSet.contains] at hknown ⊢
    rw [OrdSet.contains_erase_other _ hne]
    exact hknown
  handled m' hm' := by
    obtain ⟨hcur, hne⟩ := hview m' hm'
    obtain ⟨l, s, hl⟩ := h.handled m' hcur
    refine ⟨l, s, hm', ?_, hl.share, hl.member⟩
    unfold unregister
    rw [OrdMap.find?_erase_other _ hne]
    exact hl.handler

end Staffed

/-! ## Whom a clear asks -/

/-- The other members that are there, which a share asks to do their part in a clear. -/
def others (c : Cluster) (s : Share) : List Member :=
  c.nodes.members.filter fun m => !m.same s.coordinator.member && c.isCurrent m

theorem mem_others :
    m ∈ c.others s ↔
      m ∈ c.nodes.members ∧ m.same s.coordinator.member = false ∧ c.isCurrent m = true := by
  simp only [others, List.mem_filter, Bool.and_eq_true, Bool.not_eq_true']

theorem pairwise_others (c : Cluster) (s : Share) :
    (c.others s).Pairwise fun a b => compare a b ≠ .eq :=
  c.nodes.nodes.pairwise_toList.filter _

namespace Staffed

/-- Another share handles the messages for whoever is asked. -/
theorem asks (h : c.Staffed P) (hs : c.share? l = some s) (hm : m ∈ c.others s) :
    ∃ l' s', c.Handles m l' s' ∧ l' ≠ l := by
  obtain ⟨-, hother, hcur⟩ := mem_others.1 hm
  obtain ⟨l', s', hl'⟩ := h.handled m hcur
  refine ⟨l', s', hl', fun he => ?_⟩
  subst he
  have hsame := hl'.share
  rw [hs] at hsame
  cases hsame
  rw [Member.same_symm hl'.member] at hother
  cases hother

/-- The share of every member that is there clears the region or is asked to. -/
theorem mem_reached (h : c.Staffed P) (hs : c.share? l = some s) (hs' : c.share? l' = some s')
    (hlive : c.isCurrent s'.member = true) : l' ∈ l :: c.labelsOf (c.others s) := by
  by_cases he : l' = l
  · rw [he]
    exact List.mem_cons_self
  · -- the node set may name the member of the share in other words
    obtain ⟨m, hm, hsame⟩ := (OrdSet.contains_iff_mem _ _).1 (h.known _ hlive)
    have hsame' : m.same s'.member = true := Member.same_symm (Member.same_iff.2 hsame)
    have hother : m.same s.coordinator.member = false := by
      rw [Bool.eq_false_iff, h.owned l s hs]
      intro hsame''
      exact he (h.apart l' l s' s hs' hs (Member.same_trans (Member.same_symm hsame') hsame''))
    refine List.mem_cons_of_mem _ (List.mem_filterMap.2 ⟨m, mem_others.2 ⟨hm, hother, ?_⟩, ?_⟩)
    · rw [c.isCurrent_congr hsame']
      exact hlive
    · rw [← (h.handles hs' hlive).handler]
      exact OrdMap.find?_congr _ (Member.same_iff.1 hsame')

end Staffed
end DataGrid.Cluster
