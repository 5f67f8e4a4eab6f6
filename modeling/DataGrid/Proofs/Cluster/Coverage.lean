import Mathlib.Data.List.Perm.Subperm
import Mathlib.Data.List.Range
import DataGrid.Proofs.Cluster.Clear

/-
Which shares a clear reaches, and which buckets it covers. A clear reaches the
shares of all members that are there, each once (`perm_labels`), so that it
covers the region exactly if these host all its buckets, and leaves all of them
empty either way (`clear_covers`).
-/

namespace DataGrid

/-- Values can be picked out by their keys. -/
theorem OrdMap.filterMap_find? {κ ν : Type} [Ord κ] [Std.TransOrd κ] [Std.LawfulEqOrd κ]
    (m : OrdMap κ ν) (p : ν → Bool) :
    (m.keys.filter fun k => (m.find? k).any p).filterMap m.find? = m.values.filter p := by
  have hfound : ∀ q ∈ m.toList, m.find? q.1 = some q.2 := fun q hq => mem_toList_iff.1 hq
  calc (m.keys.filter fun k => (m.find? k).any p).filterMap m.find?
      = (m.toList.filter fun q => p q.2).filterMap fun q => m.find? q.1 := by
        simp only [keys, List.filter_map, List.filterMap_map, Function.comp_def]
        rw [List.filter_congr fun q hq => ?_]
        simp only [hfound q hq, Option.any_some]
    _ = (m.toList.filter fun q => p q.2).filterMap fun q => some q.2 :=
        List.filterMap_congr fun q hq => hfound q (List.mem_of_mem_filter hq)
    _ = m.values.filter p := by
        simp only [values, List.filter_map, Function.comp_def]
        exact congrFun List.filterMap_eq_map _

namespace Cluster

variable {c c' : Cluster} {l : String} {s : Share}

/-! ## Whom a clear reaches -/

/-- The shares of the members that are there. -/
def liveShares (c : Cluster) : List Share := c.shares.values.filter fun s => c.isCurrent s.member

/-- The labels of the shares of the members that are there. -/
def liveLabels (c : Cluster) : List String :=
  c.shares.keys.filter fun l => (c.share? l).any fun s => c.isCurrent s.member

theorem mem_liveLabels :
    l ∈ c.liveLabels ↔ ∃ s, c.share? l = some s ∧ c.isCurrent s.member = true := by
  simp only [liveLabels, List.mem_filter, OrdMap.mem_keys_iff, Option.any_eq_true]
  constructor
  · rintro ⟨-, s, hs, hlive⟩
    exact ⟨s, hs, hlive⟩
  · rintro ⟨s, hs, hlive⟩
    have hfound : c.shares.find? l = some s := hs
    exact ⟨by rw [hfound]; rfl, s, hs, hlive⟩

theorem mem_liveShares :
    s ∈ c.liveShares ↔ (∃ l, c.share? l = some s) ∧ c.isCurrent s.member = true := by
  simp only [liveShares, List.mem_filter, OrdMap.mem_values_iff, share?]

theorem filterMap_liveLabels (c : Cluster) : c.liveLabels.filterMap c.share? = c.liveShares :=
  c.shares.filterMap_find? fun s => c.isCurrent s.member

/-- Where the same labels are in use, there is a share for each that had one. -/
theorem share?_of_labels (h : ∀ l, (c'.share? l).isSome = (c.share? l).isSome)
    (hs : c.share? l = some s) : ∃ t, c'.share? l = some t :=
  Option.isSome_iff_exists.1 ((h l).trans (by rw [hs]; rfl))

/-- No share is asked twice. -/
theorem Calm.nodup_labels (h : c.Calm) (hs : c.share? l = some s) :
    (l :: c.labelsOf (c.others s)).Nodup := by
  refine List.nodup_cons.2 ⟨h.not_asked hs, List.pairwise_filterMap.2 ?_⟩
  refine (pairwise_others c s).imp_of_mem fun {m m'} hm hm' hne l₁ hl₁ l₂ hl₂ he => ?_
  subst he
  obtain ⟨l', s', h₁, -⟩ := h.staffed.asks hs hm
  obtain ⟨l'', s'', h₂, -⟩ := h.staffed.asks hs hm'
  obtain rfl : l' = l₁ := Option.some.inj (h₁.handler.symm.trans hl₁)
  obtain rfl : l'' = l' := Option.some.inj (h₂.handler.symm.trans hl₂)
  obtain rfl : s'' = s' := Option.some.inj (h₂.share.symm.trans h₁.share)
  exact hne (Member.same_iff.1 (Member.same_trans (Member.same_symm h₁.member) h₂.member))

/-- A clear reaches whoever is there. -/
theorem Calm.mem_labels (h : c.Calm) (hs : c.share? l = some s) (hlive : c.isCurrent s.member = true)
    (l' : String) : l' ∈ l :: c.labelsOf (c.others s) ↔ l' ∈ c.liveLabels := by
  rw [mem_liveLabels, List.mem_cons]
  constructor
  · rintro (rfl | hl')
    · exact ⟨s, hs, hlive⟩
    · obtain ⟨m, hm, hfound⟩ := List.mem_filterMap.1 hl'
      obtain ⟨l'', s', hl'', -⟩ := h.staffed.asks hs hm
      obtain rfl : l'' = l' := Option.some.inj (hl''.handler.symm.trans hfound)
      have hsame := hl''.member
      rw [(h.share _ s' hl''.share).coordinator] at hsame
      exact ⟨s', hl''.share, (c.isCurrent_congr hsame).trans hl''.current⟩
  · rintro ⟨s', hs', hlive'⟩
    exact List.mem_cons.1 (h.staffed.mem_reached hs hs' hlive')

theorem Calm.perm_labels (h : c.Calm) (hs : c.share? l = some s)
    (hlive : c.isCurrent s.member = true) : (l :: c.labelsOf (c.others s)).Perm c.liveLabels :=
  (List.perm_ext_iff_of_nodup (h.nodup_labels hs) (c.shares.nodup_keys.filter _)).2
    (h.mem_labels hs hlive)

/-- A clear gathers the ids of the buckets of all that are there. -/
theorem Calm.perm_clearedIds (h : c.Calm) (hs : c.share? l = some s)
    (hlive : c.isCurrent s.member = true) :
    (c.clearedIds s).Perm (c.liveShares.flatMap (·.store.ids)) := by
  have hshares : (s :: c.sharesOf (c.others s)).Perm c.liveShares := by
    have hperm := (h.perm_labels hs hlive).filterMap c.share?
    rw [List.filterMap_cons, hs, filterMap_liveLabels] at hperm
    exact hperm
  have hids := hshares.flatMap_right (·.store.ids)
  rw [List.flatMap_cons] at hids
  exact hids

/-! ## Which buckets a clear covers -/

theorem nodup_eraseDups {α : Type} [DecidableEq α] : ∀ l : List α, l.eraseDups.Nodup
  | [] => by simp
  | a :: l => by
    rw [List.eraseDups_cons]
    refine List.nodup_cons.2 ⟨fun ha => ?_, nodup_eraseDups (l.filter fun b => !b == a)⟩
    have hin := List.mem_eraseDups.1 ha
    simp at hin
termination_by l => l.length
decreasing_by exact Nat.lt_succ_of_le (List.length_filter_le _ _)

/-- Of ids below a number there are that many if all of them are there. -/
theorem length_eraseDups_eq_iff {ids : List Nat} {n : Nat} (h : ∀ id ∈ ids, id < n) :
    ids.eraseDups.length = n ↔ ∀ id < n, id ∈ ids := by
  have hsub : ids.eraseDups ⊆ List.range n := fun id hid =>
    List.mem_range.2 (h id (List.mem_eraseDups.1 hid))
  have hsubperm : ids.eraseDups.Subperm (List.range n) := (nodup_eraseDups ids).subperm hsub
  constructor
  · intro hlen id hid
    have hperm := hsubperm.perm_of_length_le (by rw [List.length_range, hlen])
    exact List.mem_eraseDups.1 (hperm.mem_iff.2 (List.mem_range.2 hid))
  · intro hall
    have hperm := hsubperm.antisymm (List.nodup_range.subperm fun id hid =>
      List.mem_eraseDups.2 (hall id (List.mem_range.1 hid)))
    rw [hperm.length_eq, List.length_range]

/-- The members that are there host all buckets of the region. -/
def Covered (c : Cluster) : Prop :=
  ∀ id < c.config.totalBuckets, ∃ s ∈ c.liveShares, id ∈ s.store.ids

theorem Calm.covered_iff (h : c.Calm) (hs : c.share? l = some s)
    (hlive : c.isCurrent s.member = true) :
    (c.clearedIds s).eraseDups.length = c.config.totalBuckets ↔ c.Covered := by
  have hmem : ∀ id, id ∈ c.clearedIds s ↔ ∃ s' ∈ c.liveShares, id ∈ s'.store.ids := fun id => by
    rw [(h.perm_clearedIds hs hlive).mem_iff, List.mem_flatMap]
  rw [length_eraseDups_eq_iff fun id hid => ?_]
  · exact forall₂_congr fun id _ => hmem id
  · obtain ⟨s', hs', hid'⟩ := (hmem id).1 hid
    obtain ⟨⟨l', hl'⟩, -⟩ := mem_liveShares.1 hs'
    exact (h.share l' s' hl').id_lt hid'

/-! ## What a clear leaves -/

end Cluster

/-- `t` is `s` with nothing in its buckets. -/
structure Share.Emptied (config : BucketConfig) (s t : Share) : Prop where
  calm : t.Calm config
  member : t.member = s.member
  ids : t.store.ids = s.store.ids
  empty : ∀ k, t.get? k = none
  size : t.store.size = 0

namespace Share

variable {config : BucketConfig} {s : Share}

theorem Calm.emptied (h : s.Calm config) (event : RegionEvent) {k : Coordinator}
    (hmember : k.member = s.coordinator.member) (hlock : k.lock = {}) :
    Emptied config s { s.cleared.told event with coordinator := k } := by
  obtain ⟨hcalm, hget, hsize⟩ := h.cleared
  rw [told_eq]
  exact ⟨⟨hcalm.store, hmember.trans h.coordinator, hlock⟩, rfl, BucketStore.ids_mapAll _ _, hget, hsize⟩

theorem Calm.emptied_asked (h : s.Calm config) (event : RegionEvent) :
    Emptied config s (s.clearedFor event) := h.emptied event rfl h.unlocked

end Share

namespace Cluster

variable {c c' : Cluster} {l : String} {s : Share}

theorem Left.share? {own asked : Share → Share} (h : c.Left l s own asked c') (l' : String) :
    c'.share? l' = (c.share? l').map fun s' =>
      if l' = l then own s' else if l' ∈ c.labelsOf (c.others s) then asked s' else s' := by
  obtain ⟨⟨grantor, ids, rfl⟩, -⟩ := h
  exact share?_amid l'

theorem Left.isCurrent {own asked : Share → Share} (h : c.Left l s own asked c') (m : Member) :
    c'.isCurrent m = c.isCurrent m := by
  obtain ⟨⟨grantor, ids, rfl⟩, -⟩ := h
  rfl

theorem Left.config {own asked : Share → Share} (h : c.Left l s own asked c') :
    c'.config = c.config := by
  obtain ⟨⟨grantor, ids, rfl⟩, -⟩ := h
  rfl

theorem Left.calm {own asked : Share → Share} (h : c.Left l s own asked c') (hcalm : c.Calm)
    (hs : c.share? l = some s) (hown : (own s).Calm c.config ∧ (own s).member = s.member)
    (hasked : ∀ s', s'.Calm c.config → (asked s').Calm c.config ∧ (asked s').member = s'.member) :
    c'.Calm := by
  have hkept : ∀ l' s', c.share? l' = some s' →
      let t := if l' = l then own s' else if l' ∈ c.labelsOf (c.others s) then asked s' else s'
      t.Calm c.config ∧ t.member = s'.member := by
    intro l' s' hs' t
    simp only [t]
    split
    next he =>
      obtain rfl : s' = s := Option.some.inj (hs'.symm.trans (by rw [he, hs]))
      exact hown
    next =>
      split
      next => exact hasked s' (hcalm.share l' s' hs')
      next => exact ⟨hcalm.share l' s' hs', rfl⟩
  have hfree := h.free
  have hshare := h.share?
  obtain ⟨⟨grantor, ids, rfl⟩, -⟩ := h
  have hshares : Calm { c with shares := (c.amid l s own asked grantor ids).shares } := by
    refine hcalm.reshared (fun l' => ?_) fun l' t ht => ?_
    · have hl : (c.amid l s own asked grantor ids).shares.find? l' = _ := hshare l'
      rw [hl]
      cases hs' : c.share? l' with
      | none => rfl
      | some s' => exact congrArg some (hkept l' s' hs').2
    · have hl := (hshare l').symm.trans ht
      obtain ⟨s', hs', rfl⟩ := Option.map_eq_some_iff.1 hl
      exact (hkept l' s' hs').1
  exact hshares.regranted hfree ids

/-- Every share that is there is emptied by a clear that is let pass, and nothing else changes that
concerns a share. -/
theorem Calm.clear_emptied (h : c.Calm) (hs : c.share? l = some s)
    (hlive : c.isCurrent s.member = true) (hveto : s.writer (c.clearEventOf s) = none) :
    ∃ c', c.clear l = some (c.clearAnswer (.ok (c.clearedIds s)), c') ∧ c'.Calm ∧
      c'.config = c.config ∧ (∀ m, c'.isCurrent m = c.isCurrent m) ∧
      (∀ l', (c'.share? l').isSome = (c.share? l').isSome) ∧
      ∀ l' s', c.share? l' = some s' → ∃ t, c'.share? l' = some t ∧
        (c.isCurrent s'.member = true → s'.Emptied c.config t) ∧
        (c.isCurrent s'.member = false → t = s') := by
  obtain ⟨k, c', hrun, hleft, hmember, hlock⟩ := h.clear_passed hs hlive hveto
  have hown := (h.share l s hs).emptied (c.clearEventOf s) hmember hlock
  have hasked := fun (s' : Share) (hs' : s'.Calm c.config) =>
    hs'.emptied_asked (c.clearEventOf s).toRemote
  refine ⟨c', hrun, hleft.calm h hs ⟨hown.calm, hown.member⟩ fun s' hs' =>
    ⟨(hasked s' hs').calm, (hasked s' hs').member⟩, hleft.config, hleft.isCurrent, fun l' => ?_,
    fun l' s' hs' => ?_⟩
  · rw [hleft.share?, Option.isSome_map]
  have hlabel := h.mem_labels hs hlive l'
  rw [mem_liveLabels, List.mem_cons] at hlabel
  have ht := hleft.share? l'
  rw [hs', Option.map_some] at ht
  refine ⟨_, ht, fun hlive' => ?_, fun hgone => ?_⟩
  · by_cases he : l' = l
    · subst he
      obtain rfl : s' = s := Option.some.inj (hs'.symm.trans hs)
      rw [if_pos rfl]
      exact hown
    · rw [if_neg he, if_pos ((hlabel.2 ⟨s', hs', hlive'⟩).resolve_left he)]
      exact hasked s' (h.share l' s' hs')
  · have hout : ¬ (l' = l ∨ l' ∈ c.labelsOf (c.others s)) := fun hin => by
      obtain ⟨s'', hs'', hlive''⟩ := hlabel.1 hin
      obtain rfl : s'' = s' := Option.some.inj (hs''.symm.trans hs')
      rw [hgone] at hlive''
      cases hlive''
    rw [not_or] at hout
    rw [if_neg hout.1, if_neg hout.2]

/-- A clear that is not let pass leaves all buckets as they are. -/
theorem Calm.clear_untouched (h : c.Calm) (hs : c.share? l = some s) {reason : String}
    (hveto : s.writer (c.clearEventOf s) = some reason) :
    ∃ c', c.clear l = some (.error (.cacheWriter reason), c') ∧ c'.Calm ∧
      c'.config = c.config ∧ (∀ m, c'.isCurrent m = c.isCurrent m) ∧
      (∀ l', (c'.share? l').isSome = (c.share? l').isSome) ∧
      ∀ l' s' t, c.share? l' = some s' → c'.share? l' = some t → t.store = s'.store := by
  obtain ⟨k, c', hrun, hleft, hmember, hlock⟩ := h.clear_vetoed hs hveto
  have hcalm := h.share l s hs
  refine ⟨c', hrun, hleft.calm h hs ⟨⟨hcalm.store, hmember.trans hcalm.coordinator, hlock⟩, rfl⟩
    fun s' hs' => ⟨hs', rfl⟩, hleft.config, hleft.isCurrent, fun l' => ?_, fun l' s' t hs' ht => ?_⟩
  · rw [hleft.share?, Option.isSome_map]
  · rw [hleft.share?, hs', Option.map_some] at ht
    rw [← Option.some.inj ht]
    split
    next => rfl
    next => split <;> rfl

/-- In whatever way a cluster came about, a clear that is let pass leaves every member that is there
empty. It succeeds exactly if these members host all buckets of the region, with the ids of their
buckets, once for each host; if they do not, the clear is incomplete. -/
theorem clear_covers {name : String} {config : BucketConfig} {clearConfig : ClearConfig}
    (hc : Relation.ReflTransGen Step (.new name config clearConfig) c) (hs : c.share? l = some s)
    (hlive : c.isCurrent s.member = true) (hveto : s.writer (c.clearEventOf s) = none) :
    ∃ r c', c.clear l = some (r, c') ∧
      (r.toBool = true ↔ c.Covered) ∧
      (∀ ids, r = .ok ids → ids.Perm (c.liveShares.flatMap (·.store.ids)) ∧
        ∀ id < c.config.totalBuckets, id ∈ ids) ∧
      (∀ e, r = .error e → e = .incomplete c.name) ∧
      ∀ t ∈ c'.liveShares, t.store.size = 0 := by
  have h := calm_of_steps hc
  obtain ⟨c', hrun, -, -, hview, hlabels, hshares⟩ := h.clear_emptied hs hlive hveto
  have hcover := h.covered_iff hs hlive
  have hperm := h.perm_clearedIds hs hlive
  refine ⟨_, c', hrun, ?_, fun ids hids => ?_, fun e he => ?_, fun t ht => ?_⟩
  · rw [← hcover, clearAnswer]
    by_cases hlen : (c.clearedIds s).eraseDups.length = c.config.totalBuckets
    · simp [hlen, Except.toBool]
    · simp [hlen, Except.toBool]
  · rw [clearAnswer] at hids
    split at hids
    next hlen =>
      cases hids
      refine ⟨hperm, fun id hid => ?_⟩
      obtain ⟨s', hs', hid'⟩ := hcover.1 (eq_of_beq hlen) id hid
      exact hperm.mem_iff.2 (List.mem_flatMap.2 ⟨s', hs', hid'⟩)
    next => cases hids
  · rw [clearAnswer] at he
    split at he
    next => cases he
    next =>
      cases he
      rfl
  · obtain ⟨⟨l', ht'⟩, hcur⟩ := mem_liveShares.1 ht
    obtain ⟨s', hs'⟩ := share?_of_labels (fun l => (hlabels l).symm) ht'
    obtain ⟨t', ht'', hemptied, hkept⟩ := hshares l' s' hs'
    obtain rfl : t' = t := Option.some.inj (ht''.symm.trans ht')
    cases hcur' : c.isCurrent s'.member with
    | true => exact (hemptied hcur').size
    | false =>
      rw [hkept hcur', hview, hcur'] at hcur
      cases hcur

/-- The member at a port. -/
def memberAt (port : UInt16) : Member := { address := .localhost, port := port }

/-- A region of two buckets whose members host one twice, after a third member has crashed. -/
def uneven : Cluster :=
  let c := Cluster.new "orders" { totalBuckets := 2 } {}
  let c := ((c.add "a" (memberAt 1)).add "b" (memberAt 2)).add "c" (memberAt 3)
  let c := c.modifyShare "a" fun s => (s.hostBucket c.region.hasRegion 0).2
  let c := c.modifyShare "b" fun s => (s.hostBucket c.region.hasRegion 0).2
  let c := c.modifyShare "b" fun s => (s.hostBucket c.region.hasRegion 1).2
  c.crash (memberAt 3)

theorem steps_uneven :
    Relation.ReflTransGen Step (.new "orders" { totalBuckets := 2 } {}) uneven := by
  have hadd := fun {c : Cluster} {l m} hl hm => Step.setUp (SetUp.add_new (c := c) (l := l) (m := m) hl hm)
  have hhost := fun c l id => Step.setUp (SetUp.host c l id)
  exact .tail (.tail (.tail (.tail (.tail (.tail (.tail .refl (hadd rfl rfl)) (hadd rfl rfl))
    (hadd rfl rfl)) (hhost _ "a" 0)) (hhost _ "b" 0)) (hhost _ "b" 1)) (.crash _ (memberAt 3))

theorem clear_covers_uneven : ∃ s, uneven.share? "a" = some s ∧
    uneven.isCurrent s.member = true ∧ s.writer (uneven.clearEventOf s) = none ∧
    ∃ r c', uneven.clear "a" = some (r, c') ∧
      (r.toBool = true ↔ uneven.Covered) ∧
      (∀ ids, r = .ok ids → ids.Perm (uneven.liveShares.flatMap (·.store.ids)) ∧
        ∀ id < uneven.config.totalBuckets, id ∈ ids) ∧
      (∀ e, r = .error e → e = .incomplete uneven.name) ∧
      ∀ t ∈ c'.liveShares, t.store.size = 0 :=
  ⟨_, rfl, rfl, rfl, clear_covers steps_uneven rfl rfl rfl⟩

end Cluster
end DataGrid
