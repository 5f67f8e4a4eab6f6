import Mathlib.Algebra.Ring.Nat
import Mathlib.Data.List.Nodup
import DataGrid.Proofs.Cluster.Coverage

/-
The shares of a region as one map. Where every bucket is hosted by one member
and nobody leaves, calls on the shares in any order are answered as one finite
map would answer them (`serves_as_map`): what is written through the host of a
key is read there until it is destroyed or the region is cleared.

The invariant (`Holds`) is that every share has the values of the map for the
keys that it hosts, and that no other keys are in the map.
-/

namespace DataGrid

/-! ## How many values there are -/

namespace Share

variable {config : BucketConfig} {s : Share} {m : OrdMap Key Value} {k : Key}

/-- The share has the values of a map for the keys it hosts. -/
def Holds (m : OrdMap Key Value) (s : Share) : Prop := ∀ k, s.hosts k = true → s.get? k = m.find? k

theorem hosts_of_get? (h : (s.get? k).isSome = true) : s.hosts k = true := by
  unfold get? at h
  cases hb : s.store.bucket? (s.bucketOf k) with
  | none => simp [hb] at h
  | some b => exact hosts_eq_true hb

/-- What a bucket has a value for belongs to it. -/
theorem Calm.bucketOf_eq (h : s.Calm config) {id : Nat} {b : Bucket}
    (hb : s.store.bucket? id = some b) (hk : k ∈ b.copy.map.keys) : s.bucketOf k = id := by
  have hcalm := h.store.bucket id b hb
  obtain ⟨x, hx, -⟩ := hcalm.slot_present (hcalm.mem_keys.1 hk)
  rw [← h.bucketOf]
  exact hcalm.placed k x hx

theorem Calm.mem_keys (h : s.Calm config) :
    k ∈ s.store.all.flatMap (·.copy.map.keys) ↔ (s.get? k).isSome = true := by
  rw [List.mem_flatMap]
  constructor
  · rintro ⟨b, hb, hk⟩
    obtain ⟨id, hid⟩ := BucketStore.mem_all.1 hb
    simp only [get?, h.bucketOf_eq hid hk, hid, Option.bind_some]
    exact (h.store.bucket id b hid).mem_keys.1 hk
  · intro hk
    unfold get? at hk
    cases hb : s.store.bucket? (s.bucketOf k) with
    | none => simp [hb] at hk
    | some b =>
      refine ⟨b, BucketStore.mem_all.2 ⟨_, hb⟩, (h.store.bucket _ b hb).mem_keys.2 ?_⟩
      simpa [hb] using hk

theorem Calm.nodup_keys (h : s.Calm config) : (s.store.all.flatMap (·.copy.map.keys)).Nodup := by
  refine List.nodup_flatMap.2 ⟨fun b _ => OrdMap.nodup_keys _, List.pairwise_map.2 ?_⟩
  refine s.store.buckets.ascending.imp_of_mem fun {p q} hp hq hlt k hk hk' => ?_
  have hof := h.bucketOf_eq (OrdMap.mem_toList_iff.1 hp) hk
  have hof' := h.bucketOf_eq (OrdMap.mem_toList_iff.1 hq) hk'
  have heq : compare p.1 q.1 = .eq := Std.compare_eq_iff_eq.2 (hof.symm.trans hof')
  rw [heq] at hlt
  cases hlt

/-- What is on a share is what a map has for the keys that the share hosts. -/
theorem Calm.size_eq (h : s.Calm config) (hm : s.Holds m) :
    s.store.size = (m.keys.filter s.hosts).length := by
  have hsize : s.store.size = (s.store.all.flatMap (·.copy.map.keys)).length := by
    simp only [BucketStore.size, List.length_flatMap]
    rfl
  rw [hsize]
  refine ((List.perm_ext_iff_of_nodup h.nodup_keys (m.nodup_keys.filter _)).2 fun k => ?_).length_eq
  rw [h.mem_keys, List.mem_filter, OrdMap.mem_keys_iff]
  constructor
  · intro hk
    have hhosts := hosts_of_get? hk
    rw [hm k hhosts] at hk
    exact ⟨hk, hhosts⟩
  · rintro ⟨hk, hhosts⟩
    rw [hm k hhosts]
    exact hk

end Share

namespace Cluster

variable {c c' : Cluster} {l : String} {s : Share} {m m' : OrdMap Key Value} {k : Key}

/-- How many values there are on all shares together. -/
def size (c : Cluster) : Nat := (c.shares.values.map (·.store.size)).sum

/-- Every bucket of the region is hosted by one share. -/
def Partitioned (c : Cluster) : Prop :=
  ∀ id < c.config.totalBuckets, ∃! l, ∃ s, c.share? l = some s ∧ id ∈ s.store.ids

/-- Calm shares of members that are all there, each with the values of a map for the keys it hosts;
there are no other keys in the map. -/
structure Holds (c : Cluster) (m : OrdMap Key Value) : Prop where
  calm : c.Calm
  live : ∀ l s, c.share? l = some s → c.isCurrent s.member = true
  partitioned : c.Partitioned
  values : ∀ l s, c.share? l = some s → s.Holds m
  placed : ∀ k, m.contains k = true → ∃ l s, c.share? l = some s ∧ s.hosts k = true

/-- A key has one host at most. -/
theorem Holds.host_unique (h : c.Holds m) {l' : String} {s' : Share} (hs : c.share? l = some s)
    (hs' : c.share? l' = some s') (hk : s.hosts k = true) (hk' : s'.hosts k = true) : l' = l := by
  have hid := BucketStore.mem_ids.2 hk
  have hid' := BucketStore.mem_ids.2 hk'
  have hcalm := h.calm.share l s hs
  rw [← (h.calm.share l' s' hs').bucketOf, hcalm.bucketOf] at hid'
  obtain ⟨_, -, honly⟩ := h.partitioned _ (hcalm.id_lt hid)
  rw [honly l' ⟨s', hs', hid'⟩, honly l ⟨s, hs, hid⟩]

/-- What is there is counted once, whether it is counted by keys or by shares. -/
theorem sum_filter_length {α β : Type} (p : β → α → Bool) (shares : List β) : ∀ keys : List α,
    (shares.map fun s => (keys.filter (p s)).length).sum =
      (keys.map fun k => (shares.filter (p · k)).length).sum
  | [] => by simp
  | k :: keys => by
    rw [List.map_cons, List.sum_cons, ← sum_filter_length p shares keys]
    induction shares with
    | nil => rfl
    | cons s shares ih =>
      simp only [List.map_cons, List.sum_cons, List.filter_cons] at ih ⊢
      rw [ih]
      split
      next => simp only [List.length_cons]; omega
      next => omega

theorem Holds.length_hosts (h : c.Holds m) (hk : m.contains k = true) :
    (c.shares.values.filter (·.hosts k)).length = 1 := by
  obtain ⟨l, s, hs, hhosts⟩ := h.placed k hk
  have hlabels : (c.shares.keys.filter fun l => (c.share? l).any (·.hosts k)).Perm [l] := by
    refine (List.perm_ext_iff_of_nodup (c.shares.nodup_keys.filter _) (by simp)).2 fun l' => ?_
    rw [List.mem_filter, List.mem_singleton, OrdMap.mem_keys_iff]
    constructor
    · rintro ⟨hl', hany⟩
      obtain ⟨s', hs', hhosts'⟩ := Option.any_eq_true _ _ |>.1 hany
      exact h.host_unique hs hs' hhosts hhosts'
    · rintro rfl
      have hfound : c.shares.find? l' = some s := hs
      rw [hfound, hs]
      exact ⟨rfl, hhosts⟩
  have hperm := hlabels.filterMap c.share?
  have hvalues : (c.shares.keys.filter fun l => (c.share? l).any (·.hosts k)).filterMap c.share? =
      c.shares.values.filter (·.hosts k) := c.shares.filterMap_find? (·.hosts k)
  rw [hvalues, List.filterMap_cons, hs, List.filterMap_nil] at hperm
  exact hperm.length_eq

/-- The values on all shares are those of the map. -/
theorem Holds.size_eq (h : c.Holds m) : c.size = m.size := by
  have hsizes : c.shares.values.map (·.store.size) =
      c.shares.values.map fun s => (m.keys.filter s.hosts).length := by
    refine List.map_congr_left fun s hs => ?_
    obtain ⟨l, hl⟩ := OrdMap.mem_values_iff.1 hs
    exact (h.calm.share l s hl).size_eq (h.values l s hl)
  have hones : m.keys.map (fun k => (c.shares.values.filter (·.hosts k)).length) =
      m.keys.map fun _ => 1 :=
    List.map_congr_left fun k hk => h.length_hosts (OrdMap.mem_keys_iff.1 hk)
  rw [size, hsizes, sum_filter_length, hones, List.map_const', List.sum_replicate_nat, Nat.mul_one]
  simp only [OrdMap.keys, OrdMap.size, List.length_map]

/-! ## Calls -/

/-- What a member calls for on the region. -/
inductive Call
  | put (now : Int) (k : Key) (v : Value)
  | destroy (now : Int) (k : Key)
  | get (k : Key)
  | localSize
  | clear
  | sweep (now : Int)

inductive Answer
  | done (r : Except ClearError Unit)
  | value (v : Option Value)
  | size (n : Nat)
  | cleared (r : Except ClearError (List Nat))
  | swept (n : Nat)

/-- The answer of a share to what it was asked for. -/
def answered {α : Type} (f : α → Answer) (r : Checked (Option α × Cluster)) :
    Checked (Option (Answer × Cluster)) :=
  r.map fun (a, c) => a.map (f ·, c)

/-- Make a call through the member with a label. None if there is no such member, or if the call
does not end. -/
def call (c : Cluster) (l : String) : Call → Checked (Option (Answer × Cluster))
  | .put now k v => answered .done (c.askShare? l (·.put now k v))
  | .destroy now k => answered .done (c.askShare? l (·.destroy now k))
  | .get k => answered .value (c.askShare? l fun s => .ok (s.get? k, s))
  | .localSize => answered .size (c.askShare? l fun s => .ok (s.store.size, s))
  | .clear => .ok ((c.clear l).map fun (r, c) => (.cleared r, c))
  | .sweep now => answered .swept (c.askShare? l fun s => .ok (s.sweep now))

/-- What a call through a share answers, and what it makes of a map, where all shares together are
one map. `veto` is why the writer of the share does not let a clear pass, if it does not. -/
inductive AsMap (s : Share) (veto : Option String) (m : OrdMap Key Value) :
    Call → Answer → OrdMap Key Value → Prop
  | put {now : Int} {k : Key} {v : Value} (hk : s.hosts k = true) :
      AsMap s veto m (.put now k v) (.done (.ok ())) (m.insert k v)
  | putElsewhere {now : Int} {k : Key} {v : Value} (hk : s.hosts k = false) :
      AsMap s veto m (.put now k v) (.done (.error (.bucket (.notHosted (s.bucketOf k))))) m
  | destroy {now : Int} {k : Key} (hk : s.hosts k = true) (hm : m.contains k = true) :
      AsMap s veto m (.destroy now k) (.done (.ok ())) (m.erase k)
  | destroyAbsent {now : Int} {k : Key} (hk : s.hosts k = true) (hm : m.contains k = false) :
      AsMap s veto m (.destroy now k) (.done (.error (.bucket (.entry (.notFound k))))) m
  | destroyElsewhere {now : Int} {k : Key} (hk : s.hosts k = false) :
      AsMap s veto m (.destroy now k) (.done (.error (.bucket (.notHosted (s.bucketOf k))))) m
  | get {k : Key} (hk : s.hosts k = true) : AsMap s veto m (.get k) (.value (m.find? k)) m
  | getElsewhere {k : Key} (hk : s.hosts k = false) : AsMap s veto m (.get k) (.value none) m
  | localSize : AsMap s veto m .localSize (.size (m.keys.filter s.hosts).length) m
  | clear {ids : List Nat} (hpass : veto = none) : AsMap s veto m .clear (.cleared (.ok ids)) .empty
  | clearVetoed {reason : String} (hveto : veto = some reason) :
      AsMap s veto m .clear (.cleared (.error (.cacheWriter reason))) m
  | sweep {now : Int} {n : Nat} : AsMap s veto m (.sweep now) (.swept n) m

/-- One call after the other, each through the member with the label given with it, is answered as
one map answers it; and the values on all shares are as many as there are in the map. -/
def ServesAsMap : List (String × Call) → Cluster → OrdMap Key Value → Prop
  | [], c, m => c.size = m.size
  | (l, x) :: rest, c, m => c.size = m.size ∧ ∃ s a c' m', c.share? l = some s ∧
      c.call l x = .ok (some (a, c')) ∧ AsMap s (s.writer (c.clearEventOf s)) m x a m' ∧
      ServesAsMap rest c' m'

/-- The next versions of all buckets fit their counters. -/
def Countable (c : Cluster) : Prop := ∀ l s, c.share? l = some s → s.Countable

/-- No counter comes to its end before one of the calls. -/
def StaysCountable : List (String × Call) → Cluster → Prop
  | [], _ => True
  | (l, x) :: rest, c => c.Countable ∧ ∀ a c', c.call l x = .ok (some (a, c')) → StaysCountable rest c'

/-! ## One call -/

/-- Everybody hosts what it hosted. -/
structure SameHosts (c c' : Cluster) : Prop where
  config : c'.config = c.config
  current : ∀ m, c'.isCurrent m = c.isCurrent m
  labels : ∀ l, (c'.share? l).isSome = (c.share? l).isSome
  member : ∀ l s t, c.share? l = some s → c'.share? l = some t → t.member = s.member
  ids : ∀ l s t, c.share? l = some s → c'.share? l = some t → ∀ id, id ∈ t.store.ids ↔ id ∈ s.store.ids

theorem SameHosts.share? (h : SameHosts c c') {t : Share} (ht : c'.share? l = some t) :
    ∃ s, c.share? l = some s :=
  share?_of_labels (fun l => (h.labels l).symm) ht

theorem SameHosts.partitioned (h : SameHosts c c') (hc : c.Partitioned) : c'.Partitioned := by
  intro id hid
  rw [h.config] at hid
  obtain ⟨l, ⟨s, hs, hin⟩, honly⟩ := hc id hid
  obtain ⟨t, ht⟩ := share?_of_labels h.labels hs
  refine ⟨l, ⟨t, ht, (h.ids l s t hs ht id).2 hin⟩, fun l' ⟨t', ht', hin'⟩ => ?_⟩
  obtain ⟨s', hs'⟩ := h.share? ht'
  exact honly l' ⟨s', hs', (h.ids l' s' t' hs' ht' id).1 hin'⟩

/-- Shares that have the values of another map for the keys that they hosted all along. -/
theorem Holds.carry (h : c.Holds m) (hsame : SameHosts c c') (hcalm : c'.Calm)
    (hvalues : ∀ l s t, c.share? l = some s → c'.share? l = some t → t.Holds m')
    (hplaced : ∀ k, m'.contains k = true → ∃ l s, c'.share? l = some s ∧ s.hosts k = true) :
    c'.Holds m' where
  calm := hcalm
  live l t ht := by
    obtain ⟨s, hs⟩ := hsame.share? ht
    rw [hsame.member l s t hs ht, hsame.current]
    exact h.live l s hs
  partitioned := hsame.partitioned h.partitioned
  values l t ht := by
    obtain ⟨s, hs⟩ := hsame.share? ht
    exact hvalues l s t hs ht
  placed := hplaced

theorem answered_eq {α : Type} {f : Share → Checked (α × Share)} {a : α} {s' : Share}
    (hs : c.share? l = some s) (hf : f s = .ok (a, s')) (g : α → Answer) :
    answered g (c.askShare? l f) = .ok (some (g a, c.setShare l s')) := by
  simp only [askShare?, hs, hf, bind, Except.bind, pure, Except.pure, answered, Except.map,
    Option.map_some]

/-- A share hosts what it hosted, whatever is in its buckets. -/
theorem sameHosts_setShare (hs : c.share? l = some s) {s' : Share} (hkept : s.Kept s') :
    SameHosts c (c.setShare l s') where
  config := rfl
  current _ := rfl
  labels l' := by
    rw [share?_setShare]
    split
    next he => rw [he, hs]; rfl
    next => rfl
  member l' t t' ht ht' := by
    rw [share?_setShare] at ht'
    split at ht'
    next he =>
      cases ht'
      obtain rfl : t = s := Option.some.inj (ht.symm.trans (by rw [he, hs]))
      exact hkept.member
    next => rw [Option.some.inj (ht'.symm.trans ht)]
  ids l' t t' ht ht' id := by
    rw [share?_setShare] at ht'
    split at ht'
    next he =>
      cases ht'
      obtain rfl : t = s := Option.some.inj (ht.symm.trans (by rw [he, hs]))
      rw [BucketStore.mem_ids, BucketStore.mem_ids, hkept.hosted]
    next => rw [Option.some.inj (ht'.symm.trans ht)]

/-- A change of one share that the map follows for the keys which the share hosts. -/
theorem Holds.setShare (h : c.Holds m) (hs : c.share? l = some s) {s' : Share}
    (hcalm : s'.Calm c.config) (hkept : s.Kept s')
    (hvalues : ∀ k, s.hosts k = true → s'.get? k = m'.find? k)
    (hothers : ∀ k, s.hosts k = false → m'.find? k = m.find? k) : (c.setShare l s').Holds m' := by
  have hof : ∀ k, s'.bucketOf k = s.bucketOf k := fun k => by
    rw [← hcalm.bucketOf, (h.calm.share l s hs).bucketOf]
  have hhosts : ∀ k, s'.hosts k = s.hosts k := fun k => by
    simp only [Share.hosts, hof, hkept.hosted]
  refine h.carry (sameHosts_setShare hs hkept) (h.calm.setShare hs hcalm hkept.member)
    (fun l' t t' ht ht' k hk => ?_) fun k hk => ?_
  · rw [share?_setShare] at ht'
    split at ht'
    next =>
      cases ht'
      exact hvalues k ((hhosts k).symm.trans hk)
    next hne =>
      obtain rfl : t' = t := Option.some.inj (ht'.symm.trans ht)
      have hnot : s.hosts k = false := by
        rw [Bool.eq_false_iff]
        exact fun hk' => hne (h.host_unique hs ht hk' hk)
      rw [hothers k hnot]
      exact h.values l' t' ht k hk
  · cases hk' : s.hosts k with
    | true => exact ⟨l, s', by rw [share?_setShare, if_pos rfl], (hhosts k).trans hk'⟩
    | false =>
      have hm : m.contains k = true := by
        rw [OrdMap.contains, ← hothers k hk']
        exact hk
      obtain ⟨l', t, ht, hkt⟩ := h.placed k hm
      have hne : l' ≠ l := fun he => by
        obtain rfl : t = s := Option.some.inj (ht.symm.trans (by rw [he, hs]))
        rw [hk'] at hkt
        cases hkt
      exact ⟨l', t, by rw [share?_setShare, if_neg hne, ht], hkt⟩

/-- A share that shows the same. -/
theorem Holds.unchanged (h : c.Holds m) (hs : c.share? l = some s) {s' : Share}
    (hcalm : s'.Calm c.config) (hkept : s.Kept s') (hget : ∀ k, s'.get? k = s.get? k) :
    (c.setShare l s').Holds m :=
  h.setShare hs hcalm hkept (fun k hk => (hget k).trans (h.values l s hs k hk)) fun _ _ => rfl

/-- A call is answered as a map answers it, and the shares hold what the map then has. -/
def Follows (c : Cluster) (l : String) (s : Share) (m : OrdMap Key Value) (x : Call) : Prop :=
  ∃ a c' m', c.call l x = .ok (some (a, c')) ∧ AsMap s (s.writer (c.clearEventOf s)) m x a m' ∧
    c'.Holds m' ∧ SameHosts c c'

theorem Holds.put (h : c.Holds m) (hs : c.share? l = some s) (hfit : s.Countable) (now : Int) (k : Key)
    (v : Value) : c.Follows l s m (.put now k v) := by
  have hcalm := h.calm.share l s hs
  cases hk : s.hosts k with
  | true =>
    obtain ⟨s', hput, hget⟩ := hcalm.put_hosted now hfit hk v
    obtain ⟨hcalm', hkept⟩ := hcalm.of_put now hput
    refine ⟨_, _, _, answered_eq hs hput .done, .put hk,
      h.setShare hs hcalm' hkept (fun k' hk' => ?_) fun k' hk' => ?_, sameHosts_setShare hs hkept⟩
    · rw [hget, OrdMap.find?_insert, ← h.values l s hs k' hk']
      simp only [Std.compare_eq_iff_eq]
    · have hne : compare k' k ≠ .eq := fun he => by
        rw [Std.compare_eq_iff_eq.1 he, hk] at hk'
        cases hk'
      exact OrdMap.find?_insert_other _ _ hne
  | false =>
    have hput : s.put now k v = _ := Share.submit_elsewhere (·.put now k v) hk
    exact ⟨_, _, _, answered_eq hs hput .done, .putElsewhere hk,
      h.unchanged hs hcalm (.refl s) fun _ => rfl, sameHosts_setShare hs (.refl s)⟩

theorem Holds.destroy (h : c.Holds m) (hs : c.share? l = some s) (hfit : s.Countable) (now : Int)
    (k : Key) : c.Follows l s m (.destroy now k) := by
  have hcalm := h.calm.share l s hs
  cases hk : s.hosts k with
  | true =>
    have hvalue := h.values l s hs k hk
    cases hm : m.contains k with
    | true =>
      have hpresent : (s.get? k).isSome = true := by
        rw [hvalue]
        exact hm
      obtain ⟨s', hdestroy, hget⟩ := hcalm.destroy_present now hfit hpresent
      obtain ⟨hcalm', hkept⟩ := hcalm.of_destroy now hdestroy
      refine ⟨_, _, _, answered_eq hs hdestroy .done, .destroy hk hm,
        h.setShare hs hcalm' hkept (fun k' hk' => ?_) fun k' hk' => ?_, sameHosts_setShare hs hkept⟩
      · rw [hget]
        split
        next he => rw [he, OrdMap.find?_erase_self]
        next hne =>
          have hne' : compare k' k ≠ .eq := fun he => hne (Std.compare_eq_iff_eq.1 he)
          rw [OrdMap.find?_erase_other _ hne', h.values l s hs k' hk']
      · have hne : compare k' k ≠ .eq := fun he => by
          rw [Std.compare_eq_iff_eq.1 he, hk] at hk'
          cases hk'
        exact OrdMap.find?_erase_other _ hne
    | false =>
      have habsent : s.get? k = none := by
        rw [hvalue]
        exact Option.isSome_eq_false_iff.1 hm |> Option.isNone_iff_eq_none.1
      obtain ⟨s', hdestroy, hget⟩ := hcalm.destroy_absent now hk habsent
      obtain ⟨hcalm', hkept⟩ := hcalm.of_destroy now hdestroy
      exact ⟨_, _, _, answered_eq hs hdestroy .done, .destroyAbsent hk hm,
        h.unchanged hs hcalm' hkept hget, sameHosts_setShare hs hkept⟩
  | false =>
    have hdestroy : s.destroy now k = _ := Share.submit_elsewhere (·.destroy now k) hk
    exact ⟨_, _, _, answered_eq hs hdestroy .done, .destroyElsewhere hk,
      h.unchanged hs hcalm (.refl s) fun _ => rfl, sameHosts_setShare hs (.refl s)⟩

/-- Looking changes nothing. -/
theorem Holds.look {α : Type} (h : c.Holds m) (hs : c.share? l = some s) (f : Share → α)
    (g : α → Answer) :
    answered g (c.askShare? l fun s => .ok (f s, s)) = .ok (some (g (f s), c.setShare l s)) ∧
      (c.setShare l s).Holds m ∧ SameHosts c (c.setShare l s) :=
  ⟨answered_eq hs rfl g, h.unchanged hs (h.calm.share l s hs) (.refl s) fun _ => rfl,
    sameHosts_setShare hs (.refl s)⟩

theorem Holds.get (h : c.Holds m) (hs : c.share? l = some s) (k : Key) : c.Follows l s m (.get k) := by
  obtain ⟨hcall, hholds, hsame⟩ := h.look hs (·.get? k) .value
  cases hk : s.hosts k with
  | true =>
    refine ⟨_, _, _, hcall, ?_, hholds, hsame⟩
    rw [h.values l s hs k hk]
    exact .get hk
  | false =>
    refine ⟨_, _, _, hcall, ?_, hholds, hsame⟩
    have hget : s.get? k = none := by
      have hb : s.store.bucket? (s.bucketOf k) = none := by simpa [Share.hosts] using hk
      simp only [Share.get?, hb, Option.bind_none]
    rw [hget]
    exact .getElsewhere hk

theorem Holds.localSize (h : c.Holds m) (hs : c.share? l = some s) : c.Follows l s m .localSize := by
  obtain ⟨hcall, hholds, hsame⟩ := h.look hs (·.store.size) .size
  refine ⟨_, _, _, hcall, ?_, hholds, hsame⟩
  rw [(h.calm.share l s hs).size_eq (h.values l s hs)]
  exact .localSize

theorem Holds.sweep (h : c.Holds m) (hs : c.share? l = some s) (now : Int) :
    c.Follows l s m (.sweep now) := by
  obtain ⟨hcalm, hkept, hget⟩ := (h.calm.share l s hs).sweep now
  exact ⟨_, _, _, answered_eq hs rfl .swept, .sweep, h.unchanged hs hcalm hkept hget,
    sameHosts_setShare hs hkept⟩

theorem Holds.covered (h : c.Holds m) : c.Covered := by
  intro id hid
  obtain ⟨l, ⟨s, hs, hin⟩, -⟩ := h.partitioned id hid
  exact ⟨s, mem_liveShares.2 ⟨⟨l, hs⟩, h.live l s hs⟩, hin⟩

theorem Holds.clear_passed (h : c.Holds m) (hs : c.share? l = some s)
    (hpass : s.writer (c.clearEventOf s) = none) : c.Follows l s m .clear := by
  have hlive := h.live l s hs
  obtain ⟨c', hrun, hcalm, hconfig, hview, hlabels, hshares⟩ := h.calm.clear_emptied hs hlive hpass
  have hanswer : c.clearAnswer (.ok (c.clearedIds s)) = .ok (c.clearedIds s) := by
    simp only [clearAnswer, (h.calm.covered_iff hs hlive).2 h.covered, BEq.rfl, if_true]
  have hemptied : ∀ l' s' t, c.share? l' = some s' → c'.share? l' = some t → s'.Emptied c.config t := by
    intro l' s' t hs' ht
    obtain ⟨t', ht', hlive', -⟩ := hshares l' s' hs'
    obtain rfl : t' = t := Option.some.inj (ht'.symm.trans ht)
    exact hlive' (h.live l' s' hs')
  have hsame : SameHosts c c' := ⟨hconfig, hview, hlabels,
    fun l' s' t hs' ht => (hemptied l' s' t hs' ht).member,
    fun l' s' t hs' ht id => by rw [(hemptied l' s' t hs' ht).ids]⟩
  refine ⟨.cleared (.ok (c.clearedIds s)), c', .empty, ?_, .clear hpass, ?_, hsame⟩
  · simp only [call, hrun, hanswer, Option.map_some]
  · exact h.carry hsame hcalm (fun l' s' t hs' ht k _ => (hemptied l' s' t hs' ht).empty k)
      fun k hk => by cases hk

theorem Holds.clear_vetoed (h : c.Holds m) (hs : c.share? l = some s) {reason : String}
    (hveto : s.writer (c.clearEventOf s) = some reason) : c.Follows l s m .clear := by
  obtain ⟨c', hrun, hcalm, hconfig, hview, hlabels, hstore⟩ := h.calm.clear_untouched hs hveto
  have hshown : ∀ {s' t : Share}, t.store = s'.store → ∀ k, t.hosts k = s'.hosts k ∧
      t.get? k = s'.get? k := by
    intro s' t he k
    simp only [Share.hosts, Share.get?, Share.bucketOf, he, and_self]
  have hsame : SameHosts c c' := ⟨hconfig, hview, hlabels,
    fun l' s' t hs' ht => congrArg BucketStore.member (hstore l' s' t hs' ht),
    fun l' s' t hs' ht id => by rw [hstore l' s' t hs' ht]⟩
  refine ⟨.cleared (.error (.cacheWriter reason)), c', m, ?_, .clearVetoed hveto, ?_, hsame⟩
  · simp only [call, hrun, Option.map_some]
  · refine h.carry hsame hcalm (fun l' s' t hs' ht k hk => ?_) fun k hk => ?_
    · obtain ⟨hhosts, hget⟩ := hshown (hstore l' s' t hs' ht) k
      rw [hget]
      exact h.values l' s' hs' k (hhosts.symm.trans hk)
    · obtain ⟨l', s', hs', hk'⟩ := h.placed k hk
      obtain ⟨t, ht⟩ := share?_of_labels hlabels hs'
      exact ⟨l', t, ht, ((hshown (hstore l' s' t hs' ht) k).1).trans hk'⟩

theorem Holds.clear (h : c.Holds m) (hs : c.share? l = some s) : c.Follows l s m .clear := by
  cases hveto : s.writer (c.clearEventOf s) with
  | none => exact h.clear_passed hs hveto
  | some reason => exact h.clear_vetoed hs hveto

theorem Holds.follows (h : c.Holds m) (hs : c.share? l = some s) (hfit : s.Countable) (x : Call) :
    c.Follows l s m x := by
  cases x with
  | put now k v => exact h.put hs hfit now k v
  | destroy now k => exact h.destroy hs hfit now k
  | get k => exact h.get hs k
  | localSize => exact h.localSize hs
  | clear => exact h.clear hs
  | sweep now => exact h.sweep hs now

/-! ## All calls -/

/-- The map is carried from call to call. -/
theorem Holds.servesAsMap : ∀ (calls : List (String × Call)) {c : Cluster} {m : OrdMap Key Value},
    c.Holds m → (∀ x ∈ calls, (c.share? x.1).isSome = true) → StaysCountable calls c →
    ServesAsMap calls c m
  | [], _, _, h, _, _ => h.size_eq
  | (l, x) :: rest, c, m, h, hlabels, hfit => by
    obtain ⟨s, hs⟩ := Option.isSome_iff_exists.1 (hlabels (l, x) List.mem_cons_self)
    obtain ⟨a, c', m', hcall, hmap, hholds, hsame⟩ := h.follows hs (hfit.1 l s hs) x
    refine ⟨h.size_eq, s, a, c', m', hs, hcall, hmap,
      servesAsMap rest hholds (fun y hy => ?_) (hfit.2 a c' hcall)⟩
    rw [hsame.labels]
    exact hlabels y (List.mem_cons_of_mem _ hy)

/-- What holds of a cluster that was only set up. -/
structure Fresh (c : Cluster) : Prop where
  calm : c.Calm
  live : ∀ l s, c.share? l = some s → c.isCurrent s.member = true
  empty : ∀ l s k, c.share? l = some s → s.get? k = none

theorem Fresh.modifyShare (h : c.Fresh) {f : Share → Share} (hcalm : (c.modifyShare l f).Calm)
    (hf : ∀ s, c.share? l = some s → (f s).member = s.member ∧ ∀ k, (f s).get? k = s.get? k) :
    (c.modifyShare l f).Fresh := by
  have hshare : ∀ l' t, (c.modifyShare l f).share? l' = some t →
      ∃ s, c.share? l' = some s ∧ t.member = s.member ∧ ∀ k, t.get? k = s.get? k := by
    intro l' t ht
    rw [share?_modifyShare] at ht
    split at ht
    next he =>
      obtain ⟨s, hs, rfl⟩ := Option.map_eq_some_iff.1 ht
      exact ⟨s, hs, hf s (by rw [← he]; exact hs)⟩
    next => exact ⟨t, ht, rfl, fun _ => rfl⟩
  refine ⟨hcalm, fun l' t ht => ?_, fun l' t k ht => ?_⟩
  · obtain ⟨s, hs, hm, -⟩ := hshare l' t ht
    rw [hm]
    exact h.live l' s hs
  · obtain ⟨s, hs, -, hget⟩ := hshare l' t ht
    rw [hget]
    exact h.empty l' s k hs

theorem Fresh.setUp (h : c.Fresh) (hstep : SetUp c c') : c'.Fresh := by
  have hcalm := h.calm.setUp hstep
  cases hstep with
  | @add l m hl hm =>
    have hout := h.calm.staffed.isCurrent_eq_false hm
    refine ⟨hcalm, fun l' t ht => ?_, fun l' t k ht => ?_⟩
    · rw [isCurrent_add hout]
      rw [share?_add hout] at ht
      split at ht
      next =>
        cases ht
        rw [Bool.or_eq_true]
        exact .inl (beq_iff_eq.2 Std.ReflCmp.compare_self)
      next => rw [h.live l' t ht, Bool.or_true]
    · rw [share?_add hout] at ht
      split at ht
      next =>
        cases ht
        rfl
      next => exact h.empty l' t k ht
  | host l id =>
    refine h.modifyShare hcalm fun s hs => ?_
    obtain ⟨-, -, hm, hget⟩ := (h.calm.share l s hs).hostBucket c.region.hasRegion id
    exact ⟨hm, hget⟩
  | listen l => exact h.modifyShare hcalm fun s _ => ⟨rfl, fun _ => rfl⟩
  | interest l client => exact h.modifyShare hcalm fun s _ => ⟨rfl, fun _ => rfl⟩
  | guard l writer => exact h.modifyShare hcalm fun s _ => ⟨rfl, fun _ => rfl⟩

theorem fresh_of_setUp {name : String} {config : BucketConfig} {clearConfig : ClearConfig}
    (h : Relation.ReflTransGen SetUp (.new name config clearConfig) c) : c.Fresh := by
  induction h with
  | refl =>
    refine ⟨calm_new name config clearConfig, fun l s hs => ?_, fun l s k hs => ?_⟩
    · cases hs
    · cases hs
  | tail _ hstep ih => exact ih.setUp hstep

/-- Where every bucket of a region is hosted by one member, any calls of the members are answered as
one map answers them that is empty at first. -/
theorem serves_as_map {name : String} {config : BucketConfig} {clearConfig : ClearConfig}
    (hc : Relation.ReflTransGen SetUp (.new name config clearConfig) c) (hhosts : c.Partitioned)
    (calls : List (String × Call)) (hlabels : ∀ x ∈ calls, (c.share? x.1).isSome = true)
    (hfit : StaysCountable calls c) : ServesAsMap calls c .empty := by
  have h := fresh_of_setUp hc
  have hholds : c.Holds .empty := ⟨h.calm, h.live, hhosts, fun l s hs k _ => h.empty l s k hs,
    fun k hk => by cases hk⟩
  exact hholds.servesAsMap calls hlabels hfit

/-! ## Two members and some calls -/

/-- Whether the next versions of all buckets fit their counters. -/
def isCountable (c : Cluster) : Bool :=
  c.shares.values.all fun s => s.store.all.all fun b =>
    b.copy.vector.all fun v => v.localVersion < counterMax

theorem countable_of_isCountable (h : c.isCountable = true) : c.Countable := by
  intro l s hs id b hb v hv
  have hshare := List.all_eq_true.1 h s (OrdMap.mem_values_iff.2 ⟨l, hs⟩)
  have hbucket := List.all_eq_true.1 hshare b (BucketStore.mem_all.2 ⟨id, hb⟩)
  rw [hv] at hbucket
  simpa using hbucket

/-- Whether they fit before each of some calls. -/
def keepsCountable : List (String × Call) → Cluster → Bool
  | [], _ => true
  | (l, x) :: rest, c => c.isCountable &&
    match c.call l x with
    | .ok (some (_, c')) => keepsCountable rest c'
    | _ => true

theorem staysCountable_of_keepsCountable : ∀ (calls : List (String × Call)) {c : Cluster},
    keepsCountable calls c = true → StaysCountable calls c
  | [], _, _ => trivial
  | (l, x) :: rest, c, h => by
    rw [keepsCountable, Bool.and_eq_true] at h
    refine ⟨countable_of_isCountable h.1, fun a c' hcall => ?_⟩
    have hrest := h.2
    rw [hcall] at hrest
    exact staysCountable_of_keepsCountable rest hrest

theorem partitioned_of_hosts (h : ∀ id < c.config.totalBuckets, ∃ l s,
    c.shares.toList.filter (fun q => id ∈ q.2.store.ids) = [(l, s)]) : c.Partitioned := by
  intro id hid
  obtain ⟨l, s, hone⟩ := h id hid
  have hmem : ∀ l' s', c.share? l' = some s' ∧ id ∈ s'.store.ids ↔ (l', s') = (l, s) := fun l' s' => by
    have hin : (l', s') ∈ [(l, s)] ↔ (l', s') = (l, s) := List.mem_singleton
    rw [← hin, ← hone, List.mem_filter, OrdMap.mem_toList_iff, decide_eq_true_eq, share?]
  refine ⟨l, ⟨s, (hmem l s).2 rfl⟩, fun l' hl' => ?_⟩
  obtain ⟨s', hs'⟩ := hl'
  exact congrArg Prod.fst ((hmem l' s').1 hs')

/-- A region of two buckets on two members, each of which hosts one. -/
def even : Cluster :=
  let c := Cluster.new "orders" { totalBuckets := 2 } {}
  let c := (c.add "a" (memberAt 1)).add "b" (memberAt 2)
  let c := c.modifyShare "a" fun s => (s.hostBucket c.region.hasRegion 0).2
  c.modifyShare "b" fun s => (s.hostBucket c.region.hasRegion 1).2

/-- A key is written where it belongs and where it does not, destroyed, and all is cleared. -/
def errands : List (String × Call) :=
  [("a", .put 0 "k" "v"), ("b", .put 1 "k" "w"), ("b", .get "k"), ("a", .destroy 2 "k"),
    ("a", .sweep 9), ("b", .clear), ("a", .localSize)]

theorem setUp_even :
    Relation.ReflTransGen SetUp (.new "orders" { totalBuckets := 2 } {}) even :=
  .tail (.tail (.tail (.tail .refl (.add_new rfl rfl)) (.add_new rfl rfl)) (.host _ "a" 0))
    (.host _ "b" 1)

theorem partitioned_even : even.Partitioned := by
  refine partitioned_of_hosts fun id hid => ?_
  match id, hid with
  | 0, _ => exact ⟨_, _, rfl⟩
  | 1, _ => exact ⟨_, _, rfl⟩

theorem serves_as_map_even :
    Relation.ReflTransGen SetUp (.new "orders" { totalBuckets := 2 } {}) even ∧ even.Partitioned ∧
      (∀ x ∈ errands, (even.share? x.1).isSome = true) ∧ StaysCountable errands even ∧
      ServesAsMap errands even .empty := by
  have hlabels : ∀ x ∈ errands, (even.share? x.1).isSome = true := by decide +kernel
  have hfit : StaysCountable errands even :=
    staysCountable_of_keepsCountable errands (by decide +kernel)
  exact ⟨setUp_even, partitioned_even, hlabels, hfit,
    serves_as_map setUp_even partitioned_even errands hlabels hfit⟩

end Cluster

end DataGrid
