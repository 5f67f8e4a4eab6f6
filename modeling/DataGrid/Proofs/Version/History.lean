import DataGrid.Proofs.Version.Merge
import Mathlib.Order.Bounds.Basic

/-
Vectors by their history: a new vector, and then calls that take a version,
record one, or merge in another vector with a history of its own. Alongside the
vector a history keeps what the calls have named (`VersionVector.Account`), and
the vector answers by it (`VersionVector.Account.Faithful`): it contains the
versions named and no others, and its counter has passed every version of its
owner. Each call preserves that, and so does every history.
-/

namespace DataGrid

open Counter

namespace VersionVector

variable {v v' : VersionVector}

/-! ## Calls on a vector that is abreast of its owner -/

theorem gcVersions_of_recordIn {m : Member} {n : Nat} {new : Bool}
    (h : v.recordIn m n = .ok (new, v')) : v'.gcVersions = v.gcVersions := by
  obtain ⟨⟨_, _⟩, -, h⟩ := bind_ok h
  cases h
  rfl

theorem Recorded.versionOf {m : Member} {n : Nat} (hv : v.Sound) (h : v.Recorded m n v')
    (m' : Member) :
    v'.versionOf m' = if m'.same m then max (v.versionOf m') n else v.versionOf m' := by
  obtain ⟨hin, habove⟩ := hv.versionOf m'
  obtain ⟨hin', habove'⟩ := h.sound.versionOf m'
  have hcont := h.contains m'
  have hkept := habove' _ (h.mono hin)
  cases hs : m'.same m with
  | false =>
    simp only [hs, Bool.false_and, Bool.or_false] at hcont
    rw [hcont] at hin'
    exact Nat.le_antisymm (habove _ hin') hkept
  | true =>
    simp only [hs, Bool.true_and] at hcont
    have hnew : n ≤ v'.versionOf m' := habove' n (by rw [hcont]; simp)
    have hle : v'.versionOf m' ≤ max (v.versionOf m') n := by
      rw [hcont, Bool.or_eq_true, beq_iff_eq] at hin'
      rcases hin' with hold | hnew
      · exact Nat.le_trans (habove _ hold) (Nat.le_max_left _ _)
      · exact hnew ▸ Nat.le_max_right _ _
    rw [if_pos rfl]
    omega

theorem abreast_new (owner : Member) : Abreast { owner := owner } := ⟨sound_new owner, rfl⟩

/-- The counter fits, as the versions of the owner do. -/
theorem Abreast.small (hv : v.Abreast) : v.localVersion ≤ counterMax := by
  rw [hv.counter]
  exact (hv.sound.holderOf v.owner).small

theorem Abreast.next_lt (hv : v.Abreast) (hl : v.localVersion < counterMax) :
    ∃ v', v.next = .ok (v.localVersion + 1, v') ∧ v.Recorded v.owner (v.localVersion + 1) v' ∧
      v'.localVersion = v.localVersion + 1 ∧ v'.gcVersions = v.gcVersions ∧ v'.Abreast := by
  obtain ⟨v', hnext, hrec, hlocal⟩ := next_eq hv.sound hl
  have hgc : v'.gcVersions = v.gcVersions := by
    obtain ⟨_, -, hrest⟩ := bind_ok hnext
    obtain ⟨⟨_, _⟩, hin, hrest⟩ := bind_ok hrest
    cases hrest
    have hkept := gcVersions_of_recordIn hin
    exact hkept
  refine ⟨v', hnext, hrec, hlocal, hgc, hrec.sound, ?_⟩
  rw [hlocal, hrec.owner, hrec.versionOf hv.sound, Member.same_refl, if_pos rfl, ← hv.counter]
  omega

theorem next_exhausted (hl : v.localVersion = counterMax) : v.next = .error .add := by
  have hadd : add v.localVersion 1 = .error .add := by
    simp only [add, hl, Nat.not_succ_le_self, if_false]
  simp only [next, hadd, bind, Except.bind]

theorem Abreast.record (hv : v.Abreast) (m : Member) {n : Nat} (hn : n ≤ counterMax) :
    ∃ v', v.record m n = .ok (!v.contains m n, v') ∧ v.Recorded m n v' ∧
      v.localVersion ≤ v'.localVersion ∧ v'.gcVersions = v.gcVersions ∧ v'.Abreast := by
  obtain ⟨v', hrec, hr, hlocal⟩ := record_eq hv.sound m hn
  have hgc := gcVersions_of_recordIn hrec
  have hsame : v.owner.same m = m.same v.owner :=
    Bool.eq_iff_iff.2 ⟨Member.same_symm, Member.same_symm⟩
  refine ⟨v', hrec, hr, ?_, hgc, hr.sound, ?_⟩
  · rw [hlocal]
    split <;> omega
  · rw [hlocal, hr.owner, hr.versionOf hv.sound, ← hv.counter, hsame]

theorem gcVersion_recordGc (v : VersionVector) (m m' : Member) (n : Nat) :
    (v.recordGc m n).gcVersion m' =
      if m'.same m then max (v.gcVersion m') n else v.gcVersion m' := by
  simp only [gcVersion, recordGc]
  by_cases he : compare m' m = .eq
  · simp only [Member.same_iff.2 he, if_true, OrdMap.find?_congr _ he, OrdMap.find?_upsert_self,
      Option.getD_some]
  · simp only [Member.same_iff, he, if_false, OrdMap.find?_upsert_other _ _ he]

/-! ## Histories -/

/-- A vector, and what its calls have named: the versions it gave out itself, all versions it was
told of, and the versions up to which tombstones may go. -/
structure Account where
  vector : VersionVector
  taken : List Nat := []
  versions : List (Member × Nat) := []
  released : List (Member × Nat) := []

/-- A version of a member is in a list of them. -/
def Named (l : List (Member × Nat)) (m : Member) (n : Nat) : Prop :=
  ∃ p ∈ l, m.same p.1 = true ∧ p.2 = n

theorem Named.cons {l : List (Member × Nat)} {m m' : Member} {n n' : Nat} :
    Named ((m', n') :: l) m n ↔ Named l m n ∨ (m.same m' = true ∧ n = n') := by
  simp only [Named, List.exists_mem_cons_iff, or_comm, eq_comm]

theorem Named.append {l l' : List (Member × Nat)} {m : Member} {n : Nat} :
    Named (l ++ l') m n ↔ Named l m n ∨ Named l' m n := by
  simp only [Named, List.mem_append, or_and_right, exists_or]

/-- A call that involves no other vector. Versions are words, so they fit in a counter. -/
inductive Call
  | next
  | record (m : Member) (version : Nat) (fits : version ≤ counterMax)
  | recordTag (t : VersionTag) (fits : t.regionVersion ≤ counterMax)
  | recordGc (m : Member) (version : Nat) (fits : version ≤ counterMax)

namespace Account

def perform (a : Account) : Call → Checked Account
  | .next => do
    let (n, v) ← a.vector.next
    return { a with vector := v, taken := n :: a.taken, versions := (v.owner, n) :: a.versions }
  | .record m n _ => do
    let (_, v) ← a.vector.record m n
    return { a with vector := v, versions := (m, n) :: a.versions }
  | .recordTag t _ => do
    match ← a.vector.recordTag t with
    | .ok (_, v) =>
      return { a with vector := v, versions := (t.member, t.regionVersion) :: a.versions }
    | .error _ => return a
  | .recordGc m n _ =>
    return { a with vector := a.vector.recordGc m n, released := (m, n) :: a.released }

/-- What the other vector was told of, this one has been told of too. What it gave out counts as
told and not as taken. -/
def merge (a other : Account) : Checked Account := do
  return { a with
    vector := ← a.vector.merge other.vector
    versions := a.versions ++ other.versions
    released := a.released ++ other.released }

/-- The vector answers by what its calls have named. -/
structure Faithful (a : Account) : Prop where
  abreast : a.vector.Abreast
  contains : ∀ m n, a.vector.contains m n = true ↔ n = 0 ∨ Named a.versions m n
  gcVersion : ∀ m, IsGreatest {n | n = 0 ∨ Named a.released m n} (a.vector.gcVersion m)
  taken : ∀ n ∈ a.taken, n ≤ a.vector.localVersion
  distinct : a.taken.Nodup

variable {a b : Account}

theorem faithful_new (owner : Member) : Faithful { vector := { owner := owner } } where
  abreast := abreast_new owner
  contains m n := by simp [contains_new, Named]
  gcVersion m := by simp [Named, VersionVector.gcVersion, IsGreatest, upperBounds]
  taken := by simp
  distinct := List.nodup_nil

/-- One more version is named, and the vector contains one more. -/
theorem Faithful.told (ha : a.Faithful) {m : Member} {n : Nat} {v : VersionVector}
    (h : a.vector.Recorded m n v) (m' : Member) (n' : Nat) :
    v.contains m' n' = true ↔ n' = 0 ∨ Named ((m, n) :: a.versions) m' n' := by
  rw [h.contains, Bool.or_eq_true, Bool.and_eq_true, beq_iff_eq, ha.contains, Named.cons, or_assoc]

/-- The greatest of two sets is the greater of the two greatest. -/
theorem greatest_or {p q : Nat → Prop} {x y : Nat} (hx : IsGreatest {n | n = 0 ∨ p n} x)
    (hy : IsGreatest {n | n = 0 ∨ q n} y) : IsGreatest {n | n = 0 ∨ p n ∨ q n} (max x y) := by
  have hunion := hx.union hy
  have hset : {n | n = 0 ∨ p n} ∪ {n | n = 0 ∨ q n} = {n | n = 0 ∨ p n ∨ q n} := by
    ext n
    simp only [Set.mem_union, Set.mem_ofPred_eq]
    tauto
  rwa [hset] at hunion

theorem Faithful.next (ha : a.Faithful) (hl : a.vector.localVersion < counterMax) :
    ∃ a', a.perform .next = .ok a' ∧ a'.Faithful := by
  obtain ⟨v, hnext, hrec, hlocal, hgc, habreast⟩ := ha.abreast.next_lt hl
  refine ⟨_, by simp only [perform, hnext, bind, Except.bind, pure, Except.pure]; rfl, ?_⟩
  refine ⟨habreast, hrec.owner ▸ ha.told hrec, ?_, ?_, ?_⟩
  · simpa only [VersionVector.gcVersion, hgc] using ha.gcVersion
  · intro n hn
    rcases List.mem_cons.1 hn with rfl | hn
    · exact Nat.le_of_eq hlocal.symm
    · have := ha.taken n hn
      simp only [hlocal]
      omega
  · refine List.nodup_cons.2 ⟨fun hmem => ?_, ha.distinct⟩
    have := ha.taken _ hmem
    omega

theorem Faithful.record (ha : a.Faithful) (m : Member) {n : Nat} (hn : n ≤ counterMax) :
    ∃ new v, a.vector.record m n = .ok (new, v) ∧
      Faithful { a with vector := v, versions := (m, n) :: a.versions } := by
  obtain ⟨v, hrec, hr, hlocal, hgc, habreast⟩ := ha.abreast.record m hn
  refine ⟨_, v, hrec, habreast, ha.told hr, ?_, fun k hk => ?_, ha.distinct⟩
  · simpa only [VersionVector.gcVersion, hgc] using ha.gcVersion
  · exact Nat.le_trans (ha.taken k hk) hlocal

theorem Faithful.recordGc (ha : a.Faithful) (m : Member) (n : Nat) :
    Faithful { a with vector := a.vector.recordGc m n, released := (m, n) :: a.released } := by
  refine ⟨⟨ha.abreast.sound, ha.abreast.counter⟩, ha.contains, fun m' => ?_, ha.taken, ha.distinct⟩
  simp only [gcVersion_recordGc, Named.cons]
  split
  next hs =>
    refine greatest_or (ha.gcVersion m') ?_
    simp [hs, IsGreatest, upperBounds]
  next hs =>
    simpa [hs] using ha.gcVersion m'

/-- Every call goes through, if it is not for a version when none is left. -/
theorem Faithful.perform (ha : a.Faithful) (c : Call)
    (hleft : c = .next → a.vector.localVersion < counterMax) :
    ∃ a', a.perform c = .ok a' ∧ a'.Faithful := by
  cases c with
  | next => exact ha.next (hleft rfl)
  | record m n hn =>
    obtain ⟨new, v, hrec, hf⟩ := ha.record m hn
    exact ⟨_, by simp only [Account.perform, hrec, bind, Except.bind, pure, Except.pure], hf⟩
  | recordTag t ht =>
    by_cases h0 : t.regionVersion = 0
    · refine ⟨a, ?_, ha⟩
      simp only [Account.perform, VersionVector.recordTag, h0, if_true, bind, Except.bind, pure,
        Except.pure]
    · obtain ⟨new, v, hrec, hf⟩ := ha.record t.member ht
      refine ⟨_, ?_, hf⟩
      simp only [Account.perform, VersionVector.recordTag, h0, hrec, if_false, bind, Except.bind,
        pure, Except.pure]
  | recordGc m n _ => exact ⟨_, rfl, ha.recordGc m n⟩

theorem Faithful.merge (ha : a.Faithful) (hb : b.Faithful) :
    ∃ a', a.merge b = .ok a' ∧ a'.Faithful := by
  obtain ⟨v, hmerge, h⟩ := merge_eq ha.abreast.sound hb.abreast.sound
  refine ⟨_, by simp only [Account.merge, hmerge, bind, Except.bind, pure, Except.pure]; rfl, ?_⟩
  refine ⟨h.abreast ha.abreast, fun m n => ?_, fun m => ?_, fun n hn => ?_, ha.distinct⟩
  · rw [h.contains, Bool.or_eq_true, ha.contains, hb.contains, Named.append]
    tauto
  · simp only [h.gcVersion, Named.append]
    exact greatest_or (ha.gcVersion m) (hb.gcVersion m)
  · rw [h.counter]
    exact Nat.le_trans (ha.taken n hn) (Nat.le_max_left _ _)

/-- A call forgets no version. -/
theorem versions_perform {c : Call} (h : a.perform c = .ok b) {q : Member × Nat}
    (hq : q ∈ a.versions) : q ∈ b.versions := by
  cases c with
  | next =>
    obtain ⟨⟨n, v⟩, -, h⟩ := bind_ok h
    cases h
    exact List.mem_cons_of_mem _ hq
  | record m n _ =>
    obtain ⟨⟨new, v⟩, -, h⟩ := bind_ok h
    cases h
    exact List.mem_cons_of_mem _ hq
  | recordTag t _ =>
    obtain ⟨answer, -, h⟩ := bind_ok h
    cases answer with
    | error _ =>
      cases h
      exact hq
    | ok _ =>
      cases h
      exact List.mem_cons_of_mem _ hq
  | recordGc m n _ =>
    cases h
    exact hq

end Account

/-- How a vector has come to be. The vectors merged into it have histories of their own, under
whatever owner. -/
inductive History
  | new (owner : Member)
  | call (past : History) (c : Call)
  | merge (past other : History)

namespace History

def run : History → Checked Account
  | .new owner => .ok { vector := { owner := owner } }
  | .call past c => do (← past.run).perform c
  | .merge past other => do (← past.run).merge (← other.run)

/-- The stages a vector has passed through, its own last one included. -/
def stages : History → List History
  | .new owner => [.new owner]
  | .call past c => .call past c :: past.stages
  | .merge past other => .merge past other :: past.stages

variable {h p : History} {a b e : Account}

theorem faithful (hr : h.run = .ok a) : a.Faithful := by
  induction h generalizing a with
  | new owner =>
    cases hr
    exact Account.faithful_new owner
  | call past c ih =>
    obtain ⟨b, hpast, hcall⟩ := bind_ok hr
    have hb := ih hpast
    obtain ⟨a', hok, hf⟩ := hb.perform c fun hc => by
      -- a call for a version that went through found one left
      subst hc
      refine Nat.lt_of_le_of_ne hb.abreast.small fun hl => ?_
      simp only [Account.perform, next_exhausted hl, bind, Except.bind] at hcall
      cases hcall
    rw [hok] at hcall
    cases hcall
    exact hf
  | merge past other ihp iho =>
    obtain ⟨b, hpast, hrest⟩ := bind_ok hr
    obtain ⟨c, hother, hmerge⟩ := bind_ok hrest
    obtain ⟨a', hok, hf⟩ := (ihp hpast).merge (iho hother)
    rw [hok] at hmerge
    cases hmerge
    exact hf

/-- What was named at one stage stays named. -/
theorem versions_subset (hp : p ∈ h.stages) (hr : h.run = .ok a) :
    ∃ e, p.run = .ok e ∧ ∀ q ∈ e.versions, q ∈ a.versions := by
  induction h generalizing a with
  | new owner =>
    rw [stages, List.mem_singleton] at hp
    exact ⟨a, hp ▸ hr, fun _ hq => hq⟩
  | call past c ih =>
    rcases List.mem_cons.1 hp with rfl | hp
    · exact ⟨a, hr, fun _ hq => hq⟩
    obtain ⟨b, hpast, hcall⟩ := bind_ok hr
    obtain ⟨e, he, hsub⟩ := ih hp hpast
    exact ⟨e, he, fun q hq => Account.versions_perform hcall (hsub q hq)⟩
  | merge past other ihp _ =>
    rcases List.mem_cons.1 hp with rfl | hp
    · exact ⟨a, hr, fun _ hq => hq⟩
    obtain ⟨b, hpast, hrest⟩ := bind_ok hr
    obtain ⟨c, -, hmerge⟩ := bind_ok hrest
    obtain ⟨v, -, hmerge⟩ := bind_ok hmerge
    obtain ⟨e, he, hsub⟩ := ihp hp hpast
    cases hmerge
    exact ⟨e, he, fun q hq => List.mem_append_left _ (hsub q hq)⟩

end History

/-! ## Vectors and their histories -/

variable {x y z : History} {a b c : Account}

/-- Vectors of whatever histories answer by what was named. A vector contains the versions given
out, recorded and merged in, and does not lose them again; and up to the highest version recorded or
merged in tombstones may go. So vectors can be merged in any order and grouping, and again, and one
dominates another if it contains whatever the other does. -/
theorem history_lattice (hx : x.run = .ok a) (hy : y.run = .ok b) (hz : z.run = .ok c) :
    (∀ m n, a.vector.contains m n = true ↔ n = 0 ∨ Named a.versions m n) ∧
      (∀ p ∈ x.stages, ∃ e, p.run = .ok e ∧
        ∀ m n, e.vector.contains m n = true → a.vector.contains m n = true) ∧
      (∀ m, IsGreatest {n | n = 0 ∨ Named a.released m n} (a.vector.gcVersion m)) ∧
      (∃ ab ba, a.vector.merge b.vector = .ok ab ∧ b.vector.merge a.vector = .ok ba ∧
        (a.vector.owner.same b.vector.owner = true → ab.same ba = true)) ∧
      (∃ ab bc abc abc', a.vector.merge b.vector = .ok ab ∧ b.vector.merge c.vector = .ok bc ∧
        ab.merge c.vector = .ok abc ∧ a.vector.merge bc = .ok abc' ∧ abc.same abc' = true) ∧
      (∃ aa, a.vector.merge a.vector = .ok aa ∧ aa.same a.vector = true) ∧
      ∃ r, a.vector.dominates b.vector = .ok r ∧
        (r = true ↔ ∀ m n, b.vector.contains m n = true → a.vector.contains m n = true) := by
  have ha := History.faithful hx
  have hb := History.faithful hy
  have hc := History.faithful hz
  obtain ⟨ab, hab, hmab⟩ := merge_eq ha.abreast.sound hb.abreast.sound
  obtain ⟨ba, hba, hmba⟩ := merge_eq hb.abreast.sound ha.abreast.sound
  obtain ⟨bc, hbc, hmbc⟩ := merge_eq hb.abreast.sound hc.abreast.sound
  obtain ⟨abc, habc, hmabc⟩ := merge_eq hmab.sound hc.abreast.sound
  obtain ⟨abc', habc', hmabc'⟩ := merge_eq ha.abreast.sound hmbc.sound
  obtain ⟨aa, haa, hmaa⟩ := merge_eq ha.abreast.sound ha.abreast.sound
  refine ⟨ha.contains, fun p hp => ?_, ha.gcVersion,
    ⟨ab, ba, hab, hba, fun howner => hmab.comm ha.abreast hb.abreast howner hmba⟩,
    ⟨ab, bc, abc, abc', hab, hbc, habc, habc', Merged.assoc ha.abreast hmab hmbc hmabc hmabc'⟩,
    ⟨aa, haa, hmaa.self ha.abreast⟩, dominates_eq ha.abreast.sound hb.abreast.sound⟩
  obtain ⟨e, he, hsub⟩ := History.versions_subset hp hx
  refine ⟨e, he, fun m n hn => ?_⟩
  rw [(History.faithful he).contains] at hn
  rw [ha.contains]
  exact hn.imp_right fun ⟨q, hq, hs⟩ => ⟨q, hsub q hq, hs⟩

/-- A vector that has given out two versions when it is told of a higher one of its owner, which
another vector of that owner was told of, and has merged in a third vector before. -/
def tangled : History × History × History :=
  let near : Member := { address := .localhost, port := 1 }
  let far : Member := { address := .localhost, port := 2 }
  let y := ((History.new near).call (.record near 4 (by decide))).call (.recordGc far 3 (by decide))
  let z := (History.new far).call .next
  let x := ((((History.new near).call .next).call .next).merge z).merge y
  (x.call .next, y, z)

theorem ran_tangled : ∃ a b c, tangled.1.run = .ok a ∧ tangled.2.1.run = .ok b ∧
    tangled.2.2.run = .ok c ∧ a.vector.owner = b.vector.owner ∧ a.taken = [5, 2, 1] ∧
    a.vector.localVersion = 5 := by
  have hend : tangled.1.run.toOption.map (fun a => (a.vector.owner, a.taken, a.vector.localVersion)) =
      some ({ address := .localhost, port := 1 }, [5, 2, 1], 5) := by decide +kernel
  cases hx : tangled.1.run with
  | error e =>
    rw [hx] at hend
    cases hend
  | ok a =>
    rw [hx] at hend
    obtain ⟨howner, htaken, hlocal⟩ : a.vector.owner = _ ∧ a.taken = _ ∧ a.vector.localVersion = _ := by
      simpa only [Except.toOption, Option.map_some, Option.some.injEq, Prod.mk.injEq] using hend
    exact ⟨a, _, _, rfl, rfl, rfl, howner, htaken, hlocal⟩

theorem history_lattice_tangled :
    ∃ a b c, tangled.1.run = .ok a ∧ tangled.2.1.run = .ok b ∧ tangled.2.2.run = .ok c ∧
      a.vector.owner.same b.vector.owner = true ∧
      (∀ p ∈ tangled.1.stages, ∃ e, p.run = .ok e ∧
        ∀ m n, e.vector.contains m n = true → a.vector.contains m n = true) ∧
      ∃ ab ba, a.vector.merge b.vector = .ok ab ∧ b.vector.merge a.vector = .ok ba ∧
        ab.same ba = true := by
  obtain ⟨a, b, c, hx, hy, hz, howner, -⟩ := ran_tangled
  obtain ⟨-, hkept, -, ⟨ab, ba, hab, hba, hsame⟩, -⟩ := history_lattice hx hy hz
  have hown : a.vector.owner.same b.vector.owner = true := by rw [howner, Member.same_refl]
  exact ⟨a, b, c, hx, hy, hz, hown, hkept, ab, ba, hab, hba, hsame hown⟩

/-- The counter of a vector is the highest version of its owner, however the vector learnt of it. So
the version given out next is above all versions of the owner that the vector contains, and in one
history none is given out twice. -/
theorem next_fresh (hx : x.run = .ok a) :
    a.vector.localVersion = a.vector.versionOf a.vector.owner ∧
      (a.vector.localVersion = counterMax → a.vector.next = .error .add) ∧
      (a.vector.localVersion ≠ counterMax → ∃ n v, a.vector.next = .ok (n, v) ∧
        (∀ w, a.vector.contains a.vector.owner w = true → w < n) ∧
        a.vector.contains a.vector.owner n = false ∧ v.contains a.vector.owner n = true) ∧
      a.taken.Nodup := by
  have ha := History.faithful hx
  refine ⟨ha.abreast.counter, next_exhausted, fun hl => ?_, ha.distinct⟩
  have hsmall := ha.abreast.small
  obtain ⟨v, hnext, hrec, -⟩ := ha.abreast.next_lt (by omega)
  have habove : ∀ w, a.vector.contains a.vector.owner w = true → w < a.vector.localVersion + 1 := by
    intro w hw
    have := (ha.abreast.sound.versionOf _).2 w hw
    rw [← ha.abreast.counter] at this
    omega
  refine ⟨_, v, hnext, habove, ?_, hrec.of_contains⟩
  rw [Bool.eq_false_iff]
  exact fun hc => Nat.lt_irrefl _ (habove _ hc)

theorem next_fresh_tangled :
    ∃ a, tangled.1.run = .ok a ∧ a.taken = [5, 2, 1] ∧ a.taken.Nodup ∧
      ∃ n v, a.vector.next = .ok (n, v) ∧ a.vector.contains a.vector.owner n = false := by
  obtain ⟨a, -, -, hx, -, -, -, htaken, hlocal⟩ := ran_tangled
  obtain ⟨-, -, hnext, hdistinct⟩ := next_fresh hx
  obtain ⟨n, v, hn, -, hnew, -⟩ := hnext (by rw [hlocal]; decide)
  exact ⟨a, hx, htaken, hdistinct, n, v, hn, hnew⟩

end VersionVector
end DataGrid
