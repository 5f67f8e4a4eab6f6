import DataGrid.Version.Conflict
import DataGrid.Proofs.Version.Vector
import Mathlib.Data.List.Induction

/-
The comparison of tags is a comparison of ranks: by entry version, then by
member. So the tags that arrive for an entry leave the stamp of the greatest
one, whatever their order and however often each arrives
(`VersionStamp.receiveAll_greatest`).

Equality of ranks is that of versions and of members, and members that are the
same may be described differently. Of tags of equal rank the first to arrive is
kept, so what all orders agree on is the version, and the member up to `same`.
-/

namespace DataGrid

/-- The order in which operations win: by entry version, then by member. -/
def VersionTag.rank : VersionTag → VersionTag → Ordering :=
  compareLex (compareOn VersionTag.entryVersion) (compareOn VersionTag.member)

instance : Std.TransCmp VersionTag.rank :=
  inferInstanceAs (Std.TransCmp
    (compareLex (compareOn VersionTag.entryVersion) (compareOn VersionTag.member)))

theorem VersionStamp.judge_ofTag {t u : VersionTag} (h : t.isValid = true) :
    (VersionStamp.ofTag u).judge t =
      match t.rank u with
      | .gt => .apply
      | .lt => .stale
      | .eq => .duplicate := by
  simp only [judge, ofTag, h, if_true]
  rfl

@[simp] theorem VersionTag.rank_self (t : VersionTag) : t.rank t = .eq :=
  Std.ReflCmp.compare_self

theorem VersionTag.rank_eq_iff {t u : VersionTag} :
    t.rank u = .eq ↔ t.entryVersion = u.entryVersion ∧ t.member.same u.member = true := by
  simp [rank, compareLex, compareOn, Ordering.then_eq_eq, Member.same_iff]

/-- The order of ranks, level by level. -/
theorem VersionTag.rank_isLE_iff {t u : VersionTag} :
    (t.rank u).isLE = true ↔ t.entryVersion < u.entryVersion ∨
      t.entryVersion = u.entryVersion ∧ (compare t.member u.member).isLE = true := by
  simp [rank, compareLex, compareOn, Ordering.isLE_then_iff_or, Nat.compare_eq_lt]

/-! ## Tags that arrive one after the other -/

/-- A tag of the list that none of the others outranks. -/
def VersionTag.Greatest (ts : List VersionTag) (best : VersionTag) : Prop :=
  best ∈ ts ∧ ∀ t ∈ ts, (t.rank best).isLE = true

namespace VersionTag.Greatest

variable {ts us : List VersionTag} {a b t : VersionTag}

theorem kept (h : Greatest ts a) (hle : (t.rank a).isLE = true) : Greatest (ts ++ [t]) a := by
  refine ⟨List.mem_append_left _ h.1, fun u hu => ?_⟩
  rcases List.mem_append.1 hu with hu | hu
  · exact h.2 u hu
  · rwa [List.mem_singleton.1 hu]

theorem replaced (h : Greatest ts a) (hlt : a.rank t = .lt) : Greatest (ts ++ [t]) t := by
  refine ⟨by simp, fun u hu => ?_⟩
  rcases List.mem_append.1 hu with hu | hu
  · rw [Std.TransCmp.lt_of_isLE_of_lt (h.2 u hu) hlt]
    rfl
  · rw [List.mem_singleton.1 hu, rank_self]
    rfl

theorem single (t : VersionTag) : Greatest [t] t := by
  refine ⟨List.mem_singleton_self t, fun u hu => ?_⟩
  rw [List.mem_singleton.1 hu, rank_self]
  rfl

/-- One more tag is the greatest if it outranks the one that was. -/
theorem snoc (h : Greatest ts a) (t : VersionTag) :
    Greatest (ts ++ [t]) (if t.rank a = .gt then t else a) := by
  split
  next hgt => exact h.replaced (Std.OrientedCmp.lt_of_gt hgt)
  next hle => exact h.kept (Ordering.isLE_iff_ne_gt.2 hle)

theorem exists_of_ne_nil (hne : ts ≠ []) : ∃ best, Greatest ts best := by
  induction ts using List.reverseRecOn with
  | nil => exact absurd rfl hne
  | append_singleton ts t ih =>
    rcases eq_or_ne ts [] with rfl | hts
    · exact ⟨t, single t⟩
    · obtain ⟨best, hbest⟩ := ih hts
      exact ⟨_, hbest.snoc t⟩

/-- The greatest tags of lists that have the same tags are of the same rank. -/
theorem rank_eq (h : Greatest ts a) (h' : Greatest us b) (hsame : ∀ t, t ∈ us ↔ t ∈ ts) :
    b.rank a = .eq :=
  Std.OrientedCmp.isLE_antisymm (h.2 b ((hsame b).1 h'.1)) (h'.2 a ((hsame a).2 h.1))

end VersionTag.Greatest

namespace VersionStamp

open VersionTag (Greatest)

/-- What an entry's stamp becomes when a tag arrives. -/
def receive (s : VersionStamp) (t : VersionTag) : VersionStamp :=
  if s.judge t = .apply then .ofTag t else s

/-- The stamp of a new entry once tags have arrived one after the other. -/
def receiveAll (ts : List VersionTag) : VersionStamp := ts.foldl receive {}

variable {ts past : List VersionTag} {best t : VersionTag}

/-- An unversioned stamp takes any tag. -/
theorem receive_new (t : VersionTag) : ({} : VersionStamp).receive t = .ofTag t := rfl

/-- The stamp of a tag gives way to the tags that outrank it. -/
theorem receive_ofTag (ht : t.isValid = true) :
    (ofTag best).receive t = .ofTag (if t.rank best = .gt then t else best) := by
  simp only [receive, judge_ofTag ht]
  cases t.rank best <;> rfl

theorem Greatest.foldl (h : Greatest past best) (hts : ∀ t ∈ ts, t.isValid = true) :
    ∃ best', Greatest (past ++ ts) best' ∧
      ts.foldl VersionStamp.receive (ofTag best) = .ofTag best' := by
  induction ts generalizing past best with
  | nil => exact ⟨best, by rwa [List.append_nil], rfl⟩
  | cons t ts ih =>
    obtain ⟨last, hlast, hrest⟩ := ih (h.snoc t) fun u hu => hts u (List.mem_cons_of_mem _ hu)
    rw [List.append_assoc] at hlast
    exact ⟨last, hlast, by
      rw [List.foldl_cons, receive_ofTag (hts t List.mem_cons_self), hrest]⟩

theorem exists_greatest (hne : ts ≠ []) (hts : ∀ t ∈ ts, t.isValid = true) :
    ∃ best, Greatest ts best ∧ receiveAll ts = .ofTag best := by
  cases ts with
  | nil => exact absurd rfl hne
  | cons t ts =>
    rw [receiveAll, List.foldl_cons, receive_new]
    exact Greatest.foldl (.single t) fun u hu => hts u (List.mem_cons_of_mem _ hu)

/-- Of two valid tags one is applied over the other and that one is stale over it, or each is a
duplicate of the other, being of one version and one member. -/
theorem judge_pair {t u : VersionTag} (ht : t.isValid = true) (hu : u.isValid = true) :
    ((ofTag u).judge t = .apply ∧ (ofTag t).judge u = .stale) ∨
      ((ofTag u).judge t = .stale ∧ (ofTag t).judge u = .apply) ∨
      ((ofTag u).judge t = .duplicate ∧ (ofTag t).judge u = .duplicate ∧
        t.entryVersion = u.entryVersion ∧ t.member.same u.member = true) := by
  have hflip : u.rank t = (t.rank u).swap := Std.OrientedCmp.eq_swap
  rw [judge_ofTag ht, judge_ofTag hu, hflip]
  cases hrank : t.rank u with
  | gt => exact .inl ⟨rfl, rfl⟩
  | lt => exact .inr (.inl ⟨rfl, rfl⟩)
  | eq => exact .inr (.inr ⟨rfl, rfl, VersionTag.rank_eq_iff.1 hrank⟩)

/-- Valid tags that arrive for a new entry leave the stamp of one that is greatest by entry version
and then by member. So the version and the member of the stamp are the same in every order in which
the tags may arrive, however often each of them does. This is so because any two tags are either
decided one way, whichever arrives first, or duplicates of each other. -/
theorem receiveAll_greatest (hne : ts ≠ []) (hts : ∀ t ∈ ts, t.isValid = true) :
    (∃ best ∈ ts, receiveAll ts = .ofTag best ∧
      ∀ t ∈ ts, t.entryVersion < best.entryVersion ∨
        t.entryVersion = best.entryVersion ∧ (compare t.member best.member).isLE = true) ∧
    (∀ us : List VersionTag, (∀ t, t ∈ us ↔ t ∈ ts) →
      (receiveAll us).entryVersion = (receiveAll ts).entryVersion ∧
        Member.sameOption (receiveAll us).member (receiveAll ts).member = true) ∧
    ∀ t u : VersionTag, t.isValid = true → u.isValid = true →
      ((ofTag u).judge t = .apply ∧ (ofTag t).judge u = .stale) ∨
        ((ofTag u).judge t = .stale ∧ (ofTag t).judge u = .apply) ∨
        ((ofTag u).judge t = .duplicate ∧ (ofTag t).judge u = .duplicate ∧
          t.entryVersion = u.entryVersion ∧ t.member.same u.member = true) := by
  obtain ⟨best, hbest, hstamp⟩ := exists_greatest hne hts
  refine ⟨⟨best, hbest.1, hstamp, fun t ht => VersionTag.rank_isLE_iff.1 (hbest.2 t ht)⟩,
    fun us hsame => ?_, fun _ _ => judge_pair⟩
  have hne' : us ≠ [] := List.ne_nil_of_mem ((hsame best).2 hbest.1)
  obtain ⟨best', hbest', hstamp'⟩ := exists_greatest hne' fun t ht => hts t ((hsame t).1 ht)
  rw [hstamp, hstamp']
  exact VersionTag.rank_eq_iff.1 (hbest.rank_eq hbest' hsame)

/-- The first two tags are of one member, which was restarted between them; the last has a region
version only. -/
def redescribed : List VersionTag :=
  let high : Member := { address := .localhost, port := 2 }
  let low : Member := { address := .localhost, port := 1 }
  [⟨high, 2, 1, 0, none⟩, ⟨{ high with processId := 7 }, 2, 3, 0, none⟩, ⟨low, 2, 1, 0, none⟩,
    ⟨high, 0, 5, 0, none⟩]

/-- The other way round, and then again, the other of the first two is kept. -/
theorem receiveAll_greatest_redescribed :
    (∀ t ∈ redescribed, t.isValid = true) ∧
      receiveAll (redescribed.reverse ++ redescribed) ≠ receiveAll redescribed ∧
      (receiveAll (redescribed.reverse ++ redescribed)).entryVersion =
        (receiveAll redescribed).entryVersion ∧
      Member.sameOption (receiveAll (redescribed.reverse ++ redescribed)).member
        (receiveAll redescribed).member = true := by
  have hvalid : ∀ t ∈ redescribed, t.isValid = true := by decide
  obtain ⟨-, horders, -⟩ := receiveAll_greatest (by decide) hvalid
  exact ⟨hvalid, by decide, horders _ fun t => by simp⟩

end VersionStamp
end DataGrid
