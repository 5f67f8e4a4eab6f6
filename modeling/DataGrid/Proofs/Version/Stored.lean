import DataGrid.Version.Vector
import DataGrid.Proofs.Member.Json

/-
Version state that is stored as JSON comes back as it was
(`VersionVector.restored`). The numbers need no more than to fit the words
that hold them (`InRange`), and the keys of a map come back in their order, each
with the fields that do not tell members apart.
-/

namespace DataGrid

open Json

theorem survives_counter {n : Nat} (h : n ≤ counterMax) : Survives .nat (asNat 64) n :=
  survives_nat (Nat.lt_succ_of_le h)

theorem survives_time {t : Int} (h : timeMin ≤ t ∧ t ≤ timeMax) :
    Survives .int (asSigned 64) t :=
  survives_int h.1 h.2

/-! ## Holders -/

theorem Gap.survives {g : Gap} (h : g.low ≤ counterMax ∧ g.high ≤ counterMax) :
    Survives toJson ofJson? g := by
  have hlow := survives_counter h.1
  have hhigh := survives_counter h.2
  have hfields : fieldsNamed ["from", "to"] g.toJson =
      some [.given (.nat g.low), .given (.nat g.high)] :=
    fieldsNamed_object rfl (by decide)
  refine ⟨.object ?_, ?_⟩
  · simp [hlow.whole, hhigh.whole]
  · simp [ofJson?, hfields, Field.required, hlow.reads, hhigh.reads]

namespace Holder

def InRange (h : Holder) : Prop :=
  h.version ≤ counterMax ∧ ∀ g ∈ h.gaps, g.low ≤ counterMax ∧ g.high ≤ counterMax

instance (h : Holder) : Decidable h.InRange := inferInstanceAs (Decidable (_ ∧ _))

theorem survives {h : Holder} (hrange : h.InRange) : Survives toJson ofJson? h := by
  have hversion := survives_counter hrange.1
  have hgaps : Survives (.list Gap.toJson) (asList Gap.ofJson?) h.gaps :=
    .list fun g hg => Gap.survives (hrange.2 g hg)
  have hfields : fieldsNamed ["version", "exceptions"] h.toJson =
      some [.given (.nat h.version), .given (.list Gap.toJson h.gaps)] :=
    fieldsNamed_object rfl (by decide)
  refine ⟨.object ?_, ?_⟩
  · simp [hversion.whole, hgaps.whole]
  · simp [ofJson?, hfields, Field.required, hversion.reads, hgaps.reads]

end Holder

/-! ## Tags and stamps -/

theorem survives_member? (m : Option Member) :
    Survives (.option Member.toJson) (asOption Member.ofJson?) m :=
  .option (fun m _ => m.survives) Member.toJson_ne_null

namespace VersionTag

def InRange (t : VersionTag) : Prop :=
  t.entryVersion ≤ counterMax ∧ t.regionVersion ≤ counterMax
    ∧ timeMin ≤ t.timestamp ∧ t.timestamp ≤ timeMax

instance (t : VersionTag) : Decidable t.InRange := inferInstanceAs (Decidable (_ ∧ _))

theorem survives {t : VersionTag} (hrange : t.InRange) : Survives toJson ofJson? t := by
  have hmember := t.member.survives
  have hentry := survives_counter hrange.1
  have hregion := survives_counter hrange.2.1
  have htime := survives_time hrange.2.2
  have hprevious := survives_member? t.previousMember
  have hfields : fieldsNamed fieldNames t.toJson = some [
      .given t.member.toJson, .given (.nat t.entryVersion), .given (.nat t.regionVersion),
      .given (.int t.timestamp), .given (.option Member.toJson t.previousMember)] :=
    fieldsNamed_object rfl (by decide)
  refine ⟨.object ?_, ?_⟩
  · simp [hmember.whole, hentry.whole, hregion.whole, htime.whole, hprevious.whole]
  · simp [ofJson?, hfields, Field.required, Field.optional, hmember.reads, hentry.reads,
      hregion.reads, htime.reads, hprevious.reads]

end VersionTag

namespace VersionStamp

def InRange (s : VersionStamp) : Prop :=
  s.entryVersion ≤ counterMax ∧ s.regionVersion ≤ counterMax
    ∧ timeMin ≤ s.timestamp ∧ s.timestamp ≤ timeMax

instance (s : VersionStamp) : Decidable s.InRange := inferInstanceAs (Decidable (_ ∧ _))

theorem survives {s : VersionStamp} (hrange : s.InRange) : Survives toJson ofJson? s := by
  have hmember := survives_member? s.member
  have hentry := survives_counter hrange.1
  have hregion := survives_counter hrange.2.1
  have htime := survives_time hrange.2.2
  have hfields : fieldsNamed fieldNames s.toJson = some [
      .given (.option Member.toJson s.member), .given (.nat s.entryVersion),
      .given (.nat s.regionVersion), .given (.int s.timestamp)] :=
    fieldsNamed_object rfl (by decide)
  refine ⟨.object ?_, ?_⟩
  · simp [hmember.whole, hentry.whole, hregion.whole, htime.whole]
  · simp [ofJson?, hfields, Field.required, Field.optional, hmember.reads, hentry.reads,
      hregion.reads, htime.reads]

end VersionStamp

/-! ## Vectors -/

namespace VersionVector

def InRange (v : VersionVector) : Prop :=
  v.localVersion ≤ counterMax ∧ (∀ p ∈ v.holders.toList, p.2.InRange)
    ∧ ∀ p ∈ v.gcVersions.toList, p.2 ≤ counterMax

instance (v : VersionVector) : Decidable v.InRange := inferInstanceAs (Decidable (_ ∧ _))

theorem survives {v : VersionVector} (hrange : v.InRange) : Survives toJson ofJson? v := by
  have howner := v.owner.survives
  have hversion := survives_counter hrange.1
  have hholders := OrdMap.survives fun p hp => Holder.survives (hrange.2.1 p hp)
  have hgc := OrdMap.survives fun p hp => survives_counter (hrange.2.2 p hp)
  have hfields : fieldsNamed fieldNames v.toJson = some [
      .given v.owner.toJson, .given (.nat v.localVersion),
      .given (v.holders.toJson Holder.toJson), .given (v.gcVersions.toJson Json.nat)] :=
    fieldsNamed_object rfl (by decide)
  refine ⟨.object ?_, ?_⟩
  · simp [howner.whole, hversion.whole, hholders.whole, hgc.whole]
  · simp [ofJson?, hfields, Field.required, howner.reads, hversion.reads, hholders.reads,
      hgc.reads]

/-- Every vector, tag and stamp is read from its text as it was written. -/
theorem restored :
    (∀ v : VersionVector, v.InRange → VersionVector.parse v.toJson.render = some v)
    ∧ (∀ t : VersionTag, t.InRange → VersionTag.parse t.toJson.render = some t)
    ∧ ∀ s : VersionStamp, s.InRange → VersionStamp.parse s.toJson.render = some s :=
  ⟨fun _ h => (survives h).parse, fun _ h => (VersionTag.survives h).parse,
    fun _ h => (VersionStamp.survives h).parse⟩

/-- A vector at the ends of its ranges, whose keys have an address of each kind, and a tag and a
stamp from before the epoch. -/
theorem restored_at_limits :
    let plain : Member := {
      address := .v4 127 0 0 1, port := 1, processId := 4294967295, viewId := -2147483648
      name := none, tag := none }
    let named : Member := {
      address := .v6 #v[0xfe80, 0, 0, 0, 0, 0, 0, 1], port := 65535, processId := 7, viewId := 3
      name := some "größe \"a\"", tag := some "\u0000" }
    let v : VersionVector := {
      owner := named, localVersion := counterMax
      holders := .ofList [
        (named, ⟨counterMax, [⟨counterMax, 0⟩, ⟨5, counterMax - 1⟩]⟩), (plain, ⟨0, []⟩)]
      gcVersions := .ofList [(plain, counterMax)] }
    let t : VersionTag := {
      member := plain, entryVersion := counterMax, regionVersion := 0, timestamp := timeMin
      previousMember := some named }
    let s : VersionStamp := { timestamp := -1 }
    (v.InRange ∧ VersionVector.parse v.toJson.render = some v)
      ∧ (t.InRange ∧ VersionTag.parse t.toJson.render = some t)
      ∧ s.InRange ∧ VersionStamp.parse s.toJson.render = some s := by
  intro plain named v t s
  have hv : v.InRange := by decide
  have ht : t.InRange := by decide
  have hs : s.InRange := by decide
  exact ⟨⟨hv, restored.1 v hv⟩, ⟨ht, restored.2.1 t ht⟩, hs, restored.2.2 s hs⟩

end VersionVector
end DataGrid
