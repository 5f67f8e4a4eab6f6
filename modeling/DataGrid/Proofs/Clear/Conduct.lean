import DataGrid.Proofs.Clear.Loops

/-
How a coordinator holds its clear lock, whatever its surroundings do. Only
`obtainLocal` takes it. Every other act leaves it as it is, or gives it up
because the member that held it left the cluster, and then releases all local
buckets (`Orderly`).
-/

namespace DataGrid

open Coordinator

variable {σ β α : Type}

namespace Effect

/-- What a coordinator does on hearing that a member left. -/
def isReaction : Effect → Bool
  | .memberLeft _ | .bucketReleased _ => true
  | _ => false

/-- A lock of the region, of its bucket creation or of a bucket is taken, or one of the first two
is given up. The request for the lock of the region does not count. -/
def isLocking : Effect → Bool
  | .unlocked _ | .creationLocked | .creationUnlocked | .bucketLocked .. => true
  | _ => false

def isCreation : Effect → Bool
  | .creationLocked | .creationUnlocked => true
  | _ => false

end Effect

/-- As long as `P` holds of the outside a bucket is local, and nothing done at the site ends
that. -/
structure Site.Retains (site : Site σ β) (b : β) (P : σ → Prop) : Prop where
  listed : ∀ o, P o → ∃ l, site.buckets o = some l ∧ b ∈ l.all
  hasPrimary : ∀ b' o, P o → P (site.hasPrimary b' o).2
  clearBucket : ∀ b' o, P o → P (site.clearBucket b' o)
  lockBucket : ∀ b' m o o', P o → site.lockBucket b' m o = some o' → P o'
  releaseBucket : ∀ b' o, P o → P (site.releaseBucket b' o)
  lockCreation : ∀ o o', P o → site.lockCreation o = some o' → P o'
  unlockCreation : ∀ o, P o → P (site.unlockCreation o)
  tellListeners : ∀ e o, P o → P (site.tellListeners e o)
  tellClients : ∀ e o, P o → P (site.tellClients e o)
  departures : ∀ o, P o → P (site.departures o).2

/-- Nor does anything else that a clear asks for. -/
structure Surroundings.Retains (sur : Surroundings σ β) (b : β) (P : σ → Prop) : Prop
    extends Site.Retains sur.toSite b P where
  lock : ∀ name wait lease o r o', P o → sur.lock name wait lease o = some (r, o') → P o'
  unlock : ∀ name o, P o → P (sur.unlock name o).2
  askWriter : ∀ e o, P o → P (sur.askWriter e o).2
  assignPrimaries : ∀ o, P o → P (sur.assignPrimaries o).2
  newId : ∀ o, P o → P (sur.newId o).2
  send : ∀ message members o, P o → P (sur.send message members o).2

/-- What was done is of the given kind. The clear lock is held as before, or was given up with all
local buckets. -/
structure Orderly (sur : Surroundings σ β) (kind : Effect → Prop) (s : Scene σ) (es : List Effect)
    (s' : Scene σ) : Prop where
  only : ∀ e ∈ es, kind e
  retained : ∀ b P, sur.Retains b P → P s.outside → P s'.outside
  lock : (s'.coordinator.lock = s.coordinator.lock ∧ ∀ id, .bucketReleased id ∉ es) ∨
    (s.coordinator.lock.isLocked = true ∧ s'.coordinator.lock = {} ∧
      ∀ b P, sur.Retains b P → P s.outside → .bucketReleased (sur.bucketId b) ∈ es)

variable {sur : Surroundings σ β} {kind kind' : Effect → Prop} {s s' : Scene σ} {es : List Effect}

namespace Orderly

/-- An act that does not concern the clear lock. -/
theorem apart (hk : ∀ e ∈ es, kind e ∧ ∀ id, e ≠ .bucketReleased id)
    (hc : s'.coordinator.lock = s.coordinator.lock)
    (hr : ∀ b P, sur.Retains b P → P s.outside → P s'.outside) : Orderly sur kind s es s' :=
  ⟨fun e he => (hk e he).1, hr, .inl ⟨hc, fun _ he => (hk _ he).2 _ rfl⟩⟩

theorem refl (s : Scene σ) : Orderly sur kind s [] s :=
  apart (by simp) rfl fun _ _ _ hP => hP

theorem trans {s₁ s₂ : Scene σ} {es' : List Effect} (h : Orderly sur kind s es s₁)
    (h' : Orderly sur kind s₁ es' s₂) : Orderly sur kind s (es ++ es') s₂ where
  only e he := (List.mem_append.1 he).elim (h.only e) (h'.only e)
  retained b P hr hP := h'.retained b P hr (h.retained b P hr hP)
  lock := by
    rcases h.lock with ⟨hsame, hnone⟩ | ⟨hlocked, hfree, hrel⟩
    · rcases h'.lock with ⟨hsame', hnone'⟩ | ⟨hlocked', hfree', hrel'⟩
      · refine .inl ⟨hsame'.trans hsame, fun id hm => ?_⟩
        exact (List.mem_append.1 hm).elim (hnone id) (hnone' id)
      · refine .inr ⟨hsame ▸ hlocked', hfree', fun b P hr hP => ?_⟩
        exact List.mem_append_right _ (hrel' b P hr (h.retained b P hr hP))
    · rcases h'.lock with ⟨hsame', -⟩ | ⟨hlocked', -⟩
      · exact .inr ⟨hlocked, hsame'.trans hfree, fun b P hr hP =>
          List.mem_append_left _ (hrel b P hr hP)⟩
      · rw [hfree] at hlocked'
        cases hlocked'

theorem chained : Chained (Orderly sur kind) := ⟨refl, trans⟩

theorem mono (h : Orderly sur kind s es s') (hk : ∀ e, kind e → kind' e) :
    Orderly sur kind' s es s' := ⟨fun e he => hk e (h.only e he), h.retained, h.lock⟩

/-- A free clear lock stays free, and no bucket is released for it. -/
theorem free (h : Orderly sur kind s es s') (hfree : s.coordinator.lock = {}) :
    s'.coordinator.lock = {} ∧ ∀ id, .bucketReleased id ∉ es := by
  rcases h.lock with ⟨hsame, hnone⟩ | ⟨hlocked, -⟩
  · exact ⟨hsame.trans hfree, hnone⟩
  · rw [hfree] at hlocked
    cases hlocked

/-- Something else was done first. -/
theorem cons {e : Effect} (hk : kind e) (hne : ∀ id, e ≠ .bucketReleased id)
    (h : Orderly sur kind s es s') : Orderly sur kind s (e :: es) s' := by
  have hfirst : Orderly sur kind s [e] s :=
    apart (by simpa using ⟨hk, hne⟩) rfl fun _ _ _ hP => hP
  exact hfirst.trans h

end Orderly

/-! ## Hearing of departures -/

/-- One call for each bucket. -/
theorem ensures_each (eff : β → Effect) (f : β → σ → Option (Unit × σ)) :
    ∀ (l : List β) (s : Scene σ), Ensures (l.forM fun b => call (eff b) (f b)) s fun _ es s' =>
      es = l.map eff ∧ s'.coordinator = s.coordinator ∧
        ∀ P : σ → Prop, (∀ b o o', P o → f b o = some ((), o') → P o') → P s.outside → P s'.outside
  | [], s => .pure _ ⟨rfl, rfl, fun _ _ hP => hP⟩
  | b :: l, s => by
    refine .bind ((Ensures.call _ _).mono ?_)
    rintro _ _ s₁ ⟨rfl, hf, hc⟩
    refine (ensures_each eff f l s₁).mono ?_
    rintro _ _ s₂ ⟨rfl, hc', hkept⟩
    exact ⟨rfl, hc'.trans hc, fun P hP h => hkept P hP (hP b _ _ h hf)⟩

theorem ensures_releaseLocal (hk : ∀ e, e.isReaction = true → kind e) :
    Ensures (releaseLocal sur.toSite) s fun _ es s' =>
      Orderly sur kind s es s' ∧ s'.coordinator.lock = {} := by
  refine .get_bind ?_
  cases hlocked : s.coordinator.lock.isLocked with
  | false =>
    have hfree : s.coordinator.lock = {} := by
      cases hl : s.coordinator.lock with
      | mk requester =>
        rw [hl] at hlocked
        cases requester with
        | none => rfl
        | some m => cases hlocked
    exact .pure _ ⟨.refl s, hfree⟩
  | true =>
    simp only [if_true]
    cases hbuckets : sur.buckets s.outside with
    | none =>
      refine (Ensures.alter _).mono ?_
      rintro - _ _ ⟨rfl, rfl⟩
      refine ⟨⟨by simp, fun _ _ _ hP => hP, .inr ⟨hlocked, rfl, fun b P hr hP => ?_⟩⟩, rfl⟩
      obtain ⟨l, hl, -⟩ := hr.listed _ hP
      rw [hbuckets] at hl
      cases hl
    | some buckets =>
      refine .bind ((ensures_each _ _ buckets.all s).mono ?_)
      rintro - _ s₁ ⟨rfl, hc, hkept⟩
      refine (Ensures.alter _).mono ?_
      rintro - _ _ ⟨rfl, rfl⟩
      rw [List.append_nil]
      refine ⟨⟨fun e he => ?_, fun b P hr hP => hkept P (fun b o o' hP hf => ?_) hP,
        .inr ⟨hlocked, rfl, fun b P hr hP => ?_⟩⟩, rfl⟩
      · obtain ⟨b, -, rfl⟩ := List.mem_map.1 he
        exact hk _ rfl
      · cases hf
        exact hr.releaseBucket b o hP
      · obtain ⟨l, hl, hb⟩ := hr.listed _ hP
        rw [hbuckets] at hl
        cases hl
        exact List.mem_map.2 ⟨b, hb, rfl⟩

theorem comes_releaseLocal (site : Site σ β) (s : Scene σ) :
    Comes (releaseLocal site) s fun _ _ _ => True := by
  refine .get_bind ?_
  split
  · split
    · refine .bind ((Comes.forM (fun b s => (Comes.call _ rfl).mono ?_) _ s).mono ?_)
      · exact fun _ _ _ _ => trivial
      · exact fun _ _ _ _ => (Comes.alter _).mono fun _ _ _ _ => trivial
    · exact (Comes.alter _).mono fun _ _ _ _ => trivial
  · exact .pure _ trivial

theorem keeps_memberDeparted (hk : ∀ e, e.isReaction = true → kind e) (m : Member) :
    Keeps (Orderly sur kind) (memberDeparted sur.toSite m) := by
  refine .bind Orderly.chained (fun s => (Ensures.note _).mono ?_) fun _ =>
    .bind Orderly.chained (fun s => (Ensures.alter _).mono ?_) fun _ => .get_bind fun s => ?_
  · rintro - _ _ ⟨rfl, rfl⟩
    exact .apart (by simpa using hk _ rfl) rfl fun _ _ _ hP => hP
  · rintro - _ _ ⟨rfl, rfl⟩
    exact .apart (by simp) rfl fun _ _ _ hP => hP
  · split
    · exact fun s => (ensures_releaseLocal hk).mono fun _ _ _ h => h.1
    · exact .pure Orderly.chained _

theorem comes_memberDeparted (site : Site σ β) (m : Member) (s : Scene σ) :
    Comes (memberDeparted site m) s fun _ _ _ => True := by
  refine .bind ((Comes.note _).mono fun _ _ s₁ _ => .bind ((Comes.alter _).mono fun _ _ s₂ _ => ?_))
  refine .get_bind ?_
  split
  · exact comes_releaseLocal site s₂
  · exact .pure _ trivial

theorem keeps_hearDepartures (hk : ∀ e, e.isReaction = true → kind e) :
    Keeps (Orderly sur kind) (hearDepartures sur.toSite) := fun s => by
  refine .get_bind (.bind ((Ensures.outside _).mono ?_))
  rintro - _ _ ⟨rfl, rfl⟩
  have hall : Keeps (Orderly sur kind)
      ((sur.departures s.outside).1.forM (memberDeparted sur.toSite)) :=
    .forM Orderly.chained _ fun m _ => keeps_memberDeparted hk m
  refine (hall _).mono fun _ _ _ h => ?_
  have hgone : Orderly sur kind s [] { s with outside := (sur.departures s.outside).2 } :=
    .apart (by simp) rfl fun b P hr hP => hr.departures _ hP
  exact hgone.trans h

theorem comes_hearDepartures (site : Site σ β) (s : Scene σ) :
    Comes (hearDepartures site) s fun _ _ _ => True :=
  .get_bind (.bind ⟨(), _, [], rfl, (List.append_nil _).symm,
    Comes.forM (comes_memberDeparted site) _ _⟩)

/-! ## Calls -/

/-- A call that leaves local buckets local, and the reactions to departures that follow it. -/
theorem ensures_consult {e : Effect} {f : σ → Option (α × σ)}
    (hf : ∀ b P, sur.Retains b P → ∀ o a o', P o → f o = some (a, o') → P o') :
    Ensures (consult sur.toSite e f) s fun a es s' => (∃ o, f s.outside = some (a, o)) ∧
      ∃ es', es = e :: es' ∧ Orderly sur (·.isReaction = true) s es' s' := by
  refine .bind ((Ensures.call e f).mono ?_)
  rintro a _ s₁ ⟨rfl, hans, hc⟩
  have hheard : Keeps (Orderly sur (·.isReaction = true)) (hearDepartures sur.toSite) :=
    keeps_hearDepartures fun _ h => h
  refine .bind ((hheard s₁).mono ?_)
  intro _ es s₂ h
  refine .pure a ⟨⟨_, hans⟩, es, by simp, ⟨h.only, fun b P hr hP => ?_, ?_⟩⟩
  · exact h.retained b P hr (hf b P hr _ _ _ hP hans)
  · rw [← hc]
    rcases h.lock with hkept | ⟨hlocked, hfree, hrel⟩
    · exact .inl hkept
    · exact .inr ⟨hlocked, hfree, fun b P hr hP => hrel b P hr (hf b P hr _ _ _ hP hans)⟩

theorem comes_consult {site : Site σ β} {e : Effect} {f : σ → Option (α × σ)} {a : α} {o : σ}
    (h : f s.outside = some (a, o)) : Comes (consult site e f) s fun a' _ _ => a' = a := by
  refine .bind ((Comes.call e h).mono ?_)
  rintro _ _ s₁ ⟨rfl, -, -⟩
  exact .bind ((comes_hearDepartures site s₁).mono fun _ _ _ _ => .pure _ rfl)

/-- Any kind of thing that goes with the reactions. -/
theorem keeps_consult {e : Effect} {f : σ → Option (α × σ)} (he : kind e)
    (hne : ∀ id, e ≠ .bucketReleased id) (hk : ∀ e, e.isReaction = true → kind e)
    (hf : ∀ b P, sur.Retains b P → ∀ o a o', P o → f o = some (a, o') → P o') :
    Keeps (Orderly sur kind) (consult sur.toSite e f) := fun s => by
  refine (ensures_consult hf).mono ?_
  rintro a _ s' ⟨-, es', rfl, h⟩
  exact (h.mono hk).cons he hne

/-- The scene once a clear has gone on to a phase. -/
def advanced (s : Scene σ) (next : ClearPhase) : Scene σ :=
  { s with
    coordinator := { s.coordinator with phase := next }
    effects := s.effects ++ [.advanced s.coordinator.phase next] }

theorem comes_advance (next : ClearPhase) :
    Comes (advance next) s fun _ es s' =>
      es = [.advanced s.coordinator.phase next] ∧ s' = advanced s next :=
  ⟨(), _, _, rfl, rfl, rfl, rfl⟩

theorem orderly_advanced (s : Scene σ) {next : ClearPhase}
    (hk : ∀ old, kind (.advanced old next)) :
    Orderly sur kind s [.advanced s.coordinator.phase next] (advanced s next) :=
  .apart (by simpa using hk _) rfl fun _ _ _ hP => hP

theorem keeps_advance {next : ClearPhase} (hk : ∀ old, kind (.advanced old next)) :
    Keeps (Orderly sur kind) (advance next) := fun s => by
  refine (comes_advance next).ensures.mono ?_
  rintro - _ _ ⟨rfl, rfl⟩
  exact orderly_advanced s hk

/-! ## The loops -/

theorem orderly_clearPrimaries (hk : ∀ e, e.isReaction = true → kind e)
    (hcleared : ∀ id, kind (.bucketCleared id)) :
    Keeps (Orderly sur kind) (clearPrimaries sur.toSite).run := by
  refine .get_attempt fun s => ?_
  split
  · exact .done Orderly.chained _
  · refine .mapM Orderly.chained _ fun b _ => .attempt Orderly.chained
      (.sure (keeps_consult (hcleared _) nofun hk fun b' P hr o _ o' hP hf => ?_)) fun _ =>
        .done Orderly.chained _
    cases hf
    exact hr.clearBucket b o hP

theorem allows_site (hk : ∀ e, e.isLocking = false → kind e) :
    sur.toSite.Allows (Orderly sur kind) := by
  have hreact : ∀ e : Effect, e.isReaction = true → kind e := fun e he => hk e (by
    cases e <;> first | rfl | cases he)
  refine ⟨⟨Orderly.chained, fun b => ?_, orderly_clearPrimaries hreact fun id => hk _ rfl, fun s => ?_⟩,
    fun e => ?_, fun e => ?_⟩
  · refine keeps_consult (hk _ rfl) nofun hreact fun b' P hr o _ o' hP hf => ?_
    have ho : (sur.hasPrimary b o).2 = o' := congrArg Prod.snd (Option.some.inj hf)
    exact ho ▸ hr.hasPrimary b o hP
  · refine (Ensures.alter _).mono ?_
    rintro - _ _ ⟨rfl, rfl⟩
    exact .apart (by simp) rfl fun _ _ _ hP => hP
  · refine keeps_consult (hk _ rfl) nofun hreact fun b' P hr o _ o' hP hf => ?_
    cases hf
    exact hr.tellClients e o hP
  · refine keeps_consult (hk _ rfl) nofun hreact fun b' P hr o _ o' hP hf => ?_
    cases hf
    exact hr.tellListeners e o hP

/-- A call that may fail, and the reactions to departures that follow it. -/
theorem keeps_tryTo {e : Effect} {f : σ → Except ClearError α × σ}
    (hk : ∀ e, e.isLocking = false → kind e) (he : kind e) (hne : ∀ id, e ≠ .bucketReleased id)
    (hf : ∀ b P, sur.Retains b P → ∀ o, P o → P (f o).2) :
    Keeps (Orderly sur kind) (tryTo sur.toSite e f).run := by
  refine keeps_consult he hne (fun e he => hk e (by cases e <;> first | rfl | cases he))
    fun b P hr o a o' hP hfo => ?_
  have ho : (f o).2 = o' := congrArg Prod.snd (Option.some.inj hfo)
  exact ho ▸ hf b P hr o hP

theorem allows_sur (hk : ∀ e, e.isLocking = false → kind e) (operation : ClearOperation) :
    sur.Allows operation (Orderly sur kind) where
  chained := Orderly.chained
  takesId s := .apart (by simp) rfl fun b P hr hP => hr.newId _ hP
  sends message members _ :=
    keeps_tryTo hk (hk _ rfl) nofun fun b P hr o hP => hr.send message members o hP

end DataGrid
