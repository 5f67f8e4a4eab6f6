import DataGrid.Proofs.Clear.Kinds
import DataGrid.Proofs.Clear.Primaries

/-
How a member clears its own buckets while others leave. It makes a mark when it
hears of a departure, looks for the mark at the end of each pass, and wipes it
out then. So the mark says whether anyone left since it was last looked for
(`Attends`), whatever was done in the meantime: during the wait for primaries,
while buckets are cleared, or before the first pass. A clear that succeeds has
made passes up to the first without a departure, and no departure before its
end is lost (`Coordinator.clearLocal_stable`).
-/

namespace DataGrid

open Coordinator

variable {σ β : Type}

namespace Effect

def isDeparture : Effect → Bool
  | .memberLeft _ => true
  | _ => false

def isBucketClear : Effect → Bool
  | .bucketCleared _ => true
  | _ => false

theorem isReaction_of_departure {e : Effect} (h : e.isDeparture = true) : e.isReaction = true := by
  cases e <;> first | rfl | cases h

theorem isBucketClear_of_reaction {e : Effect} (h : e.isReaction = true) :
    e.isBucketClear = false := by
  cases e <;> first | rfl | cases h

theorem isCreation_of_sweep {e : Effect} (h : e.isSweep = true) : e.isCreation = false := by
  cases e <;> first | rfl | cases h

theorem isCreation_of_telling {e : Effect} (h : e.isTelling = true) : e.isCreation = false := by
  cases e <;> first | rfl | cases h

theorem isTelling_of_sweep {e : Effect} (h : e.isSweep = true) : e.isTelling = false := by
  cases e <;> first | rfl | cases h

end Effect

/-- The scene once the coordinator has looked away from departures. -/
def Scene.unaware (s : Scene σ) : Scene σ :=
  { s with coordinator := { s.coordinator with membershipChanged := false } }

@[simp] theorem Scene.unaware_effects (s : Scene σ) : s.unaware.effects = s.effects := rfl

/-- Apart from what it does when members leave, the coordinator did what is given. It has a mark if
it had one before, or if a member left. -/
structure Attends (own : List Effect) (s : Scene σ) (es : List Effect) (s' : Scene σ) : Prop where
  own : es.filter (!·.isReaction) = own
  mark : s'.coordinator.membershipChanged =
    (s.coordinator.membershipChanged || es.any (·.isDeparture))

/-- The same, whatever the record says that was done. -/
def Attended (own : List Effect) (s s' : Scene σ) : Prop :=
  ∃ es, s'.effects = s.effects ++ es ∧ Attends own s es s'

namespace Attends

variable {own own' es es' : List Effect} {s s₁ s' : Scene σ}

theorem refl (s : Scene σ) : Attends [] s [] s := ⟨rfl, (Bool.or_false _).symm⟩

theorem trans (h : Attends own s es s₁) (h' : Attends own' s₁ es' s') :
    Attends (own ++ own') s (es ++ es') s' where
  own := by rw [List.filter_append, h.own, h'.own]
  mark := by rw [h'.mark, h.mark, List.any_append, Bool.or_assoc]

theorem chained : Chained (Attends (σ := σ) []) := ⟨refl, trans⟩

/-- What is not done because members leave is among what the coordinator did besides. -/
theorem filter_eq (h : Attends own s es s') {p : Effect → Bool}
    (hp : ∀ e, e.isReaction = true → p e = false) : es.filter p = own.filter p := by
  rw [← h.own, List.filter_filter]
  refine List.filter_congr fun e _ => ?_
  cases he : e.isReaction with
  | true => simp [hp e he]
  | false => simp

/-- Nothing is done that makes a difference to the mark. -/
theorem unmarked {e : Effect} (he : e.isDeparture = false) (hr : e.isReaction = true)
    (hc : s'.coordinator.membershipChanged = s.coordinator.membershipChanged) :
    Attends [] s [e] s' := ⟨by simp [hr], by simp [he, hc]⟩

/-! ## Departures -/

variable {site : Site σ β}

theorem releaseLocal : Keeps (Attends []) (releaseLocal site) := by
  refine .releaseLocal chained (fun s => (Ensures.alter _).mono ?_) fun b s =>
    (Ensures.call _ _).mono ?_
  · rintro - _ _ ⟨rfl, rfl⟩
    exact ⟨rfl, (Bool.or_false _).symm⟩
  · rintro - _ s' ⟨rfl, -, hc⟩
    exact unmarked rfl rfl (by rw [hc])

theorem memberDeparted (m : Member) : Keeps (Attends []) (memberDeparted site m) := fun s => by
  refine .bind ((Ensures.note _).mono ?_)
  rintro - _ _ ⟨rfl, rfl⟩
  refine .bind ((Ensures.alter _).mono ?_)
  rintro - _ _ ⟨rfl, rfl⟩
  have hreleases : Keeps (Attends []) (releaseFor site m) :=
    .get_bind fun _ => .ite (fun _ => releaseLocal) fun _ => .pure chained _
  -- the mark is made before anything is released, and stays
  refine (hreleases _).mono fun _ es s' h => ⟨?_, ?_⟩
  · simpa [Effect.isReaction] using h.own
  · rw [h.mark]
    simp [Effect.isDeparture]

theorem hearDepartures : Keeps (Attends []) (hearDepartures site) := fun s => by
  refine .get_bind (.bind ((Ensures.outside _).mono ?_))
  rintro - _ _ ⟨rfl, rfl⟩
  have hall : Keeps (Attends [])
      ((site.departures s.outside).1.forM (Coordinator.memberDeparted site)) :=
    .forM chained _ fun m _ => memberDeparted m
  exact (hall _).mono fun _ _ _ h => ⟨h.own, h.mark⟩

/-- During a call members may leave. Each is noted. -/
theorem consult {α : Type} {e : Effect} {f : σ → Option (α × σ)} (he : e.isReaction = false) :
    Keeps (Attends [e]) (consult site e f) := fun s => by
  refine .bind ((Ensures.call e f).mono ?_)
  rintro a _ s₁ ⟨rfl, -, hc⟩
  have hstays : e.isDeparture = false :=
    Bool.eq_false_iff.2 fun h => Bool.eq_false_iff.1 he (Effect.isReaction_of_departure h)
  have hcalled : Attends [e] s [e] s₁ := ⟨by simp [he], by simp [hc, hstays]⟩
  refine .bind ((hearDepartures s₁).mono fun _ es s' h => .pure a ?_)
  rw [List.append_nil]
  exact hcalled.trans h

end Attends

namespace Attended

variable {own own' : List Effect} {s s₁ s' : Scene σ} {site : Site σ β}

theorem refl (s : Scene σ) : Attended [] s s := ⟨[], (List.append_nil _).symm, .refl s⟩

theorem trans (h : Attended own s s₁) (h' : Attended own' s₁ s') :
    Attended (own ++ own') s s' := by
  obtain ⟨es, he, hes⟩ := h
  obtain ⟨es', he', hes'⟩ := h'
  exact ⟨es ++ es', by rw [he', he, List.append_assoc], hes.trans hes'⟩

theorem of_consult {α : Type} {e : Effect} {f : σ → Option (α × σ)} {a : α}
    (he : e.isReaction = false) (h : (consult site e f).run s = some (a, s')) :
    Attended [e] s s' := Attends.consult he s a s' h

end Attended

/-! ## Waiting for primaries -/

/-- What is done to look at something. -/
def Look.effect? (site : Site σ β) : Look β → Option Effect
  | .polled b _ => some (.bucketPolled (site.bucketId b))
  | .timed _ | .paused => none

section

variable {τ : Type} {site : Site σ β} {timer : RetryTimer τ} {s s' : Scene σ} {t t' : τ}

theorem Watch.attended {looks : List (Look β)} (h : Watch site timer s t looks s' t') :
    Attended (looks.filterMap (·.effect? site)) s s' := by
  induction h with
  | nil s t => exact .refl s
  | polled asks rest ih => exact (Attended.of_consult rfl asks).trans ih
  | timed rest ih => exact ih
  | paused rest ih => exact ih

theorem Rounds.attended {rounds : List (Round β)} (h : Rounds site timer s t rounds s' t') :
    Attended ((rounds.flatMap Round.looks).filterMap (·.effect? site)) s s' := by
  induction h with
  | nil s t => exact .refl s
  | cons round further ih =>
    rw [List.flatMap_cons, List.filterMap_append]
    exact round.attended.trans ih

end

/-- While a member waits for primaries, no bucket is cleared. -/
theorem attended_waitForPrimaries {site : Site σ β} {τ : Type} {timer : RetryTimer τ} {rounds : Nat}
    {s s' : Scene σ} {t t' : τ}
    (h : (waitForPrimaries site timer rounds t).run.run s = some (.ok t', s')) :
    ∃ polls, polls.filter (·.isBucketClear) = [] ∧ Attended polls s s' := by
  rw [run_waitForPrimaries] at h
  obtain ⟨⟨⟨found, t''⟩, s''⟩, hrun, heq⟩ := Option.map_eq_some_iff.1 h
  obtain rfl : s'' = s' := congrArg Prod.snd heq
  obtain ⟨waited, last, hrounds, -⟩ := rounds_awaitPrimaries hrun
  refine ⟨_, List.filter_eq_nil_iff.2 fun e he => ?_, hrounds.attended⟩
  obtain ⟨look, -, hlook⟩ := List.mem_filterMap.1 he
  cases look with
  | polled b found => cases hlook; simp [Effect.isBucketClear]
  | timed isOver => cases hlook
  | paused => cases hlook

/-! ## Clearing the buckets -/

/-- The buckets whose primary the member is; one that stores no data lists none. -/
def Site.listedPrimaries (site : Site σ β) (o : σ) : List β :=
  (site.buckets o).elim [] (·.primaries)

/-- Buckets cleared one after the other; members may leave during each. -/
inductive ClearedEach (site : Site σ β) : List β → Scene σ → Scene σ → Prop
  | nil (s : Scene σ) : ClearedEach site [] s s
  | cons {s s₁ s' : Scene σ} {b : β} {rest : List β}
      (clears : (consult site (.bucketCleared (site.bucketId b)) fun o =>
        some ((), site.clearBucket b o)).run s = some ((), s₁))
      (further : ClearedEach site rest s₁ s') : ClearedEach site (b :: rest) s s'

theorem ClearedEach.attended {site : Site σ β} {bs : List β} {s s' : Scene σ}
    (h : ClearedEach site bs s s') :
    Attended ((bs.map site.bucketId).map .bucketCleared) s s' := by
  induction h with
  | nil s => exact .refl s
  | cons clears further ih => exact (Attended.of_consult rfl clears).trans ih

/-- Clear one bucket: its id. -/
def clearOne (site : Site σ β) (b : β) : Attempt σ Nat := do
  sure (consult site (.bucketCleared (site.bucketId b)) fun o => some ((), site.clearBucket b o))
  return site.bucketId b

theorem run_clearPrimaries (site : Site σ β) (s : Scene σ) :
    (clearPrimaries site).run.run s =
      ((site.listedPrimaries s.outside).mapM (clearOne site)).run.run s := by
  rw [clearPrimaries, Attempt.run_get_bind, Site.listedPrimaries]
  cases site.buckets s.outside with
  | none => rfl
  | some buckets => rfl

/-- Buckets are cleared in the order in which they are listed, and that does not fail. -/
theorem clearedEach_of_run {site : Site σ β} {bs : List β} {s s' : Scene σ} {ids : List Nat}
    (h : (bs.mapM (clearOne site)).run.run s = some (.ok ids, s')) :
    ids = bs.map site.bucketId ∧ ClearedEach site bs s s' := by
  induction bs generalizing s ids with
  | nil =>
    cases h
    exact ⟨rfl, .nil _⟩
  | cons b bs ih =>
    rw [List.mapM_cons] at h
    obtain ⟨id, s₁, hone, h⟩ := Attempt.run_bind_ok h
    obtain ⟨⟨⟩, s₂, hclears, hid⟩ := Attempt.run_sure_bind hone
    cases hid
    obtain ⟨ids, s₃, hrest, hids⟩ := Attempt.run_bind_ok h
    cases hids
    obtain ⟨rfl, hcleared⟩ := ih hrest
    exact ⟨rfl, .cons hclears hcleared⟩

/-! ## One pass -/

/-- A pass over the local buckets. -/
structure Pass (σ : Type) where
  /-- what was done since the coordinator had last looked away from departures -/
  effects : List Effect
  /-- when all local buckets had a primary, and those of the member were listed -/
  listing : Scene σ
  /-- when these had been cleared -/
  stop : Scene σ

namespace Pass

variable (site : Site σ β) (rounds : Nat) (since start : Scene σ) (p : Pass σ)

def ids : List Nat := (site.listedPrimaries p.listing.outside).map site.bucketId

/-- The pass begins in the scene `start`. The coordinator looked away in the scene `since`. -/
structure Made : Prop where
  waits : ∃ t, (waitForPrimaries site TimeKeeper.timer rounds
    start.coordinator.config.keeper).run.run start = some (.ok t, p.listing)
  clears : ClearedEach site (site.listedPrimaries p.listing.outside) p.listing p.stop
  recorded : p.stop.effects = since.effects ++ p.effects

end Pass

/-- Passes made one after the other. -/
def MadeInTurn (site : Site σ β) (rounds : Nat) : Scene σ → Scene σ → List (Pass σ) → Prop
  | _, _, [] => True
  | since, start, p :: rest => p.Made site rounds since start ∧
      MadeInTurn site rounds p.stop.unaware p.stop.unaware rest

variable {site : Site σ β} {rounds : Nat} {since s s' : Scene σ} {own : List Effect}
  {ids : List Nat}

/-- A pass, with what was done before it since the mark was wiped out. Each of the listed buckets is
cleared once, and the mark says whether a member left. -/
theorem pass_of_run (hsince : since.coordinator.membershipChanged = false)
    (hown : own.filter (·.isBucketClear) = []) (hbefore : Attended own since s)
    (h : (clearPass site rounds).run.run s = some (.ok ids, s')) :
    ∃ p : Pass σ, p.Made site rounds since s ∧ p.stop = s' ∧ p.ids site = ids ∧
      p.effects.filter (·.isBucketClear) = ids.map .bucketCleared ∧
      s'.coordinator.membershipChanged = p.effects.any (·.isDeparture) := by
  rw [clearPass, Attempt.run_get_bind] at h
  obtain ⟨t, listing, hwaits, hclears⟩ := Attempt.run_bind_ok h
  rw [run_clearPrimaries] at hclears
  obtain ⟨rfl, hcleared⟩ := clearedEach_of_run hclears
  obtain ⟨polls, hpolls, hwaited⟩ := attended_waitForPrimaries hwaits
  obtain ⟨es, he, hes⟩ := (hbefore.trans hwaited).trans hcleared.attended
  let p : Pass σ := ⟨es, listing, s'⟩
  refine ⟨p, ⟨⟨t, hwaits⟩, hcleared, he⟩, rfl, rfl, ?_, ?_⟩
  · have hclear : ∀ e ∈ (p.ids site).map Effect.bucketCleared, e.isBucketClear = true := by
      simp [Effect.isBucketClear]
    rw [hes.filter_eq fun _ => Effect.isBucketClear_of_reaction, List.filter_append,
      List.filter_append, hown, hpolls]
    exact List.filter_eq_self.2 hclear
  · rw [hes.mark, hsince, Bool.false_or]

/-! ## Passes until nobody leaves -/

theorem clearUntilStable_cases {passes : Nat}
    (h : (clearUntilStable site rounds (passes + 1)).run.run s = some (.ok ids, s')) :
    ∃ first stop, (clearPass site rounds).run.run s = some (.ok first, stop) ∧
      (stop.coordinator.membershipChanged = false ∧ ids = first ∧ s' = stop.unaware ∨
        stop.coordinator.membershipChanged = true ∧ ∃ further, ids = first ++ further ∧
          (clearUntilStable site rounds passes).run.run stop.unaware = some (.ok further, s')) := by
  obtain ⟨first, stop, hfirst, h⟩ := Attempt.run_bind_ok h
  obtain ⟨changed, stop', htaken, h⟩ := Attempt.run_sure_bind h
  cases htaken
  refine ⟨first, stop, hfirst, ?_⟩
  cases hmark : stop.coordinator.membershipChanged with
  | false =>
    rw [hmark] at h
    cases h
    exact .inl ⟨rfl, rfl, rfl⟩
  | true =>
    rw [hmark] at h
    obtain ⟨further, s'', hfurther, h⟩ := Attempt.run_bind_ok h
    cases h
    exact .inr ⟨rfl, further, rfl, hfurther⟩

/-- Passes are made up to the first in which nobody leaves. -/
theorem passes_of_run {passes : Nat} (hsince : since.coordinator.membershipChanged = false)
    (hown : own.filter (·.isBucketClear) = []) (hbefore : Attended own since s)
    (h : (clearUntilStable site rounds passes).run.run s = some (.ok ids, s')) :
    ∃ earlier last, MadeInTurn site rounds since s (earlier ++ [last]) ∧ s' = last.stop.unaware ∧
      ids = (earlier ++ [last]).flatMap (·.ids site) ∧
      (∀ p ∈ earlier ++ [last],
        p.effects.filter (·.isBucketClear) = (p.ids site).map .bucketCleared) ∧
      (∀ p ∈ earlier, p.effects.any (·.isDeparture) = true) ∧
      last.effects.any (·.isDeparture) = false := by
  induction passes generalizing since s ids own with
  | zero => cases h
  | succ passes ih =>
    obtain ⟨first, stop, hfirst, hnext⟩ := clearUntilStable_cases h
    obtain ⟨p, hmade, rfl, rfl, hclears, hmark⟩ := pass_of_run hsince hown hbefore hfirst
    rcases hnext with ⟨hstable, rfl, rfl⟩ | ⟨hchanged, further, rfl, hfurther⟩
    · exact ⟨[], p, ⟨hmade, trivial⟩, rfl, by simp, by simpa using hclears,
        List.forall_mem_nil _, hmark ▸ hstable⟩
    · -- the mark is wiped out, and the next pass is made from there
      obtain ⟨earlier, last, hturn, rfl, rfl, hall, hearlier, hlast⟩ :=
        ih rfl rfl (.refl _) hfurther
      exact ⟨p :: earlier, last, ⟨hmade, hturn⟩, rfl, rfl, List.forall_mem_cons.2 ⟨hclears, hall⟩,
        List.forall_mem_cons.2 ⟨hmark ▸ hchanged, hearlier⟩, hlast⟩

/-! ## Telling -/

namespace Coordinator

/-- The first half of what is told of a clear. -/
def informClients (site : Site σ β) (event : RegionEvent) : Act σ Unit := do
  let clients := site.clients (← get).outside
  if !clients.isEmpty then
    let routed := { event with clients := some clients }
    consult site (.clientsTold routed) fun s => some ((), site.tellClients routed s)

/-- The second half. -/
def informListeners (site : Site σ β) (event : RegionEvent) : Act σ Unit := do
  if site.hasListener (← get).outside then
    consult site (.listenersTold event) fun s => some ((), site.tellListeners event s)

theorem tellAfterClear_eq (site : Site σ β) (event : RegionEvent) :
    tellAfterClear site event = (do informClients site event; informListeners site event) := by
  simp only [tellAfterClear, informClients, informListeners, bind_assoc]
  congr
  funext s
  split <;> simp

end Coordinator

section

variable (site : Site σ β) (event : RegionEvent) (o : σ)

/-- What is told to clients of a clear. -/
def Site.clientNotices : List Effect :=
  if (site.clients o).isEmpty then []
  else [.clientsTold { event with clients := some (site.clients o) }]

/-- What is told to listeners of a clear. -/
def Site.listenerNotices : List Effect :=
  if site.hasListener o then [.listenersTold event] else []

end

section

variable {site : Site σ β} {event : RegionEvent} {s s' : Scene σ}

theorem attended_informClients (h : (informClients site event).run s = some ((), s')) :
    Attended (site.clientNotices event s.outside) s s' := by
  have hnotices : Ensures (informClients site event) s fun _ es s' =>
      Attends (site.clientNotices event s.outside) s es s' := by
    refine .get_bind ?_
    cases hnone : (site.clients s.outside).isEmpty with
    | true =>
      simp only [Site.clientNotices, hnone, Bool.not_true, Bool.false_eq_true, if_true, if_false]
      exact .pure () (.refl s)
    | false =>
      simp only [Site.clientNotices, hnone, Bool.not_false, Bool.false_eq_true, if_true, if_false]
      exact Attends.consult rfl s
  exact hnotices () s' h

theorem attended_informListeners (h : (informListeners site event).run s = some ((), s')) :
    Attended (site.listenerNotices event s.outside) s s' := by
  have hnotices : Ensures (informListeners site event) s fun _ es s' =>
      Attends (site.listenerNotices event s.outside) s es s' := by
    refine .get_bind ?_
    cases hlistens : site.hasListener s.outside with
    | true =>
      simp only [Site.listenerNotices, hlistens, if_true]
      exact Attends.consult rfl s
    | false =>
      simp only [Site.listenerNotices, hlistens, Bool.false_eq_true, if_false]
      exact .pure () (.refl s)
  exact hnotices () s' h

theorem attended_tellAfterClear (h : (tellAfterClear site event).run s = some ((), s')) :
    ∃ told, (informClients site event).run s = some ((), told) ∧
      Attended (site.clientNotices event s.outside ++ site.listenerNotices event told.outside)
        s s' := by
  rw [tellAfterClear_eq] at h
  obtain ⟨⟨⟩, told, hclients, hlisteners⟩ := Act.run_bind_eq h
  exact ⟨told, hclients,
    (attended_informClients hclients).trans (attended_informListeners hlisteners)⟩

theorem isTelling_of_notice {o o' : σ} :
    ∀ e ∈ site.clientNotices event o ++ site.listenerNotices event o', e.isTelling = true := by
  simp only [Site.clientNotices, Site.listenerNotices, List.forall_mem_append]
  constructor <;> split <;> simp [Effect.isTelling]

/-- Nothing but the notices is told, and the creation of buckets is left alone. -/
theorem Attends.filter_notices {o o' : σ} {es : List Effect}
    (h : Attends (site.clientNotices event o ++ site.listenerNotices event o') s es s') :
    es.filter (·.isTelling) = site.clientNotices event o ++ site.listenerNotices event o' ∧
      es.filter (·.isCreation) = [] := by
  have hsweep : ∀ e : Effect, e.isReaction = true → e.isSweep = true :=
    fun _ => Effect.isSweep_of_reaction
  rw [h.filter_eq fun e he => Effect.isTelling_of_sweep (hsweep e he),
    h.filter_eq fun e he => Effect.isCreation_of_sweep (hsweep e he)]
  refine ⟨List.filter_eq_self.2 isTelling_of_notice, List.filter_eq_nil_iff.2 fun e he => ?_⟩
  simp [Effect.isCreation_of_telling (isTelling_of_notice e he)]

end

/-! ## The whole local clear -/

/-- A local clear that succeeds: the scenes it goes through. -/
structure LocalClear (σ : Type) where
  /-- when no new buckets could be made any more -/
  locked : Scene σ
  earlier : List (Pass σ)
  last : Pass σ
  /-- when new buckets could be made again -/
  unlocked : Scene σ
  /-- when the clients had been told -/
  told : Scene σ

namespace LocalClear

def passes (c : LocalClear σ) : List (Pass σ) := c.earlier ++ [c.last]

/-- The clear leads from the scene `s` to the scene `s'`, and `ids` is its answer. -/
structure Leads (site : Site σ β) (rounds : Nat) (event : RegionEvent) (s : Scene σ)
    (ids : List Nat) (s' : Scene σ) (c : LocalClear σ) : Prop where
  locks : (consult site .creationLocked fun o => (site.lockCreation o).map ((), ·)).run s.unaware =
    some ((), c.locked)
  made : MadeInTurn site rounds s.unaware c.locked c.passes
  answers : ids = c.passes.flatMap (·.ids site)
  /-- each bucket is cleared as often as it was listed -/
  clears : ∀ p ∈ c.passes, p.effects.filter (·.isBucketClear) = (p.ids site).map .bucketCleared
  /-- somebody left in each pass but the last -/
  restless : ∀ p ∈ c.earlier, p.effects.any (·.isDeparture) = true
  stable : c.last.effects.any (·.isDeparture) = false
  unlocks : (consult site .creationUnlocked fun o => some ((), site.unlockCreation o)).run
    c.last.stop.unaware = some ((), c.unlocked)
  tells : (tellAfterClear site event).run c.unlocked = some ((), s')
  tellsClients : (informClients site event).run c.unlocked = some ((), c.told)
  /-- nobody is told of the clear before its end, and everybody once then -/
  once : ∃ before after, c.unlocked.effects = s.effects ++ before ∧
    s'.effects = c.unlocked.effects ++ after ∧ before.filter (·.isTelling) = [] ∧
    after.filter (·.isTelling) =
      site.clientNotices event c.unlocked.outside ++ site.listenerNotices event c.told.outside
  /-- the mark stays wiped out unless somebody leaves after the last pass -/
  mark : ∃ after, s'.effects = c.last.stop.effects ++ after ∧
    s'.coordinator.membershipChanged = after.any (·.isDeparture)

end LocalClear

namespace Coordinator

variable {site : Site σ β} {rounds : Nat} {event : RegionEvent} {s s' : Scene σ}

/-- The creation of buckets is locked, passes are made with whatever success, and the creation is
unlocked. Nobody is told of it. -/
theorem effects_while_locked {passes : Nat} {locked stable unlocked : Scene σ}
    {cleared : Except ClearError (List Nat)}
    (hlocks : (consult site .creationLocked fun o => (site.lockCreation o).map ((), ·)).run s =
      some ((), locked))
    (hclears : (clearUntilStable site rounds passes).run.run locked = some (cleared, stable))
    (hunlocks : (consult site .creationUnlocked fun o => some ((), site.unlockCreation o)).run
      stable = some ((), unlocked)) :
    ∃ es, unlocked.effects = s.effects ++ es ∧ ∀ p : Effect → Bool,
      (∀ e, e.isSweep = true → p e = false) →
        es.filter p = [.creationLocked, .creationUnlocked].filter p := by
  have hsweeps : site.Sweeps (Within fun e => e.isSweep = true) := Within.sweeps fun _ h => h
  obtain ⟨es₁, he₁, hlock⟩ := Attended.of_consult rfl hlocks
  obtain ⟨es₂, he₂, hswept⟩ := hsweeps.clearUntilStable rounds passes locked cleared stable hclears
  obtain ⟨es₃, he₃, hunlock⟩ := Attended.of_consult rfl hunlocks
  refine ⟨es₁ ++ es₂ ++ es₃, by rw [he₃, he₂, he₁]; simp, fun p hp => ?_⟩
  have hreact : ∀ e : Effect, e.isReaction = true → p e = false := fun e he =>
    hp e (Effect.isSweep_of_reaction he)
  have hnone : es₂.filter p = [] := List.filter_eq_nil_iff.2 fun e he => by
    simp [hp e (hswept.only e he)]
  rw [List.filter_append, List.filter_append, hlock.filter_eq hreact, hunlock.filter_eq hreact,
    hnone, List.append_nil, ← List.filter_append]
  rfl

/-- The creation of buckets is locked while passes are made. What follows depends on whether these
succeed. -/
theorem clearLocal_cases {r : Except ClearError (List Nat)}
    (h : (clearLocal site rounds event).run.run s = some (r, s')) :
    (site.buckets s.outside = none ∧ r = .ok [] ∧
      (tellAfterClear site event).run s.unaware = some ((), s')) ∨
    (site.buckets s.outside).isSome = true ∧ ∃ locked stable unlocked,
      (consult site .creationLocked fun o => (site.lockCreation o).map ((), ·)).run s.unaware =
        some ((), locked) ∧
      (clearUntilStable site rounds rounds).run.run locked = some (r, stable) ∧
      (consult site .creationUnlocked fun o => some ((), site.unlockCreation o)).run stable =
        some ((), unlocked) ∧
      ((∃ ids, r = .ok ids ∧ (tellAfterClear site event).run unlocked = some ((), s')) ∨
        ∃ e, r = .error e ∧ s' = unlocked) := by
  rw [clearLocal] at h
  obtain ⟨⟨⟩, s₀, haway, h⟩ := Attempt.run_sure_bind h
  cases haway
  rw [Attempt.run_get_bind] at h
  cases hbuckets : site.buckets s.outside with
  | none =>
    rw [hbuckets] at h
    obtain ⟨⟨⟩, s₁, htells, h⟩ := Attempt.run_sure_bind h
    cases h
    exact .inl ⟨rfl, rfl, htells⟩
  | some buckets =>
    rw [hbuckets] at h
    obtain ⟨⟨⟩, locked, hlocks, h⟩ := Attempt.run_sure_bind h
    obtain ⟨cleared, stable, hclears, h⟩ := Attempt.run_sure_bind h
    obtain ⟨⟨⟩, unlocked, hunlocks, h⟩ := Attempt.run_sure_bind h
    refine .inr ⟨rfl, locked, stable, unlocked, hlocks, ?_⟩
    cases cleared with
    | error e =>
      cases h
      exact ⟨hclears, hunlocks, .inr ⟨e, rfl, rfl⟩⟩
    | ok ids =>
      obtain ⟨⟨⟩, s₁, htells, h⟩ := Attempt.run_sure_bind h
      cases h
      exact ⟨hclears, hunlocks, .inl ⟨ids, rfl, htells⟩⟩

/--
However members leave and primaries change while a member clears its buckets, a clear that succeeds
has made passes up to the first in which nobody left. Somebody left in each of the others, counted
from the end of the pass before, or from the beginning. The answer is the ids of the buckets that
were listed in the passes, in this order, and each was cleared as often as it was listed. Clients
and listeners are told once, after the last pass, and not at all if the clear fails. New buckets
can be made again in either case. The mark of a departure is wiped out in the end, unless somebody
leaves after the last pass. A member without data has nothing to do but to tell.
-/
theorem clearLocal_stable (site : Site σ β) (rounds : Nat) (event : RegionEvent) {s s' : Scene σ}
    {r : Except ClearError (List Nat)}
    (h : (clearLocal site rounds event).run.run s = some (r, s')) :
    (site.buckets s.outside = none →
      r = .ok [] ∧ (tellAfterClear site event).run s.unaware = some ((), s')) ∧
    ((site.buckets s.outside).isSome = true →
      (∃ es, s'.effects = s.effects ++ es ∧
        es.filter (·.isCreation) = [.creationLocked, .creationUnlocked] ∧
        (r.toBool = false → es.filter (·.isTelling) = [])) ∧
      ∀ ids, r = .ok ids → ∃ c : LocalClear σ, c.Leads site rounds event s ids s') := by
  rcases clearLocal_cases h with ⟨hnone, hr, htells⟩ | ⟨hsome, locked, stable, unlocked, hlocks,
    hclears, hunlocks, hrest⟩
  · exact ⟨fun _ => ⟨hr, htells⟩, fun hsome => by simp [hnone] at hsome⟩
  · refine ⟨fun hnone => by simp [hnone] at hsome, fun _ => ?_⟩
    obtain ⟨before, hbefore, hkinds⟩ := effects_while_locked hlocks hclears hunlocks
    have hlocked := hkinds (·.isCreation) fun _ => Effect.isCreation_of_sweep
    have huntold := hkinds (·.isTelling) fun _ => Effect.isTelling_of_sweep
    rcases hrest with ⟨ids, rfl, htells⟩ | ⟨e, rfl, rfl⟩
    · obtain ⟨told, hclients, after, hafter, hnotices⟩ := attended_tellAfterClear htells
      obtain ⟨htold, hnone⟩ := hnotices.filter_notices
      refine ⟨⟨before ++ after, ?_, ?_, nofun⟩, ?_⟩
      · rw [hafter, hbefore, List.append_assoc, Scene.unaware_effects]
      · rw [List.filter_append, hnone, List.append_nil]
        exact hlocked
      · rintro _ ⟨⟩
        -- departures count from the beginning, and creation is locked before the first pass
        obtain ⟨earlier, last, hmade, rfl, hids, hcleared, hrestless, hstable⟩ :=
          passes_of_run rfl rfl (Attended.of_consult rfl hlocks) hclears
        obtain ⟨es, he, hes⟩ := (Attended.of_consult rfl hunlocks).trans ⟨after, hafter, hnotices⟩
        exact ⟨⟨locked, earlier, last, unlocked, told⟩, hlocks, hmade, hids, hcleared, hrestless,
          hstable, hunlocks, htells, hclients, ⟨before, after, hbefore, hafter, huntold, htold⟩,
          es, he, hes.mark⟩
    · exact ⟨⟨before, hbefore, hlocked, fun _ => huntold⟩, nofun⟩

/-- A member with two buckets, who hears that another leaves while it clears the first. -/
def departing : Scene Rehearsal where
  coordinator := { member := { address := .localhost, port := 1 }, config := {} }
  outside :=
    { region := "pr"
      totalBuckets := 2
      current := .empty
      buckets := some
        [{ id := 0, leavers := [some { address := .localhost, port := 2 }] }, { id := 1 }]
      hasListener := true }

def departingSite : Site Rehearsal Nat := departing.outside.surroundings.toSite

def departingEvent : RegionEvent := .clear ⟨0⟩ "pr" departing.coordinator.member none

/-- It makes a second pass. -/
theorem clearLocal_stable_departing :
    (departingSite.buckets departing.outside).isSome = true ∧
    ∃ s' c, (clearLocal departingSite 2 departingEvent).run.run departing =
        some (.ok [0, 1, 0, 1], s') ∧
      s'.coordinator.membershipChanged = false ∧
      LocalClear.Leads departingSite 2 departingEvent departing [0, 1, 0, 1] s' c := by
  have hanswer : ((clearLocal departingSite 2 departingEvent).run.run departing).map
      (fun p => (p.1.toOption, p.2.coordinator.membershipChanged)) =
        some (some [0, 1, 0, 1], false) := by decide +kernel
  obtain ⟨⟨r, s'⟩, hrun, hr⟩ := Option.map_eq_some_iff.1 hanswer
  obtain ⟨hids, hmark⟩ := Prod.mk.inj hr
  obtain rfl : r = .ok [0, 1, 0, 1] := eq_ok_of_toOption hids
  obtain ⟨-, hcleared⟩ := clearLocal_stable departingSite 2 departingEvent hrun
  obtain ⟨c, hleads⟩ := (hcleared rfl).2 _ rfl
  exact ⟨rfl, s', c, hrun, hmark, hleads⟩

/-- A member leaves when listeners are told of the clear. -/
def leavingWhenTold : Site Rehearsal Nat :=
  { departingSite with tellListeners := fun _ r => r.depart { address := .localhost, port := 2 } }

/-- Nobody wants to be told of a clear. -/
def untold : Scene Rehearsal :=
  { departing with outside := { departing.outside with hasListener := false } }

/-- A member that leaves after the last pass makes no further one necessary, but the mark of its
departure stays. And a clear that succeeds tells nobody if nobody wants to be told. -/
theorem departure_after_last_pass :
    ((clearLocal leavingWhenTold 2 departingEvent).run.run departing).map
        (fun p => (p.1.toOption, p.2.coordinator.membershipChanged)) =
          some (some [0, 1, 0, 1], true) ∧
      ((clearLocal departingSite 2 departingEvent).run.run untold).map
        (fun p => (p.1.toOption, p.2.effects.countP (·.isTelling))) =
          some (some [0, 1, 0, 1], 0) := by
  decide +kernel

end Coordinator
end DataGrid
