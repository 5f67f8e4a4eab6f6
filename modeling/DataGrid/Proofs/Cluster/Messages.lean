import Mathlib.Data.List.Basic
import DataGrid.Proofs.Cluster.Local

/-
Messages of a clear in a cluster where every recipient is there and handles its
messages: each recipient's share changes as the message asks (`process_lock`,
`process_clear`, `process_unlock`), every reply is counted, and nobody is waited
for (`send_eq`).
-/

namespace DataGrid

namespace Share

/-- The share while a clear holds it for a member. -/
def lockedFor (m : Member) (s : Share) : Share :=
  { s with
    store := s.store.mapAll (Cluster.lockedFor m)
    coordinator := { s.coordinator with lock := ⟨some m⟩ } }

/-- The share once its coordinator has done its part in a clear. -/
def clearedFor (event : RegionEvent) (s : Share) : Share :=
  { s.cleared.told event with coordinator := { s.coordinator with membershipChanged := false } }

/-- The share once a clear has let go of it. -/
def released (s : Share) : Share :=
  { s with
    store := s.store.mapAll Bucket.releaseForClear
    coordinator := { s.coordinator with lock := {} } }

end Share

namespace Cluster

variable {c o : Cluster} {l : String} {s : Share} {message : ClearMessage} {config : BucketConfig}

/-! ## Processing -/

theorem process_lock (hs : c.share? l = some s) (h : s.Calm config)
    (hm : c.isCurrent message.sender = true) (hregion : message.region = c.name)
    (hop : message.operation = .lock) :
    c.process l message =
      some (.ok message s.coordinator.member [], c.modifyShare l (·.lockedFor message.sender)) := by
  have hwork : Yields (Coordinator.process (c.site l) rounds message) s.coordinator c
      (.ok message s.coordinator.member []) { s.coordinator with lock := ⟨some message.sender⟩ }
      (c.modifyStore l (.mapAll (lockedFor message.sender))) := by
    refine .get_bind fun effects => .ite (fun hne => absurd hregion hne) fun _ => ?_
    rw [hop]
    exact .bind (yields_obtainLocal hs h.store hm) (.pure _)
  rw [process, coordinate_eq hs hwork]
  simp only [modifyStore, modifyShare_modifyShare]
  exact congrArg (fun c' => some (_, c')) (modifyShare_congr hs rfl)

theorem process_clear (hs : c.share? l = some s) (h : s.store.Led)
    (hcreate : s.store.creationGate = {}) (hregion : message.region = c.name)
    (hop : message.operation = .clear) :
    c.process l message = some (.ok message s.coordinator.member s.store.ids,
      c.modifyShare l (·.clearedFor message.event)) := by
  have hwork : Yields (Coordinator.process (c.site l) rounds message) s.coordinator c
      (.ok message s.coordinator.member s.store.ids)
      { s.coordinator with membershipChanged := false }
      (c.modifyShare l (·.cleared.told message.event)) := by
    refine .get_bind fun effects => .ite (fun hne => absurd hregion hne) fun _ => ?_
    rw [hop]
    exact .bind (yields_clearLocal 999999 hs h hcreate message.event) (.pure _)
  rw [process, coordinate_eq hs hwork, modifyShare_modifyShare]
  exact congrArg (fun c' => some (_, c')) (modifyShare_congr hs rfl)

theorem process_unlock (hs : c.share? l = some s) (hlock : s.coordinator.lock.isLocked = true)
    (hregion : message.region = c.name) (hop : message.operation = .unlock) :
    c.process l message =
      some (.ok message s.coordinator.member [], c.modifyShare l (·.released)) := by
  have hwork : Yields (Coordinator.process (c.site l) rounds message) s.coordinator c
      (.ok message s.coordinator.member []) { s.coordinator with lock := {} }
      (c.modifyStore l (.mapAll Bucket.releaseForClear)) := by
    refine .get_bind fun effects => .ite (fun hne => absurd hregion hne) fun _ => ?_
    rw [hop]
    exact .bind (yields_releaseLocal hs hlock) (.pure _)
  rw [process, coordinate_eq hs hwork]
  simp only [modifyStore, modifyShare_modifyShare]
  exact congrArg (fun c' => some (_, c')) (modifyShare_congr hs rfl)

/-! ## Sending -/

/-- Change the shares with some labels. -/
def mapShares (c : Cluster) (labels : List String) (f : Share → Share) : Cluster :=
  { c with shares := c.shares.mapValues fun l s => if l ∈ labels then f s else s }

theorem mapShares_nil (c : Cluster) (f : Share → Share) : c.mapShares [] f = c := by
  simp only [mapShares, List.not_mem_nil, if_false]
  rw [OrdMap.mapValues_self fun _ _ _ => rfl]

theorem mapShares_modifyShare {labels : List String} (hl : l ∉ labels) (f : Share → Share) :
    (c.modifyShare l f).mapShares labels f = c.mapShares (l :: labels) f := by
  simp only [mapShares, modifyShare, OrdMap.modify, OrdMap.mapValues_mapValues]
  congr 1
  refine OrdMap.mapValues_congr fun l' s _ => ?_
  by_cases he : l = l'
  · subst he
    simp [hl]
  · have hne : ¬ l' = l := fun h => he h.symm
    simp [he, hne]

/-- The member is there, and the share of a label handles its messages. -/
structure Handles (c : Cluster) (m : Member) (l : String) (s : Share) : Prop where
  current : c.isCurrent m = true
  handler : c.handlers.find? m = some l
  share : c.share? l = some s
  member : s.coordinator.member.same m = true

/-- The labels of the shares that handle the messages for members. -/
def labelsOf (c : Cluster) (members : List Member) : List String :=
  members.filterMap c.handlers.find?

/-- The shares that handle the messages for members. -/
def sharesOf (c : Cluster) (members : List Member) : List Share :=
  (c.labelsOf members).filterMap c.share?

theorem labelsOf_cons {m : Member} {members : List Member} (h : c.Handles m l s) :
    c.labelsOf (m :: members) = l :: c.labelsOf members := by
  simp only [labelsOf, List.filterMap_cons, h.handler]

theorem sharesOf_cons {m : Member} {members : List Member} (h : c.Handles m l s) :
    c.sharesOf (m :: members) = s :: c.sharesOf members := by
  simp only [sharesOf, labelsOf_cons h, List.filterMap_cons, h.share]

/-- No two members have their messages handled by one share. -/
theorem not_mem_labelsOf {m : Member} {members : List Member} (h : c.Handles m l s)
    (hall : ∀ m' ∈ members, ∃ l s, c.Handles m' l s)
    (hne : ∀ m' ∈ members, compare m m' ≠ .eq) : l ∉ c.labelsOf members := by
  intro hl
  obtain ⟨m', hm', hl'⟩ := List.mem_filterMap.1 hl
  obtain ⟨l', s', h'⟩ := hall m' hm'
  rw [h'.handler] at hl'
  cases hl'
  have hs := h'.share
  rw [h.share] at hs
  cases hs
  exact hne m' hm' (Member.same_iff.1
    (Member.same_trans (Member.same_symm h.member) h'.member))

theorem Handles.modifyShare {m : Member} {l' : String} {f : Share → Share} (h : c.Handles m l s)
    (hne : l ≠ l') : (c.modifyShare l' f).Handles m l s where
  current := h.current
  handler := h.handler
  share := by rw [share?_modifyShare, if_neg hne, h.share]
  member := h.member

theorem labelsOf_modifyShare (c : Cluster) (l : String) (f : Share → Share) (members : List Member) :
    (c.modifyShare l f).labelsOf members = c.labelsOf members := rfl

theorem sharesOf_modifyShare {f : Share → Share} {members : List Member}
    (hl : l ∉ c.labelsOf members) : (c.modifyShare l f).sharesOf members = c.sharesOf members := by
  simp only [sharesOf, labelsOf_modifyShare]
  refine List.filterMap_congr fun l' hl' => ?_
  rw [share?_modifyShare, if_neg fun he => hl (by rw [← he]; exact hl')]

/-- The collector waits for some members, and for nobody else. -/
def Awaits (collector : Collector) (members : List Member) : Prop :=
  ∀ x, collector.pending.contains x = true ↔ ∃ m ∈ members, compare x m = .eq

theorem awaits_new (members : List Member) : Awaits (.new members) members :=
  fun x => OrdSet.contains_ofList members x

theorem Awaits.isEmpty {collector : Collector} (h : Awaits collector []) :
    collector.pending.isEmpty = true := by
  refine OrdSet.isEmpty_of_contains fun x => Bool.eq_false_iff.2 fun hx => ?_
  obtain ⟨m, hm, -⟩ := (h x).1 hx
  cases hm

/-- Once a member has replied, only the others are waited for. -/
theorem Awaits.reply {collector : Collector} {r : ClearReply} {m : Member} {members : List Member}
    (h : Awaits collector (m :: members)) (hm : compare r.sender m = .eq)
    (hne : ∀ m' ∈ members, compare m m' ≠ .eq) :
    Awaits (collector.reply r) members ∧ (collector.reply r).outcome =
      { collector.outcome with replies := collector.outcome.replies ++ [r] } := by
  have hwaited : collector.pending.contains r.sender = true :=
    (h _).2 ⟨m, List.mem_cons_self, hm⟩
  simp only [Collector.reply, hwaited, if_true, and_true]
  intro x
  by_cases hx : compare x r.sender = .eq
  · have hxm : compare x m = .eq := Std.TransCmp.eq_trans hx hm
    rw [OrdSet.contains_congr _ hx, OrdSet.contains_erase_self]
    refine ⟨(nomatch ·), fun ⟨m', hm', he⟩ => absurd ?_ (hne m' hm')⟩
    exact Std.TransCmp.eq_trans (Std.OrientedCmp.eq_symm hxm) he
  · rw [OrdSet.contains_erase_other _ hx, h x]
    refine ⟨fun ⟨m', hm', he⟩ => ?_, fun ⟨m', hm', he⟩ => ⟨m', List.mem_cons_of_mem _ hm', he⟩⟩
    rcases List.mem_cons.1 hm' with rfl | hm'
    · exact absurd (Std.TransCmp.eq_trans he (Std.OrientedCmp.eq_symm hm)) hx
    · exact ⟨m', hm', he⟩

section

variable {serves : Share → Prop} {f : Share → Share} {cleared : Share → List Nat}

/-- A message asks shares for a change, and they all do it. -/
def Served (c : Cluster) (message : ClearMessage) (serves : Share → Prop) (f : Share → Share)
    (cleared : Share → List Nat) : Prop :=
  ∀ (c' : Cluster) (l : String) (s : Share), c'.name = c.name → c'.region = c.region →
    c'.share? l = some s → serves s →
    c'.process l message =
      some (.ok message s.coordinator.member (cleared s), c'.modifyShare l f)

/-- A message reaches a member that is there, whose share replies. -/
theorem deliver_eq (hserved : c.Served message serves f cleared) {m : Member} (hname : o.name = c.name)
    (hregion : o.region = c.region) (h : o.Handles m l s) (hserves : serves s)
    (collector : Collector) :
    deliver message (collector, o) m =
      (collector.reply (.ok message s.coordinator.member (cleared s)), o.modifyShare l f) := by
  have hprocess := hserved o l s hname hregion h.share hserves
  simp only [deliver, h.handler, h.current, hprocess]
  rfl

/-- A message does what it asks for on the shares of all its recipients, and all replies are kept. -/
theorem deliver_all (hserved : c.Served message serves f cleared) : ∀ (members : List Member)
    (o : Cluster) (collector : Collector), o.name = c.name → o.region = c.region →
    members.Pairwise (fun a b => compare a b ≠ .eq) →
    (∀ m ∈ members, ∃ l s, o.Handles m l s ∧ serves s) → Awaits collector members →
    ∃ collector', members.foldl (deliver message) (collector, o) =
        (collector', o.mapShares (o.labelsOf members) f) ∧ Awaits collector' [] ∧
      collector'.outcome = { collector.outcome with
        replies := collector.outcome.replies ++
          (o.sharesOf members).map (fun s => .ok message s.coordinator.member (cleared s)) }
  | [], o, collector, _, _, _, _, hawaits => by
    refine ⟨collector, ?_, hawaits, ?_⟩
    · simp only [labelsOf, List.filterMap_nil, mapShares_nil, List.foldl_nil]
    · simp only [sharesOf, labelsOf, List.filterMap_nil, List.map_nil, List.append_nil]
  | m :: members, o, collector, hname, hregion, hdistinct, hall, hawaits => by
    obtain ⟨hne, hdistinct⟩ := List.pairwise_cons.1 hdistinct
    obtain ⟨l, s, h, hserves⟩ := hall m List.mem_cons_self
    have hrest : ∀ m' ∈ members, ∃ l s, o.Handles m' l s := fun m' hm' => by
      obtain ⟨l, s, h, -⟩ := hall m' (List.mem_cons_of_mem _ hm')
      exact ⟨l, s, h⟩
    have hl := not_mem_labelsOf h hrest hne
    have hother : ∀ l' ∈ o.labelsOf members, l' ≠ l := fun l' hl' he => hl (he ▸ hl')
    have hhandled : ∀ m' ∈ members, ∃ l' s', (o.modifyShare l f).Handles m' l' s' ∧ serves s' := by
      intro m' hm'
      obtain ⟨l', s', h', hserves'⟩ := hall m' (List.mem_cons_of_mem _ hm')
      exact ⟨l', s', h'.modifyShare (hother l' (List.mem_filterMap.2 ⟨m', hm', h'.handler⟩)), hserves'⟩
    let reply := ClearReply.ok message s.coordinator.member (cleared s)
    obtain ⟨hwaited, houtcome⟩ := hawaits.reply (r := reply) (Member.same_iff.1 h.member) hne
    obtain ⟨collector', hrun, hdone, hreplies⟩ := deliver_all hserved members
      (o.modifyShare l f) (collector.reply reply) hname hregion hdistinct hhandled hwaited
    refine ⟨collector', ?_, hdone, ?_⟩
    · rw [List.foldl_cons, deliver_eq hserved hname hregion h hserves, hrun, labelsOf_modifyShare,
        mapShares_modifyShare hl, labelsOf_cons h]
    · rw [hreplies, houtcome, sharesOf_modifyShare hl, sharesOf_cons h]
      simp only [List.map_cons, List.append_assoc, List.singleton_append, reply]

/-- Every recipient is waited for until it has replied. -/
theorem send_eq (hserved : c.Served message serves f cleared) {members : List Member}
    (hdistinct : members.Pairwise fun a b => compare a b ≠ .eq)
    (hall : ∀ m ∈ members, ∃ l s, c.Handles m l s ∧ serves s) :
    ∃ collector, c.send message members = (collector, c.mapShares (c.labelsOf members) f) ∧
      collector.take.1 = .ok ⟨(c.sharesOf members).map fun s =>
        .ok message s.coordinator.member (cleared s), []⟩ := by
  obtain ⟨collector, hrun, hdone, hreplies⟩ := deliver_all hserved members c (.new members) rfl rfl
    hdistinct hall (awaits_new members)
  refine ⟨collector, hrun, ?_⟩
  simp only [Collector.take, hdone.isEmpty, if_true, hreplies]
  rfl

end

end Cluster
end DataGrid
