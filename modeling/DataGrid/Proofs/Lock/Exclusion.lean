import DataGrid.Lock.Grantor
import DataGrid.Proofs.Version.Vector

/-
Named locks exclude each other. A grantor is asked by any members, for any
names, in any order: for a lock, to try again for those who wait, to unlock, and
to release all locks of a member, which is also what a departure comes to. Each
call is looked at for one name (`Turn`): whom the lock is given to, in order, and
what is recorded of it before and after.

While a lease runs and its holder neither unlocks nor departs, the record of the
name stays as it is. At any time the record, if there is one, is that of the
last grant: who lost a lock to a takeover cannot release it from its new holder.
-/

namespace DataGrid

/-- The grant is still good: no lease, or its end is not reached. -/
def LockRequest.lasts (r : LockRequest) (given now : Nat) : Prop :=
  ∀ lease, r.lease = some lease → now < given + lease

/-- What is recorded of a request that is granted. -/
def LockRequest.grant (r : LockRequest) (now : Nat) : Grant :=
  ⟨r.member, r.lease.map (now + ·)⟩

inductive LockCall
  | lock (r : LockRequest) (limited : Bool)
  | serve
  | unlock (m : Member) (name : String)
  | releaseAll (m : Member)

/-- What a call came to. -/
inductive LockEvent
  | answered (r : LockRequest) (answer : LockAnswer)
  | served (granted : List LockRequest)
  | unlocked
  | declined (e : LockError)
  | released (count : Nat)

/-- The requests that were granted, in order. -/
def LockEvent.granted : LockEvent → List LockRequest
  | .answered r .granted => [r]
  | .served granted => granted
  | _ => []

/-- The grants of one name. -/
def LockEvent.grantsOf (e : LockEvent) (name : String) : List LockRequest :=
  e.granted.filter (·.name = name)

/-- The call takes a lock from a member that holds it. -/
def LockCall.ends (holder : Member) (name : String) : LockCall → Bool
  | .unlock m name' => name' = name && holder.same m
  | .releaseAll m => holder.same m
  | _ => false

namespace LockGrantor

variable {g g' : LockGrantor} {now t : Nat} {name : String} {r : LockRequest} {call : LockCall}

def step (g : LockGrantor) (now : Nat) : LockCall → LockEvent × LockGrantor
  | .lock r limited => (.answered r (g.lock now r limited).1, (g.lock now r limited).2)
  | .serve => (.served (g.serve now).1, (g.serve now).2)
  | .unlock m name =>
    match g.unlock m name with
    | .ok g' => (.unlocked, g')
    | .error e => (.declined e, g)
  | .releaseAll m => (.released (g.releaseAll m).1, (g.releaseAll m).2)

/-- Calls one after another, each with the time it is made. -/
def run (g : LockGrantor) : List (Nat × LockCall) → List LockEvent × LockGrantor
  | [] => ([], g)
  | (now, call) :: calls =>
    let rest := (g.step now call).2.run calls
    ((g.step now call).1 :: rest.1, rest.2)

/-! ## Live grants -/

theorem not_isExpired_grant (h : r.lasts t now) : (r.grant t).isExpired now = false := by
  unfold Grant.isExpired LockRequest.grant
  cases hl : r.lease with
  | none => rfl
  | some lease =>
    have hlive := h lease hl
    simp only [Option.map_some, decide_eq_false_iff_not]
    omega

theorem lasts_earlier (h : r.lasts t now) {time : Nat} (hle : time ≤ now) : r.lasts t time := by
  intro lease hlease
  have hlive := h lease hlease
  omega

theorem holder_of_find? {grant : Grant} (h : g.grants.find? name = some grant)
    (hlive : grant.isExpired now = false) : g.holder now name = some grant.holder := by
  simp only [holder, h, hlive, Bool.false_eq_true, if_false]

/-! ## One call, one name -/

/-- The requests for one name that were granted at `now`, one after another. -/
structure Served (now : Nat) (granted : List LockRequest) (before after : Option Grant) : Prop where
  unchanged : granted = [] → after = before
  free : granted ≠ [] → ∀ grant, before = some grant → grant.isExpired now = true
  last : ∀ r, granted.getLast? = some r → after = some (r.grant now)
  lasting : ∀ r, r ∈ granted → r.lasts now now → after = some (r.grant now)

theorem Served.nil (before : Option Grant) : Served now [] before before where
  unchanged _ := rfl
  free h := absurd rfl h
  last _ h := by simp at h
  lasting _ h := by simp at h

/-- One more grant, which the last one must have expired for. -/
theorem Served.snoc {granted : List LockRequest} {before after : Option Grant}
    (h : Served now granted before after)
    (hfree : ∀ grant, after = some grant → grant.isExpired now = true) (r : LockRequest) :
    Served now (granted ++ [r]) before (some (r.grant now)) where
  unchanged hnil := by simp at hnil
  free _ grant hgrant := by
    by_cases hnil : granted = []
    · exact hfree grant ((h.unchanged hnil).trans hgrant)
    · exact h.free hnil grant hgrant
  last r' hr' := by
    have heq : r = r' := by simpa using hr'
    rw [heq]
  lasting r' hr' hlasts := by
    rcases List.mem_append.1 hr' with hr' | hr'
    · have hexpired := hfree _ (h.lasting r' hr' hlasts)
      rw [not_isExpired_grant hlasts] at hexpired
      cases hexpired
    · rw [List.mem_singleton.1 hr']

/-- An attempt gives the lock only if it is free, and to nobody else. -/
theorem attempt_eq_some (h : g.attempt now r = some g') :
    (∀ grant, g.grants.find? r.name = some grant → grant.isExpired now = true) ∧
      g' = { g with grants := g.grants.insert r.name (r.grant now) } := by
  unfold attempt at h
  split at h
  · cases h
  next hfree =>
    refine ⟨fun grant hgrant => ?_, (Option.some.inj h).symm⟩
    by_cases hexpired : grant.isExpired now = true
    · exact hexpired
    · rw [holder_of_find? hgrant (Bool.eq_false_iff.2 hexpired)] at hfree
      cases hfree

/-- A granted attempt, seen from any name. -/
theorem served_attempt (h : g.attempt now r = some g') {granted : List LockRequest}
    {before : Option Grant}
    (hserved : Served now (granted.filter (·.name = name)) before (g.grants.find? name)) :
    Served now ((granted ++ [r]).filter (·.name = name)) before (g'.grants.find? name) := by
  obtain ⟨hfree, hg'⟩ := attempt_eq_some h
  rw [hg', OrdMap.find?_insert, List.filter_append]
  by_cases hname : r.name = name
  · have heq : compare name r.name = .eq := Std.compare_eq_iff_eq.2 hname.symm
    rw [if_pos heq, List.filter_cons_of_pos (by simpa using hname), List.filter_nil]
    exact hserved.snoc (by rwa [hname] at hfree) r
  · have hne : compare name r.name ≠ .eq := fun he => hname (Std.compare_eq_iff_eq.1 he).symm
    rw [if_neg hne, List.filter_cons_of_neg (by simpa using hname), List.filter_nil,
      List.append_nil]
    exact hserved

theorem step_unlock_of_holder {grant : Grant} {m : Member} (hfind : g.grants.find? name = some grant)
    (hsame : grant.holder.same m = true) :
    g.step now (.unlock m name) = (.unlocked, { g with grants := g.grants.erase name }) := by
  simp only [step, unlock, hfind, hsame, if_true]

/-- Who is not recorded as the holder cannot unlock, and changes nothing by trying. -/
theorem step_unlock_of_other {m : Member}
    (h : ∀ grant, g.grants.find? name = some grant → grant.holder.same m = false) :
    g.step now (.unlock m name) = (.declined (.notHeld name m.text), g) := by
  cases hfind : g.grants.find? name with
  | none => simp only [step, unlock, hfind]
  | some grant => simp only [step, unlock, hfind, h grant hfind, Bool.false_eq_true, if_false]

/-- What one call does to the record of a name. -/
structure Turn (now : Nat) (name : String) (call : LockCall) (granted : List LockRequest)
    (before after : Option Grant) : Prop where
  served : granted ≠ [] → Served now granted before after
  rest : granted = [] → after = before ∨
    after = none ∧ ∃ grant, before = some grant ∧ call.ends grant.holder name = true

theorem Served.turn {granted : List LockRequest} {before after : Option Grant}
    (h : Served now granted before after) : Turn now name call granted before after :=
  ⟨fun _ => h, fun hnil => .inl (h.unchanged hnil)⟩

theorem served_lock (g : LockGrantor) (now : Nat) (r : LockRequest) (limited : Bool) :
    Served now ((g.step now (.lock r limited)).1.grantsOf name) (g.grants.find? name)
      ((g.step now (.lock r limited)).2.grants.find? name) := by
  simp only [step, lock, LockEvent.grantsOf]
  cases h : g.attempt now r with
  | some g' =>
    have hnone : Served now (([] : List LockRequest).filter (·.name = name))
        (g.grants.find? name) (g.grants.find? name) := Served.nil _
    exact served_attempt h hnone
  | none => cases limited <;> exact Served.nil _

theorem served_serve (g : LockGrantor) (now : Nat) :
    Served now ((g.step now .serve).1.grantsOf name) (g.grants.find? name)
      ((g.step now .serve).2.grants.find? name) := by
  simp only [step, serve, LockEvent.grantsOf, LockEvent.granted]
  -- along the queue: the grants so far led to the record so far
  refine List.foldlRecOn (motive := fun acc : List LockRequest × LockGrantor =>
    Served now (acc.1.filter (·.name = name)) (g.grants.find? name) (acc.2.grants.find? name))
    g.waiting _ (Served.nil _) fun acc h r _ => ?_
  split
  next g' hr => exact served_attempt hr h
  next => exact h

theorem turn_unlock (g : LockGrantor) (now : Nat) (m : Member) (name' : String) :
    Turn now name (.unlock m name') ((g.step now (.unlock m name')).1.grantsOf name)
      (g.grants.find? name) ((g.step now (.unlock m name')).2.grants.find? name) := by
  by_cases hheld : ∃ grant, g.grants.find? name' = some grant ∧ grant.holder.same m = true
  · obtain ⟨grant, hfind, hsame⟩ := hheld
    rw [step_unlock_of_holder hfind hsame]
    refine ⟨fun hne => absurd rfl hne, fun _ => ?_⟩
    by_cases hname : name' = name
    · subst hname
      exact .inr ⟨OrdMap.find?_erase_self _ _, grant, hfind, by simp [LockCall.ends, hsame]⟩
    · have hne : compare name name' ≠ .eq := fun he => hname (Std.compare_eq_iff_eq.1 he).symm
      exact .inl (OrdMap.find?_erase_other _ hne)
  · rw [step_unlock_of_other fun grant hfind => Bool.eq_false_iff.2 fun hsame =>
      hheld ⟨grant, hfind, hsame⟩]
    exact (Served.nil _).turn

theorem turn_releaseAll (g : LockGrantor) (now : Nat) (m : Member) :
    Turn now name (.releaseAll m) ((g.step now (.releaseAll m)).1.grantsOf name)
      (g.grants.find? name) ((g.step now (.releaseAll m)).2.grants.find? name) := by
  refine ⟨fun h => absurd rfl h, fun _ => ?_⟩
  simp only [step, releaseAll, OrdMap.find?_filter]
  cases hfind : g.grants.find? name with
  | none => exact .inl rfl
  | some grant =>
    cases hsame : grant.holder.same m with
    | false => exact .inl (by simp [hsame])
    | true => exact .inr ⟨by simp [hsame], grant, rfl, hsame⟩

theorem turn_step (g : LockGrantor) (now : Nat) (call : LockCall) (name : String) :
    Turn now name call ((g.step now call).1.grantsOf name) (g.grants.find? name)
      ((g.step now call).2.grants.find? name) := by
  cases call with
  | lock r limited => exact (served_lock g now r limited).turn
  | serve => exact (served_serve g now).turn
  | unlock m name' => exact turn_unlock g now m name'
  | releaseAll m => exact turn_releaseAll g now m

/-! ## While a lock is held -/

/-- A live record stays, and its name is granted to nobody, until its holder gives it up. -/
theorem held_step {grant : Grant} (hfind : g.grants.find? name = some grant)
    (hlive : grant.isExpired now = false) (hends : call.ends grant.holder name = false) :
    (g.step now call).1.grantsOf name = [] ∧
      (g.step now call).2.grants.find? name = some grant := by
  have hturn := turn_step g now call name
  have hnil : (g.step now call).1.grantsOf name = [] := by
    by_cases hnil : (g.step now call).1.grantsOf name = []
    · exact hnil
    · have hexpired := (hturn.served hnil).free hnil grant hfind
      rw [hlive] at hexpired
      cases hexpired
  refine ⟨hnil, ?_⟩
  rcases hturn.rest hnil with hsame | ⟨-, grant', hfind', hends'⟩
  · exact hsame.trans hfind
  · have heq : grant = grant' := Option.some.inj (hfind.symm.trans hfind')
    rw [heq, hends'] at hends
    cases hends

theorem held_run {grant : Grant} {calls : List (Nat × LockCall)}
    (hfind : g.grants.find? name = some grant)
    (hlive : ∀ c, c ∈ calls → grant.isExpired c.1 = false)
    (hends : ∀ c, c ∈ calls → c.2.ends grant.holder name = false) :
    (∀ e, e ∈ (g.run calls).1 → e.grantsOf name = []) ∧
      (g.run calls).2.grants.find? name = some grant := by
  induction calls generalizing g with
  | nil => exact ⟨nofun, hfind⟩
  | cons c calls ih =>
    obtain ⟨hnone, hkept⟩ := held_step hfind (hlive c (.head _)) (hends c (.head _))
    obtain ⟨hnones, hkepts⟩ := ih hkept (fun c' hc' => hlive c' (.tail _ hc'))
      (fun c' hc' => hends c' (.tail _ hc'))
    refine ⟨fun e he => ?_, hkepts⟩
    rcases List.mem_cons.1 he with he | he
    · exact he ▸ hnone
    · exact hnones e he

/-- A lock that is granted stays with its holder while the lease runs. -/
theorem grant_kept {calls : List (Nat × LockCall)} (hgrant : r ∈ (g.step t call).1.granted)
    (hlasts : r.lasts t now) (hclock : (t :: calls.map Prod.fst ++ [now]).Pairwise (· ≤ ·))
    (hends : ∀ c, c ∈ calls → c.2.ends r.member r.name = false) :
    (∀ e, e ∈ ((g.step t call).2.run calls).1 → e.grantsOf r.name = []) ∧
      ((g.step t call).2.run calls).2.grants.find? r.name = some (r.grant t) := by
  rw [List.cons_append, List.pairwise_cons] at hclock
  obtain ⟨hfirst, hrest⟩ := hclock
  have hnow : t ≤ now := hfirst now (by simp)
  have hmem : r ∈ (g.step t call).1.grantsOf r.name := List.mem_filter.2 ⟨hgrant, by simp⟩
  have hserved := (turn_step g t call r.name).served (List.ne_nil_of_mem hmem)
  have hstart := hserved.lasting r hmem (lasts_earlier hlasts hnow)
  refine held_run hstart (fun c hc => ?_) hends
  have hin : c.1 ∈ calls.map Prod.fst := List.mem_map_of_mem hc
  have hle : c.1 ≤ now :=
    (List.pairwise_append.1 hrest).2.2 c.1 hin now (List.mem_singleton_self _)
  exact not_isExpired_grant (lasts_earlier hlasts hle)

/-! ## The last grant -/

/-- Nobody but the member of the last grant is recorded as the holder. -/
def Latest (granted : List LockRequest) (record : Option Grant) : Prop :=
  ∀ r grant, granted.getLast? = some r → record = some grant → grant.holder = r.member

theorem Turn.latest {earlier granted : List LockRequest} {before after : Option Grant}
    (h : Turn now name call granted before after) (hbefore : Latest earlier before) :
    Latest (earlier ++ granted) after := by
  intro r grant hlast hafter
  by_cases hnil : granted = []
  · rw [hnil, List.append_nil] at hlast
    rcases h.rest hnil with hsame | ⟨hnone, -⟩
    · exact hbefore r grant hlast (hsame.symm.trans hafter)
    · rw [hnone] at hafter
      cases hafter
  · have hr : after = some (r.grant now) := by
      refine (h.served hnil).last r ?_
      rwa [List.getLast?_append, Option.or_of_isSome (by simpa using hnil)] at hlast
    have heq : grant = r.grant now := Option.some.inj (hafter.symm.trans hr)
    rw [heq]
    rfl

theorem latest_run {calls : List (Nat × LockCall)} {earlier : List LockRequest}
    (h : Latest earlier (g.grants.find? name)) :
    Latest (earlier ++ (g.run calls).1.flatMap (·.grantsOf name))
      ((g.run calls).2.grants.find? name) := by
  induction calls generalizing g earlier with
  | nil => simpa [run] using h
  | cons c calls ih =>
    have hstep := (turn_step g c.1 c.2 name).latest h
    have hrest := ih hstep
    simpa only [run, List.flatMap_cons, List.append_assoc] using hrest

theorem latest_of_step (g : LockGrantor) (t : Nat) (call : LockCall) (calls : List (Nat × LockCall))
    (name : String) :
    Latest (((g.step t call).1 :: ((g.step t call).2.run calls).1).flatMap (·.grantsOf name))
      (((g.step t call).2.run calls).2.grants.find? name) := by
  have hnone : Latest [] (g.grants.find? name) := fun _ _ h => by simp at h
  have hfirst := (turn_step g t call name).latest hnone
  rw [List.nil_append] at hfirst
  rw [List.flatMap_cons]
  exact latest_run hfirst

/-! ## Exclusion -/

/--
A lock was granted for `r` at the time `t`, in any state of the grantor, and any calls
follow. While the lease runs and the holder does not give the lock up, nobody is granted
the name, the holder included; it is the holder, and an unlock by anyone else is declined
and changes nothing. And at any later time, leases or not, whoever was last granted the name
is the only one who may still release it: not a former holder whose lease was taken over.
-/
theorem grant_excludes (g : LockGrantor) (t : Nat) (call : LockCall) (r : LockRequest)
    (hgrant : r ∈ (g.step t call).1.granted) (calls : List (Nat × LockCall)) (now : Nat)
    (hclock : (t :: calls.map Prod.fst ++ [now]).Pairwise (· ≤ ·)) :
    let start := g.step t call
    let (events, g') := start.2.run calls
    (r.lasts t now → (∀ c, c ∈ calls → c.2.ends r.member r.name = false) →
      (∀ e, e ∈ events → e.grantsOf r.name = []) ∧
        g'.holder now r.name = some r.member ∧
        (∀ r' limited, r'.name = r.name →
          (g'.step now (.lock r' limited)).1.grantsOf r.name = []) ∧
        ∀ m, r.member.same m = false →
          g'.step now (.unlock m r.name) = (.declined (.notHeld r.name m.text), g')) ∧
    ∀ last, ((start.1 :: events).flatMap (·.grantsOf r.name)).getLast? = some last →
      ∀ m, last.member.same m = false →
        g'.step now (.unlock m r.name) = (.declined (.notHeld r.name m.text), g') := by
  have hlatest := latest_of_step g t call calls r.name
  refine ⟨fun hlasts hends => ?_, fun last hlast m hother => ?_⟩
  · obtain ⟨hnone, hkept⟩ := grant_kept hgrant hlasts hclock hends
    have hlive := not_isExpired_grant hlasts
    refine ⟨hnone, holder_of_find? hkept hlive, fun r' limited _ => ?_, fun m hother => ?_⟩
    · exact (held_step hkept hlive rfl).1
    · refine step_unlock_of_other fun grant hfind => ?_
      have heq : r.grant t = grant := Option.some.inj (hkept.symm.trans hfind)
      rw [← heq]
      exact hother
  · refine step_unlock_of_other fun grant hfind => ?_
    rw [hlatest last grant hlast hfind]
    exact hother

def firstLease : LockRequest := ⟨{ address := .localhost, port := 1 }, "orders", some 10⟩

def takeover : LockRequest := ⟨{ address := .localhost, port := 2 }, "orders", none⟩

/-- The grantor while the lease runs. -/
def leasing : LockGrantor := (step {} 0 (.lock firstLease true)).2

/-- The grantor after the lease has run out and a second member has the lock. -/
def takenOver : LockGrantor := (leasing.step 10 (.lock takeover true)).2

/-- Within the lease a second request is refused. After the takeover the first holder unlocks
too late. -/
theorem grant_excludes_takeover :
    (leasing.run [(5, .lock takeover true)]).2.holder 9 "orders" = some firstLease.member ∧
      takenOver.holder 12 "orders" = some takeover.member ∧
      takenOver.step 12 (.unlock firstLease.member "orders") =
        (.declined (.notHeld "orders" firstLease.member.text), takenOver) := by
  have hfirst : (step {} 0 (.lock firstLease true)).1.granted = [firstLease] := rfl
  have htaken : (leasing.step 10 (.lock takeover true)).1.granted = [takeover] := rfl
  obtain ⟨hlease, -⟩ := grant_excludes {} 0 (.lock firstLease true) firstLease
    (by rw [hfirst]; exact .head _) [(5, .lock takeover true)] 9 (by decide)
  obtain ⟨-, hholder, -⟩ := hlease (by simp [firstLease, LockRequest.lasts]) (by decide)
  obtain ⟨hafter, hlate⟩ := grant_excludes leasing 10 (.lock takeover true) takeover
    (by rw [htaken]; exact .head _) [] 12 (by decide)
  obtain ⟨-, htaker, -⟩ := hafter (by simp [takeover, LockRequest.lasts]) nofun
  exact ⟨hholder, htaker, hlate takeover rfl firstLease.member (by decide)⟩

end LockGrantor
end DataGrid
