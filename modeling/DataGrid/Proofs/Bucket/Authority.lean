import DataGrid.Proofs.Bucket.Election
import DataGrid.Proofs.Bucket.Redelivery

/-
Which events get through to the entries of a bucket. Two things decide, and
change independently of each other: the advisor, which is asked first and only
for events of the member's own, and the gate. What is refused leaves no trace,
neither in the bucket nor on the event (`apply_authorized`).

Of the advisor it is shown that it says that it is primary just if it hosts the
bucket and knows itself as primary, whatever is done to it and whatever its
delegate does in a bid (`Advisor.Sound`), and of the gate that it is closed just
if it was locked and not released since.
-/

namespace DataGrid

namespace Advisor

variable {σ : Type} {hosts : Member → StateM σ Bool} {a a' : Advisor} {b : Bool} {s s' : σ}

/-! ## Whatever is done to an advisor -/

/-- What holds between bids holds in a bid as well. -/
theorem Sound.of_idle (h : a.Sound false) (b : Bool) : a.Sound b where
  settled ho := (h.settled ho).imp_right fun hbid => nomatch hbid.1
  closed := h.closed

/-- Whatever a delegate calls, a bid included. -/
theorem follows_sound : Follows hosts (fun _ => True) (fun _ => True)
    fun m n => m.advisor.Sound m.bidding → n.advisor.Sound n.bidding where
  refl _ := id
  trans hfirst hsecond h := hsecond (hfirst h)
  beside hbeside h := by
    cases hbeside with
    | @hold a a' b _ _ _ _ hrun _ =>
      obtain ⟨elector, helector⟩ := deferToElector_run hrun
      have hkept : Kept b a a' := Sound.congr h (helector ▸ rfl) (helector ▸ rfl) (helector ▸ rfl)
        (helector ▸ rfl)
      exact hkept.sound
    | bid _ _ hrun hmay =>
      obtain ⟨elector, rfl⟩ := deferToElector_run hrun
      exact (kept_bid hmay).sound
    | finish => exact (Sound.finish h).sound.of_idle _
  call hop _ _ _ _ _ _ _ _ hrun h := (Sound.performThrough h hop hrun).sound
  depart _ _ _ h := (Sound.forget h _).sound

theorem Sound.perform (h : a.Sound false) {call : AdvisorCall} {answer : AdvisorAnswer}
    {reports : List DelegateReport}
    (hrun : (Advisor.perform hosts call a).run s = ((answer, a', reports), s')) :
    a'.Sound false :=
  follows_sound.perform (fun _ _ => trivial) (fun _ => trivial) hrun h

theorem Sound.memberDeparted (h : a.Sound false) {p : Member} {reports : List DelegateReport}
    (hrun : (Advisor.memberDeparted hosts a p).run s = ((a', reports), s')) :
    a'.Sound false :=
  follows_sound.memberDeparted (fun _ _ => trivial) trivial hrun h

end Advisor

namespace Bucket

/-! ## What may pass -/

/-- The member may begin operations of its own on the bucket. -/
structure Presides (a : Advisor) : Prop where
  opened : a.isClosed = false
  hosting : a.hosting = true
  primary : a.isPrimary = true

/-- The event may get to the entries. -/
structure Passes (b : Bucket) (e : EntryEvent) : Prop where
  presides : e.remote = false → Presides b.advisor
  gate : b.gate.isClosed = false

/-- Why an event may not pass: of several reasons the first. -/
inductive Refused (b : Bucket) (e : EntryEvent) : BucketError → Prop
  | closed (hlocal : e.remote = false) (hclosed : b.advisor.isClosed = true) :
      Refused b e (.closed b.id)
  | notHosted (hlocal : e.remote = false) (hopened : b.advisor.isClosed = false)
      (hnot : b.advisor.hosting = false) : Refused b e (.notHosted b.id)
  | notPrimary (hlocal : e.remote = false) (hopened : b.advisor.isClosed = false)
      (hhosting : b.advisor.hosting = true) (hnot : b.advisor.isPrimary = false) :
      Refused b e (.notPrimary b.id (b.advisor.primary.map Member.text))
  | clearInProgress (hpresides : e.remote = false → Presides b.advisor)
      (hclosed : b.gate.isClosed = true) : Refused b e (.clearInProgress b.id)

variable {b b' : Bucket} {e : EntryEvent} {err : BucketError} {now : Int}

/-- The advisor is asked for local events only, and before the gate. -/
theorem Refused.held (h : Refused b e err) : b.held e = some err := by
  cases h with
  | closed hlocal hclosed => simp [Bucket.held, notForLocal, hlocal, hclosed]
  | notHosted hlocal hopened hnot => simp [Bucket.held, notForLocal, hlocal, hopened, hnot]
  | notPrimary hlocal hopened hhosting hnot =>
    simp [Bucket.held, notForLocal, hlocal, hopened, hhosting, hnot]
  | clearInProgress hpresides hclosed =>
    cases hremote : e.remote with
    | true => simp [Bucket.held, ClearGate.passes, hremote, hclosed]
    | false =>
      obtain ⟨hopened, hhosting, hprimary⟩ := hpresides hremote
      simp [Bucket.held, notForLocal, ClearGate.passes, hremote, hopened, hhosting, hprimary,
        hclosed]

theorem passes_or_refused (b : Bucket) (e : EntryEvent) :
    Passes b e ∨ ∃ err, Refused b e err := by
  have hgate : (e.remote = false → Presides b.advisor) →
      Passes b e ∨ ∃ err, Refused b e err := fun hpresides => by
    cases hclosed : b.gate.isClosed with
    | false => exact .inl ⟨hpresides, hclosed⟩
    | true => exact .inr ⟨_, .clearInProgress hpresides hclosed⟩
  cases hremote : e.remote with
  | true => exact hgate fun hlocal => nomatch hremote.symm.trans hlocal
  | false =>
    cases hclosed : b.advisor.isClosed with
    | true => exact .inr ⟨_, .closed hremote hclosed⟩
    | false =>
      cases hhosting : b.advisor.hosting with
      | false => exact .inr ⟨_, .notHosted hremote hclosed hhosting⟩
      | true =>
        cases hprimary : b.advisor.isPrimary with
        | false => exact .inr ⟨_, .notPrimary hremote hclosed hhosting hprimary⟩
        | true => exact hgate fun _ => ⟨hclosed, hhosting, hprimary⟩

theorem Passes.held (h : Passes b e) : b.held e = none := by
  cases hremote : e.remote with
  | true => simp [Bucket.held, ClearGate.passes, hremote, h.gate]
  | false =>
    obtain ⟨hopened, hhosting, hprimary⟩ := h.presides hremote
    simp [Bucket.held, notForLocal, ClearGate.passes, hremote, hopened, hhosting, hprimary, h.gate]

theorem not_passes_iff : ¬ Passes b e ↔ ∃ err, Refused b e err := by
  refine ⟨fun h => (passes_or_refused b e).resolve_left h, fun ⟨err, hrefused⟩ hpasses => ?_⟩
  exact nomatch hpasses.held.symm.trans hrefused.held

theorem apply_refused (h : Refused b e err) (now : Int) :
    b.apply now e = .ok (.error err, e, b) := by
  rw [apply, h.held]

/-! ## Runs -/

/-- What can be done to a bucket. -/
inductive Move
  /-- an event, a clear, or a collection of tombstones -/
  | arrival (arrival : Arrival)
  | lockForClear (m : Member)
  | releaseForClear
  | advisor (call : AdvisorCall)
  | memberDeparted (m : Member)
  /-- the advisor notes something else: shadows, servers, or what its delegate is to do -/
  | noted

/-- What a move makes of a bucket, in a world where the advisor asks who hosts the region. A member
that would have to wait for the gate makes no move. -/
inductive Moved {σ : Type} (hosts : Member → StateM σ Bool) :
    Bucket × σ → Move → Bucket × σ → Prop
  | arrival {b b' : Bucket} {s : σ} (arrival : Arrival) (hok : b.arrive arrival = .ok b') :
      Moved hosts (b, s) (.arrival arrival) (b', s)
  | lockForClear {b b' : Bucket} {s : σ} (m : Member) (hlock : b.lockForClear? m = some b') :
      Moved hosts (b, s) (.lockForClear m) (b', s)
  | releaseForClear {b : Bucket} {s : σ} :
      Moved hosts (b, s) .releaseForClear (b.releaseForClear, s)
  | advisor {b : Bucket} {s s' : σ} (call : AdvisorCall) {answer : AdvisorAnswer} {a : Advisor}
      {reports : List DelegateReport}
      (hrun : (b.advisor.perform hosts call).run s = ((answer, a, reports), s')) :
      Moved hosts (b, s) (.advisor call) ({ b with advisor := a }, s')
  | memberDeparted {b : Bucket} {s s' : σ} (m : Member) {a : Advisor}
      {reports : List DelegateReport}
      (hrun : (b.advisor.memberDeparted hosts m).run s = ((a, reports), s')) :
      Moved hosts (b, s) (.memberDeparted m) ({ b with advisor := a }, s')
  | noted {b : Bucket} {s s' : σ} {a : Advisor} (hstate : a.state = b.advisor.state)
      (hhosting : a.hosting = b.advisor.hosting) (hprimary : a.primary = b.advisor.primary)
      (hmember : a.member = b.advisor.member) :
      Moved hosts (b, s) .noted ({ b with advisor := a }, s')

/-- Moves one after the other, each with the bucket that it found. -/
inductive Run {σ : Type} (hosts : Member → StateM σ Bool) :
    Bucket × σ → List (Bucket × Move) → Bucket × σ → Prop
  | nil (p : Bucket × σ) : Run hosts p [] p
  | snoc {p q r : Bucket × σ} {moves : List (Bucket × Move)} {move : Move}
      (h : Run hosts p moves q) (hmove : Moved hosts q move r) :
      Run hosts p (moves ++ [(q.1, move)]) r

variable {σ : Type} {hosts : Member → StateM σ Bool} {p q : Bucket × σ} {move : Move}
  {moves : List (Bucket × Move)}

/-- The gate was locked and not released since. -/
def LockedSince (moves : List (Bucket × Move)) : Prop :=
  ∃ before found m after, moves = before ++ (found, .lockForClear m) :: after ∧
    ∀ x ∈ after, x.2 ≠ .releaseForClear

theorem lockedSince_snoc (moves : List (Bucket × Move)) (found : Bucket) (move : Move) :
    LockedSince (moves ++ [(found, move)]) ↔
      (∃ m, move = .lockForClear m) ∨ move ≠ .releaseForClear ∧ LockedSince moves := by
  constructor
  · rintro ⟨before, x, m, after, heq, hafter⟩
    rcases List.eq_nil_or_concat after with rfl | ⟨init, last, rfl⟩
    · obtain ⟨-, hlast⟩ := List.append_inj' heq rfl
      cases hlast
      exact .inl ⟨m, rfl⟩
    · rw [List.concat_eq_append] at heq hafter
      rw [← List.cons_append, ← List.append_assoc] at heq
      obtain ⟨hmoves, hlast⟩ := List.append_inj' heq rfl
      cases hlast
      exact .inr ⟨hafter (found, move) (by simp), before, x, m, init, hmoves,
        fun y hy => hafter y (by simp [hy])⟩
  · rintro (⟨m, rfl⟩ | ⟨hmove, before, x, m, after, rfl, hafter⟩)
    · exact ⟨moves, found, m, [], rfl, List.forall_mem_nil _⟩
    · refine ⟨before, x, m, after ++ [(found, move)], by simp, fun y hy => ?_⟩
      rcases List.mem_append.1 hy with hy | hy
      · exact hafter y hy
      · rw [List.mem_singleton.1 hy]
        exact hmove

/-- A move that can change the entries, or the counts of the bucket. -/
def Move.Acts (found : Bucket) : Move → Prop
  | .arrival (.event _ e) => Passes found e
  | .arrival _ => True
  | _ => False

/-- What is kept of the gate and the advisor along a run. -/
structure Governed (moves : List (Bucket × Move)) (b : Bucket) : Prop where
  sound : b.advisor.Sound false
  waiting : b.gate.waiting = []
  locked : b.gate.isClosed = true ↔ LockedSince moves

theorem arrive_same {arrival : Arrival} (hok : b.arrive arrival = .ok b') :
    b'.advisor = b.advisor ∧ b'.gate = b.gate := by
  cases arrival with
  | event now e =>
    obtain ⟨⟨r, e', b''⟩, happ, hok⟩ := bind_ok hok
    cases hok
    unfold apply at happ
    split at happ
    · cases happ
      exact ⟨rfl, rfl⟩
    · split at happ
      · obtain ⟨⟨applied, w⟩, -, happ⟩ := bind_ok happ
        cases happ
        exact ⟨rfl, rfl⟩
      · cases happ
        exact ⟨rfl, rfl⟩
  | clear | expireTombstones | gcTombstones =>
    cases hok
    exact ⟨rfl, rfl⟩

/-- Of the gate, a lock closes it and a release opens it, since nobody waits; nothing else changes
it. -/
theorem Moved.governed (h : Moved hosts p move q) (hp : Governed moves p.1) :
    Governed (moves ++ [(p.1, move)]) q.1 := by
  have hother : (∀ m, move ≠ .lockForClear m) → move ≠ .releaseForClear →
      (LockedSince (moves ++ [(p.1, move)]) ↔ LockedSince moves) := by
    intro hlock hrelease
    rw [lockedSince_snoc]
    exact ⟨fun h => h.elim (fun ⟨m, hm⟩ => absurd hm (hlock m)) And.right,
      fun h => .inr ⟨hrelease, h⟩⟩
  cases h with
  | arrival arrival hok =>
    obtain ⟨hadvisor, hgate⟩ := arrive_same hok
    refine ⟨hadvisor ▸ hp.sound, hgate ▸ hp.waiting, ?_⟩
    rw [hother (fun _ => nofun) nofun, ← hp.locked, hgate]
  | @lockForClear b b' _ m hlock =>
    obtain ⟨gate, hclose, rfl⟩ := Option.map_eq_some_iff.1 hlock
    have hclosed : gate.isClosed = true ∧ gate.waiting = b.gate.waiting := by
      unfold ClearGate.close? at hclose
      split at hclose
      · cases hclose
        exact ⟨rfl, rfl⟩
      next h hheld =>
        split at hclose
        · cases hclose
          exact ⟨by rw [ClearGate.isClosed, hheld]; rfl, rfl⟩
        · cases hclose
    exact ⟨hp.sound, hclosed.2.trans hp.waiting,
      iff_of_true hclosed.1 ((lockedSince_snoc _ _ _).2 (.inl ⟨m, rfl⟩))⟩
  | @releaseForClear b s =>
    have hopened : b.gate.open_.2 = {} := by
      rw [ClearGate.open_, hp.waiting]
    refine ⟨hp.sound, congrArg ClearGate.waiting hopened, iff_of_false ?_ fun h => ?_⟩
    · rw [Bucket.releaseForClear, hopened]
      nofun
    · rcases (lockedSince_snoc _ _ _).1 h with ⟨_, hlock⟩ | ⟨hnot, -⟩
      · cases hlock
      · exact hnot rfl
  | advisor call hrun =>
    exact ⟨hp.sound.perform hrun, hp.waiting, hp.locked.trans (hother (fun _ => nofun) nofun).symm⟩
  | memberDeparted m hrun =>
    exact ⟨hp.sound.memberDeparted hrun, hp.waiting,
      hp.locked.trans (hother (fun _ => nofun) nofun).symm⟩
  | noted hstate hhosting hprimary hmember =>
    exact ⟨(hp.sound.congr hstate hhosting hprimary hmember).sound, hp.waiting,
      hp.locked.trans (hother (fun _ => nofun) nofun).symm⟩

/-- A bucket whose advisor was told nothing yet. -/
def unattended (path : String) (id : Nat) (me : Member) (delegate : Delegate)
    (attributes : RegionAttributes) : Bucket :=
  .new path { bucketId := id, member := me, delegate := delegate } attributes

theorem Run.governed {path : String} {id : Nat} {me : Member} {delegate : Delegate}
    {attributes : RegionAttributes} {s : σ}
    (h : Run hosts (unattended path id me delegate attributes, s) moves q) :
    Governed moves q.1 := by
  induction h with
  | nil =>
    refine ⟨⟨fun _ => .inl rfl, nofun⟩, rfl, iff_of_false nofun ?_⟩
    rintro ⟨before, x, m, after, heq, -⟩
    cases before <;> cases heq
  | snoc _ hmove ih => exact hmove.governed ih

/-- A move that does not act leaves the entries alone, with the queue, the vector and the counts. -/
theorem Moved.unaffected (h : Moved hosts p move q) (hidle : ¬ move.Acts p.1) :
    q.1.copy = p.1.copy ∧ q.1.clears = p.1.clears := by
  cases h with
  | @arrival b b' _ arrival hok =>
    cases arrival with
    | event now e =>
      obtain ⟨err, hrefused⟩ := not_passes_iff.1 hidle
      obtain ⟨⟨r, e', b''⟩, happ, hok⟩ := bind_ok hok
      rw [apply_refused hrefused] at happ
      cases happ
      cases hok
      exact ⟨rfl, rfl⟩
    | clear | expireTombstones | gcTombstones => exact absurd trivial hidle
  | lockForClear m hlock =>
    obtain ⟨gate, -, rfl⟩ := Option.map_eq_some_iff.1 hlock
    exact ⟨rfl, rfl⟩
  | releaseForClear | advisor | memberDeparted | noted => exact ⟨rfl, rfl⟩

theorem Run.unaffected (h : Run hosts p moves q) (hidle : ∀ x ∈ moves, ¬ x.2.Acts x.1) :
    q.1.copy = p.1.copy ∧ q.1.clears = p.1.clears := by
  induction h with
  | nil => exact ⟨rfl, rfl⟩
  | @snoc q r moves move _ hmove ih =>
    have hlast := hmove.unaffected (hidle (q.1, move) (by simp))
    have hbefore := ih fun x hx => hidle x (by simp [hx])
    exact ⟨hlast.1.trans hbefore.1, hlast.2.trans hbefore.2⟩

/-- In a sound advisor, being primary is to know itself as primary of a bucket that it hosts. -/
theorem presides_iff {a : Advisor} (h : a.Sound false) :
    Presides a ↔ a.hosting = true ∧ a.primaryIsSelf = true := by
  refine ⟨fun hp => ⟨hp.hosting, (h.isPrimary_iff.1 hp.primary).2.2⟩, fun ⟨hhosting, hself⟩ => ?_⟩
  have hopened : a.isClosed = false :=
    Bool.eq_false_iff.2 fun hc => nomatch (h.closed hc).1.symm.trans hhosting
  exact ⟨hopened, hhosting, h.isPrimary_iff.2 ⟨hopened, hhosting, hself⟩⟩

/-- After any run of events, clears, collections, locks, releases and whatever is done to the
advisor, an event gets to the entries, or clears the bucket, just if the gate is open and, for a
local event, the advisor is not closed, hosts the bucket and is primary. Otherwise the answer is the
first of the four reasons, and bucket and event are as they were. The gate is open just if it was
not locked since it was last released, and the advisor presides just if it hosts the bucket and knows
itself as primary. No further run changes the entries, their queue, the vector or a count, as long as
no event of it passes and it neither clears nor collects. -/
theorem apply_authorized {path : String} {id : Nat} {me : Member} {delegate : Delegate}
    {attributes : RegionAttributes} {s₀ s : σ}
    (h : Run hosts (unattended path id me delegate attributes, s₀) moves (b, s)) (now : Int)
    (e : EntryEvent) :
    (b.gate.isClosed = true ↔ LockedSince moves) ∧
      (Presides b.advisor ↔ b.advisor.hosting = true ∧ b.advisor.primaryIsSelf = true) ∧
      (Passes b e → e.operation = .regionClear → b.apply now e = .ok (.ok true, e, b.clear.2)) ∧
      (Passes b e → e.operation ≠ .regionClear → ∃ done, b.applyToEntry now e = some done ∧
        b.apply now e = done.map fun (applied, w) =>
          (applied.mapError .entry, w.event, { b with copy := w.copy })) ∧
      (¬ Passes b e ↔ ∃ err, Refused b e err) ∧
      (∀ err, Refused b e err → b.apply now e = .ok (.error err, e, b)) ∧
      ∀ moves' q, Run hosts (b, s) moves' q → (∀ x ∈ moves', ¬ x.2.Acts x.1) →
        q.1.copy = b.copy ∧ q.1.clears = b.clears := by
  have hgoverned : Governed moves b := h.governed
  refine ⟨hgoverned.locked, presides_iff hgoverned.sound, fun hpasses hop => ?_,
    fun hpasses hop => ?_, not_passes_iff, fun err hrefused => apply_refused hrefused now,
    fun moves' q hcourse hidle => hcourse.unaffected hidle⟩
  · simp only [apply, hpasses.held, applyToEntry, hop]
  · obtain ⟨done, hdone⟩ : ∃ done, b.applyToEntry now e = some done := by
      unfold applyToEntry
      cases hkind : e.operation with
      | regionClear => exact absurd hkind hop
      | _ => exact ⟨_, rfl⟩
    refine ⟨done, hdone, ?_⟩
    rw [apply, hpasses.held, hdone]
    cases done <;> rfl

/-- A primary writes a key. Then its bucket is locked for a clear, and another member is made
primary: of the two reasons to refuse a local event the advisor's comes first, and an event that was
received is held back by the gate. -/
theorem apply_authorized_demoted : ∃ moves b,
    Run (fun _ => pure false)
      (unattended "/orders" 7 (hostAt 1).member .immediate {}, ()) moves (b, ()) ∧
      b.get? "k" = some "v" ∧ LockedSince moves ∧ ¬ Presides b.advisor ∧
      b.apply 1 (.ofPut "k" "w") =
        .ok (.error (.notPrimary 7 (some (hostAt 2).member.text)), .ofPut "k" "w", b) ∧
      b.apply 1 { EntryEvent.ofPut "k" "w" with remote := true } =
        .ok (.error (.clearInProgress 7), { EntryEvent.ofPut "k" "w" with remote := true }, b) := by
  obtain ⟨moves, b, hcourse, hvalue, hid, hclosed, hopened, hhosting, hprimary, hnamed⟩ :
      ∃ moves b, Run (fun _ => pure false)
        (unattended "/orders" 7 (hostAt 1).member .immediate {}, ()) moves (b, ()) ∧
        b.get? "k" = some "v" ∧ b.id = 7 ∧ b.gate.isClosed = true ∧ b.advisor.isClosed = false ∧
        b.advisor.hosting = true ∧ b.advisor.isPrimary = false ∧
        b.advisor.primary = some (hostAt 2).member :=
    ⟨_, _, .snoc (.snoc (.snoc (.snoc (.snoc (.snoc (.nil _)
        (.advisor (.setHosting true) rfl))
        (.advisor .openGate rfl))
        (.advisor .volunteer rfl))
        (.arrival (.event 0 (.ofPut "k" "v")) rfl))
        (.lockForClear (hostAt 3).member rfl))
        (.advisor (.setPrimary (some (hostAt 2).member)) rfl),
      rfl, rfl, rfl, rfl, rfl, rfl, rfl⟩
  obtain ⟨hlocked, -, -, -, -, hlocal, -⟩ := apply_authorized hcourse 1 (.ofPut "k" "w")
  obtain ⟨-, -, -, -, -, hremote, -⟩ :=
    apply_authorized hcourse 1 { EntryEvent.ofPut "k" "w" with remote := true }
  have hpresides : ¬ Presides b.advisor := fun h => nomatch h.primary.symm.trans hprimary
  have hdemoted : Refused b (.ofPut "k" "w")
      (.notPrimary b.id (b.advisor.primary.map Member.text)) :=
    .notPrimary rfl hopened hhosting hprimary
  rw [hid, hnamed] at hdemoted
  have hheld : Refused b { EntryEvent.ofPut "k" "w" with remote := true }
      (.clearInProgress b.id) := .clearInProgress nofun hclosed
  rw [hid] at hheld
  exact ⟨moves, b, hcourse, hvalue, hlocked.1 hclosed, hpresides, hlocal _ hdemoted,
    hremote _ hheld⟩

end Bucket
end DataGrid
