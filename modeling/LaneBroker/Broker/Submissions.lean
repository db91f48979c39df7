/-
# Many submissions under one id

What the one ownership check (`existingTicket`) is worth.  Submissions with the same
client-supplied id start, crash and are retried while tickets are admitted, fall back, are
withdrawn and put back, cancelled, reaped and reconciled.  A step is `Careful` when it is
`RecoverySafe`, when an id is taken only with no cancel marker of an earlier submission in place,
and when only a submission whose id no other one holds is signalled.  In every run of careful
steps at most one submission holds an id, none of them is at work on a ticket with a terminal
result, no step begins a ticket that has one, no step of a submission touches the files of
another's ticket, and every cancel marker on a ticket is meant for the submission that holds it
(`submissions_apart`).

Without the condition the old supervisors act on the bare id (`not_forall_keepsOthers`): the
submission whose queued ticket `lane cancel` took out of the queue removes, at its next poll, the
queue file that a retry of the id wrote in between.

The broker's files do not say whom a cancel marker is meant for, so the machine here keeps it
beside them (`Aimed`).
-/

import LaneBroker.Broker.HolderSteps
import LaneBroker.Broker.Placement

namespace LaneBroker

open LaneBroker.Basis

/-! ### Whom a cancel is meant for -/

/-- A live submission past the ownership check of the id. -/
def World.atWork (w : World) (id : TicketId) (p : Proc) : Bool :=
  (w.sups.read p).any fun sup => sup.alive && decide (sup.phase ≠ .submitted) && sup.id = id

/-- A submission that holds the ticket, where there is one. -/
def World.holder (w : World) (id : TicketId) : Option Proc :=
  ((filesFor w.fs id).names ++ (w.sups.entries.map Prod.fst).filter (w.atWork id)).head?

/-- **Whom the cancel markers of a step are meant for**: the process that was signalled, the
supervisor that a `lane cancel` read of, and else the submission that holds the ticket, which is
the process itself where nobody does yet. -/
def aimOf (w : World) (l : Label) (id : TicketId) : Proc :=
  match l.act with
  | .signal => l.actor
  | .callerJudge _ | .callerMark => ((w.callers.read l.actor).bind Caller.aims).getD l.actor
  | _ => (w.holder id).getD l.actor

/-- The file operations that a step performs, all of them or those before its crash. -/
def Move.done (m : Move) (l : Label) : List FileOp :=
  match l.crashAt with
  | none => m.journal
  | some k => m.journal.take k

/-- **The world, and whom the cancel marker of each ticket is meant for.** -/
structure Aimed where
  world : World
  aim : TicketId → Proc

/-- The broker's machine, with the aims kept beside the world. -/
def aimedMachine : Machine Aimed Label where
  start x := brokerMachine.start x.world
  next x l := (move x.world l).map fun m =>
    { world := m.outcome x.world l
      aim := fun id =>
        if .writeCancelMarker id ∈ m.done l then aimOf x.world l id else x.aim id }

/-- **The steps after which an id is one submission's.** -/
structure Careful (x : Aimed) (l : Label) : Prop extends RecoverySafe x.world l where
  /-- An id is taken with no cancel marker that was meant for another submission. -/
  take : ∀ id, Takes x.world l id → isCancelled x.world.fs id = true → x.aim id = l.actor
  /-- Only a submission whose id no other one holds is signalled. -/
  signal : l.act = .signal → ∀ sup, x.world.sups.read l.actor = some sup →
    ∀ p, x.world.Holds sup.id p → p = l.actor

/-! ### What holds of a reached world -/

/-- **Submissions kept apart**, in one state of the system. -/
structure Apart (x : Aimed) : Prop where
  /-- At most one submission holds an id. -/
  sole : ∀ id p q, x.world.Holds id p → x.world.Holds id q → p = q
  /-- None is at work on a ticket with a terminal result. -/
  finished : ∀ p sp, x.world.Claimed p sp → sp.phase.Working →
    x.world.fs.results.read sp.id = none
  /-- A cancel marker on a ticket is meant for the submission that holds it. -/
  aimed : ∀ id p, isCancelled x.world.fs id = true → x.world.Holds id p → x.aim id = p

/-- A step that begins no ticket with a terminal result. -/
def BeginsFresh (w : World) (l : Label) : Prop :=
  ∀ m, move w l = some m →
    BeforeEach (fun op s => ∀ id, op.begins = some id → s.results.read id = none) m.journal w.fs

/-- A step of a submission that leaves the tickets of the others as they were, however much of it
is done. -/
def KeepsOthers (w : World) (l : Label) : Prop :=
  ∀ m sup, w.sups.read l.actor = some sup → move w l = some m →
    ∀ q sq, w.Claimed q sq → q ≠ l.actor → ∀ k,
      filesFor (applyAll (m.journal.take k) w.fs) sq.id = filesFor w.fs sq.id

/-- The invariant: that of the broker's machine, and what the callers and the markers add. -/
structure AimedInv (x : Aimed) : Prop where
  inv : Inv x.world
  sole : ∀ id p q, x.world.Holds id p → x.world.Holds id q → p = q
  callers : ∀ q c p, x.world.callers.read q = some c → c.aims = some p →
    ∀ r, x.world.Holds c.id r → r = p
  aimed : ∀ id p, isCancelled x.world.fs id = true → x.world.Holds id p → x.aim id = p

section Steps

variable {x : Aimed} {w : World} {l : Label} {m : Move} {id : TicketId} {p q : Proc}

theorem atWork_iff : w.atWork id p = true ↔ ∃ sp, w.Claimed p sp ∧ sp.id = id := by
  simp only [World.atWork, Option.any_eq_true, Bool.and_eq_true, decide_eq_true_eq, World.Claimed,
    Supervisor.Claims]
  constructor
  · rintro ⟨sp, hr, ⟨ha, hp⟩, hid⟩
    exact ⟨sp, ⟨hr, ha, hp⟩, hid⟩
  · rintro ⟨sp, ⟨hr, ha, hp⟩, hid⟩
    exact ⟨sp, hr, ⟨ha, hp⟩, hid⟩

theorem mem_holders : p ∈ (filesFor w.fs id).names ++
    (w.sups.entries.map Prod.fst).filter (w.atWork id) ↔ w.Holds id p := by
  rw [List.mem_append, List.mem_filter, atWork_iff, World.Holds]
  refine or_congr_right ⟨fun h => h.2, fun h => ⟨?_, h⟩⟩
  obtain ⟨sp, hsp, -⟩ := h
  exact List.mem_map_of_mem (f := Prod.fst) (Dir.mem_of_read hsp.1)

theorem holds_of_holder (h : w.holder id = some p) : w.Holds id p :=
  mem_holders.1 (List.mem_of_head? h)

/-- The one holder of a ticket. -/
theorem holder_of_holds (hsole : ∀ q, w.Holds id q → q = p) (h : w.Holds id p) :
    w.holder id = some p := by
  have hmem := mem_holders.2 h
  cases hh : w.holder id with
  | none =>
    rw [World.holder, List.head?_eq_none_iff] at hh
    rw [hh] at hmem
    simp at hmem
  | some q => rw [hsole q (holds_of_holder hh)]

theorem fs_outcome (h : Inv w) (hsafe : RecoverySafe w l) (hmove : move w l = some m) :
    (m.outcome w l).fs = applyAll (m.done l) w.fs := by
  have hfs := (stepOk_move h hsafe hmove).fs
  unfold Move.outcome Move.done
  cases l.crashAt with
  | none => exact hfs
  | some k => exact World.kill_fs _ _

/-- **Who holds a ticket after a step** held it before, or takes it. -/
theorem holds_outcome (h : Inv w) (hsafe : RecoverySafe w l) (hmove : move w l = some m)
    (hq : (m.outcome w l).Holds id q) : w.MayHold l id q := by
  have hfair := fair_move h hmove
  rcases hq with hq | ⟨sq, hc, rfl⟩
  · rw [fs_outcome h hsafe hmove] at hq
    have hdone : BeforeEach (Fair (w.MayHold l)) (m.done l) w.fs := by
      unfold Move.done
      split
      · exact hfair
      · exact hfair.take _
    exact (namesIn_mayHold w l).applyAll hdone id q hq
  · unfold Move.outcome at hc
    split at hc
    case h_1 => exact claimed_remember h hsafe hmove hc
    case h_2 k hk =>
      by_cases hqa : q = l.actor
      · subst hqa
        exact absurd hc (World.not_claimed_kill _ _ _)
      · refine .inl (.inr ⟨sq, ?_, rfl⟩)
        rwa [World.Claimed, World.kill_sups _ hqa] at hc

/-- **Whom a caller aims at after a step**, it aimed at before, or a record names it. -/
theorem callers_outcome {c : Caller} (h : Inv w) (hsafe : RecoverySafe w l)
    (hmove : move w l = some m) (hc : (m.outcome w l).callers.read q = some c)
    (hp : c.aims = some p) : w.callers.read q = some c ∨ p ∈ (filesFor w.fs c.id).names := by
  unfold Move.outcome at hc
  split at hc
  case h_1 => exact caller_remember h hsafe hmove hc hp
  case h_2 k hk =>
    rw [World.kill_callers] at hc
    split_ifs at hc
    exact .inl hc

/-- A caller's marker is on the ticket whose record it read. -/
theorem aims_of_marker (hmove : move w l = some m)
    (hact : (∃ gone, l.act = .callerJudge gone) ∨ l.act = .callerMark)
    (hmark : .writeCancelMarker id ∈ m.journal) :
    w.sups.read l.actor = none ∧
      ∃ c p, w.callers.read l.actor = some c ∧ c.id = id ∧ c.aims = some p := by
  unfold move at hmove
  split at hmove
  case h_1 sup hread =>
    exfalso
    split_ifs at hmove
    rcases hact with ⟨gone, hact⟩ | hact <;> simp [supMove, anyMove, hact] at hmove
  case h_2 c hnone hread =>
    refine ⟨hnone, c, ?_⟩
    rcases hact with ⟨gone, hact⟩ | hact
    · cases c <;> simp only [callerMove, hact, reduceCtorEq] at hmove
      case attemptSeen i a o =>
        split_ifs at hmove <;> obtain rfl := Option.some.inj hmove
        · exact ⟨_, hread, (FileOp.writeCancelMarker.inj (List.mem_singleton.1 hmark)).symm, rfl⟩
        · simp [Move.silent] at hmark
        · exact ⟨_, hread, (FileOp.writeCancelMarker.inj (List.mem_singleton.1 hmark)).symm, rfl⟩
      case leaseMarked i lease =>
        split_ifs at hmove <;> obtain rfl := Option.some.inj hmove <;> simp [Move.silent] at hmark
    · cases c <;> simp only [callerMove, hact, reduceCtorEq] at hmove
      case leaseSeen i lease =>
        obtain rfl := Option.some.inj hmove
        exact ⟨_, hread, (FileOp.writeCancelMarker.inj (List.mem_singleton.1 hmark)).symm, rfl⟩
  case h_3 =>
    exfalso
    rcases hact with ⟨gone, hact⟩ | hact <;> simp [anyMove, hact] at hmove

/-- A signal's marker is on the ticket of the submission that is signalled. -/
theorem id_of_signal (hmove : move w l = some m) (hact : l.act = .signal)
    (hmark : .writeCancelMarker id ∈ m.journal) :
    ∃ sup, w.sups.read l.actor = some sup ∧ sup.id = id := by
  unfold move at hmove
  split at hmove
  case h_1 sup hread =>
    split_ifs at hmove
    simp only [supMove, hact] at hmove
    obtain rfl := Option.some.inj hmove
    exact ⟨sup, hread, (FileOp.writeCancelMarker.inj (List.mem_singleton.1 hmark)).symm⟩
  case h_2 c hnone hread => simp [callerMove, hact] at hmove
  case h_3 => simp [anyMove, hact] at hmove

/-- A marker that is in place was there before, or was written. -/
theorem cancelled_applyAll {ops : List FileOp} {s : Broker}
    (h : isCancelled (applyAll ops s) id = true) :
    .writeCancelMarker id ∈ ops ∨ isCancelled s id = true := by
  induction ops generalizing s with
  | nil => exact .inr h
  | cons op ops ih =>
    rcases ih h with hmem | hs
    · exact .inl (List.mem_cons_of_mem _ hmem)
    · by_cases hop : op = .writeCancelMarker id
      · exact .inl (hop ▸ List.mem_cons_self ..)
      · refine .inr ?_
        change isCancelled (op.apply s) id = true at hs
        cases op <;> first | exact hs | skip
        case writeCancelMarker i =>
          have hne : id ≠ i := fun hi => hop (by rw [hi])
          simpa [isCancelled, FileOp.apply, hne] using hs
        case unlinkCancelMarker i =>
          simp only [isCancelled, FileOp.apply, List.contains_iff_mem, List.mem_filter] at hs ⊢
          exact hs.1

theorem mem_journal_of_done {op : FileOp} (h : op ∈ m.done l) : op ∈ m.journal := by
  unfold Move.done at h
  split at h
  · exact h
  · exact List.mem_of_mem_take h

/-- **Whom the markers of a step are meant for** holds the ticket after it, where anyone does. -/
theorem aimOf_eq (h : AimedInv x) (hsafe : Careful x l) (hmove : move x.world l = some m)
    (hmark : .writeCancelMarker id ∈ m.journal) (hp : x.world.MayHold l id p) :
    aimOf x.world l id = p := by
  have hrest : (x.world.holder id).getD l.actor = p := by
    rcases hp with hp | ⟨rfl, ht⟩
    · rw [holder_of_holds (fun q hq => h.sole id q p hq hp) hp]
      rfl
    · cases hh : x.world.holder id with
      | none => rfl
      | some q => exact absurd (holds_of_holder hh) (ht.not_holds (hsafe.submit id ht))
  have hcaller : ((∃ gone, l.act = .callerJudge gone) ∨ l.act = .callerMark) →
      ((x.world.callers.read l.actor).bind Caller.aims).getD l.actor = p := fun hact => by
    obtain ⟨hnone, c, r, hread, rfl, hr⟩ := aims_of_marker hmove hact hmark
    rw [hread, Option.bind_some, hr]
    rcases hp with hp | ⟨-, sup, hsup, -⟩
    · exact (h.callers _ c r hread hr p hp).symm
    · rw [hnone] at hsup
      cases hsup
  unfold aimOf
  split
  case h_1 hact =>
    obtain ⟨sup, hread, rfl⟩ := id_of_signal hmove hact hmark
    rcases hp with hp | ⟨rfl, -⟩
    · exact (hsafe.signal hact sup hread p hp).symm
    · rfl
  case h_2 gone hact => exact hcaller (.inl ⟨gone, hact⟩)
  case h_3 hact => exact hcaller (.inr hact)
  case h_4 => exact hrest

/-- **A careful step keeps the submissions apart.** -/
theorem AimedInv.step {x' : Aimed} (h : AimedInv x) (hsafe : Careful x l)
    (hnext : aimedMachine.next x l = some x') : AimedInv x' := by
  obtain ⟨m, hmove, rfl⟩ := Option.map_eq_some_iff.1 hnext
  have hnextw : brokerMachine.next x.world l = some (m.outcome x.world l) := by
    change (move x.world l).map _ = _
    rw [hmove]
    rfl
  have hold : ∀ id q, (m.outcome x.world l).Holds id q → x.world.MayHold l id q := fun id q =>
    holds_outcome h.inv hsafe.toRecoverySafe hmove
  have hnobody : ∀ id q, Takes x.world l id → ¬ x.world.Holds id q := fun id q ht =>
    ht.not_holds (hsafe.submit id ht)
  refine ⟨inv_step h.inv hsafe.toRecoverySafe hnextw, fun id p q hp hq => ?_,
    fun q c p hc hp r hr => ?_, fun id p hcan hp => ?_⟩
  · rcases hold id p hp with hp | ⟨rfl, hpt⟩ <;> rcases hold id q hq with hq | ⟨rfl, hqt⟩
    · exact h.sole id p q hp hq
    · exact absurd hp (hnobody id p hqt)
    · exact absurd hq (hnobody id q hpt)
    · rfl
  · rcases callers_outcome h.inv hsafe.toRecoverySafe hmove hc hp with hc | hnamed
    · rcases hold _ r hr with hr | ⟨-, ht⟩
      · exact h.callers q c p hc hp r hr
      · exact absurd rfl ((hsafe.submit _ ht).2 q c hc (Caller.holds_of_aims hp))
    · rcases hold _ r hr with hr | ⟨-, ht⟩
      · exact h.sole _ r p hr (.inl hnamed)
      · exact absurd (.inl hnamed) (hnobody _ p ht)
  · change (if FileOp.writeCancelMarker id ∈ m.done l then aimOf x.world l id else x.aim id) = p
    rw [fs_outcome h.inv hsafe.toRecoverySafe hmove] at hcan
    split_ifs with hmark
    · exact aimOf_eq h hsafe hmove (mem_journal_of_done hmark) (hold id p hp)
    · have hthere := (cancelled_applyAll hcan).resolve_left hmark
      rcases hold id p hp with hp | ⟨rfl, ht⟩
      · exact h.aimed id p hthere hp
      · exact hsafe.take id ht hthere

theorem AimedInv.start (h : aimedMachine.start x) : AimedInv x := by
  have hw : x.world = ⟨.init, .empty, .empty⟩ := h
  have hnobody : ∀ id p, ¬ x.world.Holds id p := by
    rintro id p (hn | ⟨sp, hsp, -⟩)
    · rw [hw] at hn
      rcases TicketFiles.mem_names.1 hn with ⟨e, he, -⟩ | ⟨e, he, -⟩ | ⟨e, he, -⟩
      · exact absurd he (by simp [filesFor, Broker.init, filesOf, Dir.empty])
      · exact absurd he (by simp [filesFor, Broker.init])
      · exact absurd he (by simp [filesFor, Broker.init])
    · rw [hw] at hsp
      exact absurd hsp.1 (by simp)
  refine ⟨inv_start h, fun id p q hp => absurd hp (hnobody id p), fun q c p hc => ?_,
    fun id p _ hp => absurd hp (hnobody id p)⟩
  rw [hw] at hc
  exact absurd hc (by simp)

theorem aimedInv_of_reach (h : aimedMachine.Reach Careful x) : AimedInv x :=
  h.invariant (fun _ => AimedInv.start) fun _ _ _ => AimedInv.step

theorem AimedInv.apart (h : AimedInv x) : Apart x where
  sole := h.sole
  finished p sp hc hph := (h.inv.owned p sp hc).phase.result hph
  aimed := h.aimed

theorem AimedInv.keepsOthers (h : AimedInv x) (hsafe : Careful x l) : KeepsOthers x.world l := by
  intro m sup hread hmove q sq hq hne k
  refine filesFor_applyAll_of_ne fun op hop hid => ?_
  rcases touches_move h.inv hread hmove op (List.mem_of_mem_take hop) _ hid with
    (⟨sp, hsp, hsid⟩ | ht) | hun
  · exact hne (h.inv.unique q l.actor sq sp hq hsp hsid.symm)
  · exact (hsafe.submit _ ht).1 q sq hq rfl
  · exact hun q sq hq rfl

end Steps

/-- **In every run of careful steps the submissions of an id are kept apart**, no careful step
begins a ticket that has a terminal result, and none of a submission touches another's ticket. -/
theorem submissions_apart {x : Aimed} (h : aimedMachine.Reach Careful x) :
    Apart x ∧ ∀ l, Careful x l → BeginsFresh x.world l ∧ KeepsOthers x.world l := by
  have hinv := aimedInv_of_reach h
  refine ⟨hinv.apart, fun l hsafe => ⟨fun m hmove => ?_, hinv.keepsOthers hsafe⟩⟩
  exact (fair_move hinv.inv hmove).mono fun op s hf id hid => hf.begins id hid

/-- A check that a step is careful: nothing crashes or is signalled, and where an id may be taken
nobody is at work and no marker of the id is in place. -/
def carefulStep (x : Aimed) (l : Label) : Bool :=
  l.crashAt.isNone && decide (l.act ≠ .signal) &&
    (x.world.sups.read l.actor).all fun sup =>
      decide (sup.phase ≠ .submitted) || (existingTicket x.world.fs sup.id none).isSome ||
        (x.world.sups.entries.all fun e => e.2.phase = .submitted) &&
          x.world.callers.entries.isEmpty && !isCancelled x.world.fs sup.id

theorem careful_of_check (x : Aimed) (l : Label) (h : carefulStep x l = true) : Careful x l := by
  simp only [carefulStep, Bool.and_eq_true, Option.isNone_iff_eq_none, decide_eq_true_eq] at h
  obtain ⟨⟨hcrash, hact⟩, hall⟩ := h
  have hcomplete : ∀ P, ¬ CrashesWhere x.world l P := by
    rintro P ⟨m, k, op, -, hk, -⟩
    rw [hcrash] at hk
    cases hk
  have htake : ∀ id, Takes x.world l id → (∀ e ∈ x.world.sups.entries, e.2.phase = .submitted) ∧
      x.world.callers.entries = [] ∧ isCancelled x.world.fs id = false := by
    rintro id ⟨sup, hread, rfl, hph, he, -⟩
    rw [hread] at hall
    simpa [hph, he, and_assoc] using hall
  refine ⟨⟨hcomplete _, hcomplete _, fun id ht => ⟨fun q sq hq _ => ?_, fun q c hc => ?_⟩⟩,
    fun id ht hc => ?_, fun hs => absurd hs hact⟩
  · exact hq.2.2 ((htake id ht).1 _ (Dir.mem_of_read hq.1))
  · have hmem := Dir.mem_of_read hc
    rw [(htake id ht).2.1] at hmem
    simp at hmem
  · rw [(htake id ht).2.2] at hc
    cases hc

/-- Two submissions of one id: the second one is told that the first has the ticket, which then
starts. -/
def resubmitted : List Label :=
  [⟨1, .launch 7 false, none⟩, ⟨1, .enqueue 0 [] remoteCancelledResult, none⟩,
    ⟨2, .launch 7 false, none⟩, ⟨2, .enqueue 0 [] remoteCancelledResult, none⟩,
    ⟨1, .tryStart true [2] [] 1, none⟩]

theorem submissions_apart_resubmitted :
    ∃ x : Aimed, x.world.fs.leases.read 7 = some ⟨7, 1, .running⟩ ∧
      Apart x ∧ ∀ l, Careful x l → BeginsFresh x.world l ∧ KeepsOthers x.world l := by
  have halong : aimedMachine.Along Careful ⟨⟨.init, .empty, .empty⟩, fun _ => 0⟩ resubmitted :=
    Machine.along_of_check carefulStep careful_of_check resubmitted (by decide +kernel)
  obtain ⟨x, hx, hlease⟩ := Machine.exists_reach_of_exec aimedMachine
    ⟨⟨.init, .empty, .empty⟩, fun _ => 0⟩ resubmitted
    (fun x => x.world.fs.leases.read 7 = some ⟨7, 1, .running⟩) rfl halong (by decide +kernel)
  exact ⟨x, by simpa using hlease, submissions_apart hx⟩

/-- A queued submission is cancelled, and the id is submitted again before the first one's next
poll. -/
def cancelledAndRetried : List Label :=
  [⟨1, .launch 7 false, none⟩, ⟨1, .enqueue 0 [] remoteCancelledResult, none⟩,
    ⟨3, .cancelCommand 7, none⟩, ⟨2, .launch 7 false, none⟩,
    ⟨2, .enqueue 1 [] remoteCancelledResult, none⟩]

/-- **The cancelled submission takes the retry's ticket out of the queue**, which it dequeues by the
bare id. -/
theorem not_forall_keepsOthers :
    ¬ ∀ w, brokerMachine.Reach (fun _ _ => True) w → ∀ l, KeepsOthers w l := by
  intro h
  have hreach : ∀ w, brokerMachine.exec ⟨.init, .empty, .empty⟩ cancelledAndRetried = some w →
      brokerMachine.Reach (fun _ _ => True) w := fun w hw =>
    Machine.reach_of_exec _ (.start rfl) (Machine.along_of_forall (fun _ _ => trivial) _ _) hw
  have hkept := congrArg TicketFiles.queued <| h _ (hreach _ rfl) ⟨1, .leaveQueue, none⟩ _ ⟨7, false, none, .queued, true⟩ rfl rfl
    2 ⟨7, false, none, .queued, true⟩ ⟨rfl, rfl, by simp⟩ (by decide) 1
  revert hkept
  decide

end LaneBroker
