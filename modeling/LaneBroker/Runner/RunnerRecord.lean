/-
# What a runner's record proves to the submitter

The submitter settles a ticket by the record it fetches from the runner (the end of
`dispatchRemote`, and `adoptOrAmbiguous` after a restart).  A record that says that nothing ran
lets it run the job somewhere else, while the exec, the supervisor and requests of the ticket
may go on over there.  `Truthful` is what the runner has to keep for that: whatever says so, a
lane's result, what the exec remembers of it, or the published record, says so of a ticket
that is barred.
-/

import LaneBroker.Runner.Barred

namespace LaneBroker
namespace Runner
namespace RunnerRecord

open LaneBroker.Basis

/-! ### The submitter -/

/-- `PIPELINE_PHASES`, and what is none of them. -/
inductive Phase
  | deps
  | setup
  | command
  | other (text : String)
  deriving DecidableEq

/-- What a record is bound to. -/
structure Binding where
  protocol : ℕ
  ticketId : String
  generation : String
  manifestHash : Option String
  deriving DecidableEq

/-- **A record as it is fetched**, as far as it is read. -/
structure Fetched where
  binding : Binding
  record : TicketRecord
  /-- The signal, where it is not empty. -/
  signal : Option String
  phase : Option Phase
  queuedMs : Option ℕ
  runMs : Option ℕ

/-- `servedRecord`: every process of an earlier boot is gone. -/
def servedRecord (rebooted : Bool) (r : TicketRecord) : TicketRecord :=
  if r.kind = .unfinished ∧ r.reason = some .runnerShutdownUnproven ∧ rebooted then
    { r with reason := some .runnerShutdown }
  else r

/-- Why a record settles nothing. -/
inductive Unusable
  | unbound
  | signalBesideExitZero
  | exitNotInteger
  | unrecognizedPhase (phase : Option Phase)
  | exitZeroOutsideCommand (phase : Option Phase)
  | kind (kind : Kind) (reason : Option Reason)
  deriving DecidableEq

inductive Classified
  | unconfirmed (reason : Unusable)
  | confirmed (exitCode : ℕ) (phase : Option Phase) (green : Bool)
  deriving DecidableEq

/-- A command that a signal ended exits with 1. -/
def Fetched.exitCode (f : Fetched) : Option ℕ := if f.signal.isSome then some 1 else f.record.exit

/-- **`classifyRemoteResult`.** -/
def classifyRemoteResult (f : Fetched) (expected : Binding) : Classified :=
  if f.binding ≠ expected then .unconfirmed .unbound
  else
    match f.record.kind with
    | .completed =>
      if f.binding.protocol = 2 then
        if f.record.exit = some 0 ∧ f.signal.isSome then .unconfirmed .signalBesideExitZero
        else
          match f.exitCode, f.phase with
          | none, _ => .unconfirmed .exitNotInteger
          | some _, none => .unconfirmed (.unrecognizedPhase none)
          | some _, some (.other text) => .unconfirmed (.unrecognizedPhase (some (.other text)))
          | some exitCode, some phase =>
            if exitCode = 0 ∧ phase ≠ .command then
              .unconfirmed (.exitZeroOutsideCommand (some phase))
            else .confirmed exitCode (some phase) (exitCode = 0 && phase = .command)
      else
        match f.exitCode with
        | none => .unconfirmed .exitNotInteger
        | some exitCode => .confirmed exitCode none (exitCode = 0)
    | .refused =>
      match f.record.exit with
      | none => .unconfirmed .exitNotInteger
      | some exitCode => .confirmed exitCode none false
    | .cancelled => .confirmed 130 none false
    | kind => .unconfirmed (.kind kind f.record.reason)

def isWithdrawnRecord (f : Fetched) (expected : Binding) : Bool :=
  f.binding = expected && f.record.kind = .unfinished && f.record.reason = some .withdrawn

/-- The shape that older runners published of a queued ticket whose supervisor died. -/
def isLegacyDeadQueuedRecord (f : Fetched) : Bool :=
  f.binding.protocol = 2 && f.record.kind = .completed && f.record.exit = some 75 &&
    f.signal.isNone && f.phase.isNone && f.queuedMs.isNone && f.runMs.isNone

/-- The reasons of a lane that left the queue unstarted. -/
def leftQueue (reason : Option Reason) : Bool :=
  reason = some .queueTimeout || reason = some .withdrawn ||
    reason = some .supervisorDiedWhileQueued

/-- The record says that nothing ran. -/
def saysNothingRan (r : TicketRecord) : Bool :=
  r.kind = .rejected || r.kind = .unfinished && leftQueue r.reason

/-- **`provesNeverStarted`.** -/
def provesNeverStarted (f : Fetched) (expected : Binding) : Bool :=
  f.binding = expected && (saysNothingRan f.record || isLegacyDeadQueuedRecord f)

/-- **`provesStopped`.** -/
def provesStopped (f : Fetched) (expected : Binding) : Bool :=
  f.binding = expected && f.record.kind = .unfinished && f.record.reason = some .runnerShutdown

/-- What an unconfirmed outcome says of the job. -/
inductive Fate
  | unsaid
  | neverStarted (rejected : Bool)
  | runnerStopped
  | mayStillBeRunning
  deriving DecidableEq

inductive Outcome
  | confirmed (exitCode : ℕ) (phase : Option Phase)
  | moved
  | unconfirmed (reason : Unusable) (fate : Fate)
  deriving DecidableEq

/-- What a dispatch knows when it has the record. -/
structure Dispatch where
  attemptedTarget : Bool
  confirmedExpiryCancel : Bool
  unconfirmedCancel : Bool

/-- **The end of `dispatchRemote`**: what it returns of the record. -/
def settle (d : Dispatch) (f : Fetched) (expected : Binding) : Outcome :=
  match classifyRemoteResult f expected with
  | .confirmed exitCode phase _ => .confirmed exitCode phase
  | .unconfirmed reason =>
    if d.attemptedTarget && isWithdrawnRecord f expected then .moved
    else if d.confirmedExpiryCancel then .unconfirmed reason .unsaid
    else if provesNeverStarted f expected && !d.unconfirmedCancel then
      .unconfirmed reason (.neverStarted (f.record.kind = .rejected))
    else if provesStopped f expected && !d.unconfirmedCancel then
      .unconfirmed reason .runnerStopped
    else .unconfirmed reason .mayStillBeRunning

/-- What becomes of an attempt that is found after a restart. -/
inductive Adoption
  | ambiguous
  | neverStarted
  | runnerStopped
  | adopted (exitCode : ℕ)
  deriving DecidableEq

/-- **`adoptOrAmbiguous`.** -/
def adoptOrAmbiguous (binding : Option Binding) (f : Fetched) : Adoption :=
  match binding with
  | none => .ambiguous
  | some expected =>
    match classifyRemoteResult f expected with
    | .confirmed exitCode _ _ => .adopted exitCode
    | .unconfirmed _ =>
      if provesNeverStarted f expected then .neverStarted
      else if provesStopped f expected then .runnerStopped
      else .ambiguous

/-- The submitter may run the job again: the ticket moves, or never started. -/
def Outcome.runsElsewhere : Outcome → Bool
  | .moved | .unconfirmed _ (.neverStarted _) => true
  | _ => false

/-! ### What the runner keeps -/

/-- The files say that nothing ran: the lane's result, or the record. -/
def claims (s : Files) : Bool :=
  s.lane.result.any (fun r => leftQueue r.reason) || (s.dir.bind (·.result)).any saysNothingRan

/-- The operation writes that nothing ran. -/
def opClaims : RunnerOp → Bool
  | .onLane (.writeResult r) => leftQueue r.reason
  | .inDir (.writeResult r) => saysNothingRan r
  | _ => false

/-- The exec remembers that nothing ran. -/
def execClaims : ExecPhase → Bool
  | .judging _ _ structured => structured.any fun r => leftQueue r.reason
  | .publishing r => saysNothingRan r
  | _ => false

/-- **Who says that nothing ran says so of a ticket that is barred.** -/
def Truthful (t : Ticket) : Prop :=
  claims t.files = true ∨ execClaims t.exec = true → standing t = .barred

section Steps

variable {t t' : Ticket} {w w' : World} {es : List RunnerOp}

theorem claims_apply {op : RunnerOp} {s : Files} (h : claims (op.apply s) = true) :
    claims s = true ∨ opClaims op = true := by
  cases op with
  | onLane op =>
    cases op with
    | writeResult r =>
      obtain h | h := Bool.or_eq_true_iff.1 h
      · exact .inr h
      · exact .inl (Bool.or_eq_true_iff.2 (.inr h))
    | _ => exact .inl h
  | inDir op =>
    cases hd : s.dir with
    | none =>
      rw [RunnerOp.apply, hd, Option.map_none, ← hd] at h
      exact .inl h
    | some d =>
      rw [RunnerOp.apply, hd, Option.map_some] at h
      obtain h | h := Bool.or_eq_true_iff.1 h
      · exact .inl (Bool.or_eq_true_iff.2 (.inl h))
      · cases op with
        | writeResult r => exact .inr h
        | _ => exact .inl (Bool.or_eq_true_iff.2 (.inr (by rw [hd]; exact h)))
  | mkdirTicket =>
    obtain h | h := Bool.or_eq_true_iff.1 h
    · exact .inl (Bool.or_eq_true_iff.2 (.inl h))
    · cases h
  | _ => exact .inl h

theorem claims_applyAll {s : Files} (h : claims (applyAll es s) = true) :
    claims s = true ∨ ∃ op ∈ es, opClaims op = true := by
  induction es generalizing s with
  | nil => exact .inl h
  | cons op es ih =>
    obtain h | ⟨o, ho, hclaims⟩ := ih h
    · exact (claims_apply h).imp_right fun h => ⟨op, List.mem_cons_self .., h⟩
    · exact .inr ⟨o, List.mem_cons_of_mem _ ho, hclaims⟩

theorem claims_perform {crashAt : Option ℕ} (h : claims (t.perform es crashAt).files = true) :
    claims t.files = true ∨ ∃ op ∈ es, opClaims op = true := by
  cases crashAt with
  | none => exact claims_applyAll h
  | some k =>
    exact (claims_applyAll h).imp_right fun ⟨op, hop, hclaims⟩ =>
      ⟨op, List.mem_of_mem_take hop, hclaims⟩

theorem perform_exec (t : Ticket) (es : List RunnerOp) (crashAt : Option ℕ) :
    (t.perform es crashAt).exec = t.exec := by
  cases crashAt <;> rfl

/-- **Operations write that nothing ran only where it is so.** -/
def JournalTruthful (t : Ticket) (es : List RunnerOp) : Prop :=
  ∀ op ∈ es, opClaims op = true → standing t = .barred

theorem journalTruthful_nil : JournalTruthful t [] := fun _ hop => absurd hop List.not_mem_nil

theorem journalTruthful_single {op : RunnerOp} (h : opClaims op = true → standing t = .barred) :
    JournalTruthful t [op] := by
  intro op' hop
  obtain rfl := List.mem_singleton.1 hop
  exact h

theorem journalTruthful_silent {op : RunnerOp} (h : opClaims op = false) :
    JournalTruthful t [op] := by
  refine journalTruthful_single fun hclaims => ?_
  rw [h] at hclaims
  cases hclaims

theorem journalTruthful_free (h : ∀ op ∈ es, op.free = true) : JournalTruthful t es := by
  intro op hop hclaims
  have hfree := h op hop
  cases op with
  | onLane op | inDir op => cases op <;> first | cases hclaims | cases hfree
  | _ => cases hclaims

/-- What is said of a ticket that was barred is true of it for ever. -/
theorem Truthful.forward (h : Truthful t) (hl : t.Leads t') (crashAt : Option ℕ)
    (hfiles : t'.files = (t.perform es crashAt).files) (hes : JournalTruthful t es)
    (hexec : execClaims t'.exec = true →
      execClaims t.exec = true ∨ standing t = .barred ∨ standing t' = .barred) : Truthful t' := by
  rintro (hclaims | hclaims)
  · rw [hfiles] at hclaims
    obtain hclaims | ⟨op, hop, hclaims⟩ := claims_perform hclaims
    · exact hl.2.barred (h (.inl hclaims))
    · exact hl.2.barred (hes op hop hclaims)
  · obtain hbefore | hbarred | hbarred := hexec hclaims
    · exact hl.2.barred (h (.inr hbefore))
    · exact hl.2.barred hbarred
    · exact hbarred

theorem leftQueue_shutdownStopReason (cancelled shutdown refused unstarted : Bool)
    (structured : Option LaneResult) :
    leftQueue (shutdownStopReason cancelled shutdown refused unstarted structured) = false := by
  unfold shutdownStopReason
  split_ifs
  · rfl
  · rfl
  · split
    · rfl
    · split_ifs <;> rfl

/-- The ticket's record says that nothing ran only where the lane's result does. -/
theorem leftQueue_of_ticketRecord {cancelled shutdown refused unstarted : Bool}
    {structured : Option LaneResult} {exitCode : ℕ}
    (h : saysNothingRan (ticketRecord cancelled shutdown refused unstarted structured exitCode) =
      true) : structured.any (fun r => leftQueue r.reason) = true := by
  by_contra hnot
  have hreason : leftQueue (structured.bind (·.reason)) = false := by
    cases structured with
    | none => rfl
    | some r => simpa using hnot
  simp only [leftQueue, Bool.or_eq_false_iff, decide_eq_false_iff_not] at hreason
  obtain ⟨⟨hlate, hwithdrawn⟩, hdied⟩ := hreason
  revert h
  simp only [ticketRecord, hlate, hwithdrawn, hdied, false_and, if_false]
  split
  · rename_i reason hstop
    have hnone := leftQueue_shutdownStopReason cancelled shutdown refused unstarted structured
    rw [hstop] at hnone
    simp [saysNothingRan, hnone]
  · split
    · cases cancelled <;> simp [saysNothingRan]
    · split_ifs <;> simp [saysNothingRan, leftQueue]

/-- The exec says that nothing ran where it rejected the ticket, or the lane's result does. -/
theorem execMove_truthful {a : ExecAct} {m : TicketMove} (hc : Coherent t) (h : Truthful t)
    (hm : execMove t a = some m) :
    let t' := m.remember (t.perform m.journal none)
    JournalTruthful t m.journal ∧ t'.files = (t.perform m.journal none).files ∧
      (execClaims t'.exec = true →
        execClaims t.exec = true ∨ standing t = .barred ∨ standing t' = .barred) := by
  have hdir (hne : t.exec ≠ .absent) : t.files.dir.isSome = true :=
    Option.isSome_iff_ne_none.2 fun hnone => hne (hc.untaken.2 hnone)
  unfold execMove at hm
  split at hm
  case h_1 =>
    cases hm
    obtain ⟨hv, hj⟩ | ⟨-, -, hv, hj⟩ := intake_spec t.files
    · simp only [Ticket.inSection, hv, hj, if_false]
      exact ⟨journalTruthful_nil, rfl, .inl⟩
    · simp only [Ticket.inSection, hv, hj, if_true]
      exact ⟨journalTruthful_silent rfl, rfl,
        fun hclaims => by cases hclaims⟩
  case h_2 hexec =>
    split_ifs at hm
    cases hm
    refine ⟨journalTruthful_nil, rfl, fun _ => .inr (.inr ?_)⟩
    exact barred_toExec_over hc (hdir (by simp [hexec])) (hc.unspawned (by rw [hexec]; decide)) rfl
  case h_4 hexec =>
    cases hm
    obtain ⟨d, hd⟩ := Option.isSome_iff_exists.1 (hdir (by simp [hexec]))
    refine ⟨fun op hop hclaims => ?_, rfl, fun hclaims => ?_⟩
    · simp only [Ticket.inSection, (onTicketCreated_spec hd).2] at hop
      split_ifs at hop <;> simp at hop <;> rcases hop with rfl | rfl <;> cases hclaims
    · simp only [Ticket.inSection, toExec] at hclaims
      split_ifs at hclaims <;> cases hclaims
  case h_7 | h_11 =>
    split_ifs at hm
    cases hm
    exact ⟨journalTruthful_nil, rfl, fun hclaims => by cases hclaims⟩
  case h_8 =>
    cases hm
    exact ⟨journalTruthful_nil, rfl, fun hclaims =>
      .inr (.inl (h (.inl (Bool.or_eq_true_iff.2 (.inl hclaims)))))⟩
  case h_9 hexec =>
    cases hm
    exact ⟨journalTruthful_nil, rfl, fun hclaims =>
      .inl (by rw [hexec]; exact leftQueue_of_ticketRecord hclaims)⟩
  case h_10 r hexec =>
    cases hm
    exact ⟨journalTruthful_single fun hclaims => h (.inr (by rw [hexec]; exact hclaims)), rfl,
      fun hclaims => by cases hclaims⟩
  case h_12 => cases hm
  all_goals
    cases hm
    exact ⟨journalTruthful_nil, rfl, fun hclaims => by cases hclaims⟩

/-- The supervisor says that nothing ran where it gives up a lane that it did not start. -/
theorem supMove_truthful {a : SupAct} {m : TicketMove} (hc : Coherent t)
    (hm : supMove t a = some m) : JournalTruthful t m.journal ∧
      ∀ u, (m.remember u).files = u.files ∧ (m.remember u).exec = u.exec := by
  unfold supMove at hm
  split at hm
  all_goals try split_ifs at hm
  all_goals cases hm
  all_goals refine ⟨?_, fun u => ⟨rfl, rfl⟩⟩
  case h_2 =>
    obtain ⟨-, hj⟩ | ⟨-, hj⟩ := enqueueLane_spec t.files
    · simp only [Ticket.inSection, hj]
      exact journalTruthful_silent rfl
    · simp only [Ticket.inSection, hj]
      exact journalTruthful_nil
  case h_5 late admitted unlinked hsup =>
    obtain ⟨-, -, hj⟩ | ⟨-, hfree⟩ := tryStartLane_spec late admitted unlinked t.files
    · simp only [Ticket.inSection, hj]
      exact journalTruthful_free (by simp [RunnerOp.free])
    · exact journalTruthful_free hfree
  case h_9 => exact journalTruthful_free (dequeueThenRead_free _ _)
  case h_13 r hsup =>
    refine journalTruthful_single fun _ => ?_
    exact barred_of_over (hc.of_sup (by simp [hsup])).1 (by rw [hsup]; rfl)
      (hc.unstarted (by rw [hsup]; rfl))
  case h_17 op ops hsup =>
    obtain ⟨how, hops⟩ : SupPhase.Knows (.ending (op :: ops)) := hsup ▸ hc.supKnows
    refine journalTruthful_single fun hclaims => ?_
    have hop := hops op (List.mem_cons_self ..)
    simp only [endingOps, List.mem_cons, List.not_mem_nil, or_false] at hop
    obtain rfl | rfl | rfl := hop
    · cases how <;> cases hclaims
    · cases hclaims
    · cases hclaims
  all_goals
    first
    | exact journalTruthful_nil
    | exact journalTruthful_free (dequeueLane_free _ _)
    | exact journalTruthful_silent rfl

theorem journalTruthful_tombstone :
    JournalTruthful t (tombstoneAbsentTicket.journal t.files) := by
  obtain ⟨-, -, hj⟩ | ⟨-, -, hj⟩ := tombstoneAbsentTicket_spec t.files
  · exact hj ▸ journalTruthful_nil
  · exact hj ▸ journalTruthful_silent rfl

/-- What a request settles for a supervisor that is gone says that it was cancelled. -/
theorem requestMove_truthful {a : RequestAct} {r : Request} {m : RequestMove} (hk : r.Knows t)
    (hm : requestMove t a r = some m) : JournalTruthful t m.journal := by
  unfold requestMove at hm
  split at hm
  all_goals cases hm
  case h_1 | h_5 => exact journalTruthful_tombstone
  case h_3 unlinked =>
    have hfree := journalTruthful_free (t := t) (dequeueLane_free unlinked t.files)
    obtain ⟨-, -, hj⟩ | ⟨-, -, hj⟩ | ⟨-, hj⟩ := withdrawLane_spec unlinked t.files
    · simp only [Ticket.asks, hj]
      exact journalTruthful_nil
    · simp only [Ticket.asks, hj]
      exact List.forall_mem_cons.2 ⟨(fun hclaims => by cases hclaims), hfree⟩
    · simp only [Ticket.asks, hj]
      exact journalTruthful_nil
  case h_6 fault =>
    refine journalTruthful_free ?_
    obtain ⟨-, hj⟩ | ⟨-, -, hj⟩ | ⟨-, -, hj⟩ := markCancelled_spec fault t.files <;>
      simp [Ticket.asks, hj, RunnerOp.free]
  case h_7 =>
    refine journalTruthful_free ?_
    obtain ⟨-, -, hj⟩ | ⟨-, -, hj⟩ := cancelQueuedLane_spec t.files <;>
      simp [Ticket.asks, hj, RunnerOp.free]
  case h_12 why op ops =>
    have hop := hk.2 op (List.mem_cons_self ..)
    simp only [orphanOps, List.mem_cons, List.not_mem_nil, or_false] at hop
    obtain rfl | rfl := hop <;> exact journalTruthful_silent rfl
  all_goals
    first
    | exact journalTruthful_nil
    | exact journalTruthful_silent rfl

theorem arrivalMove_truthful {a : RequestAct} {m : RequestMove} (hm : arrivalMove t a = some m) :
    JournalTruthful t m.journal := by
  unfold arrivalMove at hm
  split at hm
  all_goals cases hm
  case h_4 => exact journalTruthful_free (shutdownTicket_free t.files)
  all_goals exact journalTruthful_nil

/-- Another process says that nothing ran where it reaps a lane from the queue. -/
theorem hostMove_truthful {a : HostAct} (hc : Coherent t) (hm : hostMove t a = some es) :
    JournalTruthful t es := by
  unfold hostMove at hm
  split at hm
  case h_1 =>
    split_ifs at hm with hgone
    cases hm
    cases hq : t.files.lane.queued with
    | false => simpa [reapQueuedLane, hq] using journalTruthful_nil
    | true =>
      intro op hop hclaims
      exact barred_of_over (hc.of_sup (by simp [hgone])).1 (by rw [hgone]; rfl) (hc.queued hq).2.2
  all_goals try split_ifs at hm
  all_goals
    cases hm
    exact journalTruthful_silent rfl

/-- **Every step keeps what is said truthful.** -/
theorem Truthful.next (h : Truthful w.ticket) (hi : Inv w) {l : Label}
    (hn : w.next l = some w') : Truthful w'.ticket := by
  have hl := (world_step hi hn).2
  unfold World.next at hn
  split at hn
  · rename_i a _
    obtain ⟨m, hm, rfl⟩ := Option.map_eq_some_iff.1 hn
    obtain ⟨hes, hfiles, hexec⟩ := execMove_truthful hi.ticket h hm
    cases hcrash : l.crashAt with
    | none =>
      rw [hcrash] at hl
      exact h.forward hl none hfiles hes hexec
    | some k =>
      rw [hcrash] at hl
      refine h.forward hl (some k) ?_ hes ?_
      · simp only [TicketMove.outcome, Ticket.killExec]
        split_ifs <;> rfl
      · simp only [TicketMove.outcome, Ticket.killExec]
        split_ifs
        · exact .inl
        · exact fun hclaims => by cases hclaims
  · obtain ⟨m, hm, rfl⟩ := Option.map_eq_some_iff.1 hn
    obtain ⟨hes, hsame⟩ := supMove_truthful hi.ticket hm
    cases hcrash : l.crashAt with
    | none =>
      rw [hcrash] at hl
      refine h.forward hl none (hsame _).1 hes fun hclaims => .inl ?_
      rwa [TicketMove.outcome, (hsame _).2] at hclaims
    | some k =>
      rw [hcrash] at hl
      exact h.forward hl (some k) rfl hes .inl
  · rename_i k a _
    obtain ⟨m, hm, rfl⟩ := Option.map_eq_some_iff.1 hn
    have hes : JournalTruthful w.ticket m.journal := by
      cases hr : w.requests.read k with
      | some r =>
        rw [hr] at hm
        exact requestMove_truthful (hi.requests k r hr) hm
      | none =>
        rw [hr] at hm
        exact arrivalMove_truthful hm
    exact h.forward hl l.crashAt rfl hes fun hclaims => .inl (by rwa [perform_exec] at hclaims)
  · obtain ⟨journal, hm, rfl⟩ := Option.map_eq_some_iff.1 hn
    exact h.forward hl l.crashAt rfl (hostMove_truthful hi.ticket hm) fun hclaims =>
      .inl (by rwa [perform_exec] at hclaims)

theorem truthful_reach (h : runnerMachine.Reach anyStep w) : Truthful w.ticket := by
  have hboth : Inv w ∧ Truthful w.ticket := by
    refine h.invariant (P := fun w => Inv w ∧ Truthful w.ticket) (fun w hw => ?_)
      fun w l w' hw _ hn => ⟨(world_step hw.1 hn).1, hw.2.next hw.1 hn⟩
    subst hw
    refine ⟨inv_reach (.start rfl), ?_⟩
    rintro (hclaims | hclaims) <;> cases hclaims
  exact hboth.2

end Steps

/-! ### What the record proves -/

/-- The record of a ticket is served. -/
def Serves (t : Ticket) (f : Fetched) : Prop :=
  ∃ d r rebooted, t.files.dir = some d ∧ d.result = some r ∧ f.record = servedRecord rebooted r

theorem saysNothingRan_servedRecord (rebooted : Bool) (r : TicketRecord) :
    saysNothingRan (servedRecord rebooted r) = saysNothingRan r := by
  unfold servedRecord
  split_ifs with h
  · simp [saysNothingRan, leftQueue, h.1, h.2.1]
  · rfl

theorem provesNeverStarted_of_runsElsewhere {d : Dispatch} {f : Fetched} {expected : Binding}
    (h : (settle d f expected).runsElsewhere = true) : provesNeverStarted f expected = true := by
  unfold settle at h
  split at h
  · cases h
  · split_ifs at h with hmoved hcancelled hproves
    · simp only [isWithdrawnRecord, Bool.and_eq_true, decide_eq_true_eq] at hmoved
      obtain ⟨-, ⟨hbound, hkind⟩, hreason⟩ := hmoved
      simp [provesNeverStarted, saysNothingRan, leftQueue, hbound, hkind, hreason]
    · cases h
    · exact (Bool.and_eq_true_iff.1 hproves).1
    · cases h
    · cases h

theorem provesNeverStarted_of_adopted {binding : Option Binding} {f : Fetched}
    (h : adoptOrAmbiguous binding f = .neverStarted) :
    ∃ expected, provesNeverStarted f expected = true := by
  unfold adoptOrAmbiguous at h
  split at h
  · cases h
  · split at h
    · cases h
    · split_ifs at h with hproves
      exact ⟨_, hproves⟩

/-- Whose record is served, that ticket does not start any more. -/
theorem settled_of_serves {t : Ticket} (h : Coherent t) {f : Fetched} (hf : Serves t f) :
    (standing t).Settled := by
  obtain ⟨d, r, -, hd, hr, -⟩ := hf
  exact (h.record d r hd hr).1

/-- What the submitter takes for a proof is one. -/
theorem barred_of_provesNeverStarted {t : Ticket} (h : Truthful t) {f : Fetched}
    (hf : Serves t f) (hnew : isLegacyDeadQueuedRecord f = false) {expected : Binding}
    (hproves : provesNeverStarted f expected = true) : standing t = .barred := by
  obtain ⟨d, r, rebooted, hd, hr, hrecord⟩ := hf
  simp only [provesNeverStarted, hnew, Bool.or_false, Bool.and_eq_true, hrecord,
    saysNothingRan_servedRecord] at hproves
  exact h (.inl (by simp [claims, hd, hr, hproves.2]))

/-- **A record settles a ticket for good.**  Whatever the exec, the supervisor and the requests of a
ticket have done, in any order and with any of them killed: once its record is served, the command
does not start any more; and where the submitter takes the record for the proof that nothing ran,
at the end of its dispatch or after a restart, the command never started and never will, but for
the shape of older runners. -/
theorem record_settles {w w' : World} (h : runnerMachine.Reach anyStep w) (hl : Later w w')
    {f : Fetched} (hf : Serves w.ticket f) :
    w'.ticket.started = w.ticket.started ∧ (isLegacyDeadQueuedRecord f = false →
      (∀ d expected, (settle d f expected).runsElsewhere = true → w'.ticket.started = false) ∧
      ∀ binding, adoptOrAmbiguous binding f = .neverStarted → w'.ticket.started = false) := by
  have hi := inv_reach h
  have hleads := (later_leads hi hl).2
  constructor
  · have hsettled := settled_of_serves hi.ticket hf
    have hsame : standing w.ticket = standing w'.ticket := by
      obtain hsame | hpossible | ⟨hadmitted, -⟩ := hleads
      · exact hsame
      · rw [hpossible] at hsettled
        rcases hsettled with h | h <;> cases h
      · rw [hadmitted] at hsettled
        rcases hsettled with h | h <;> cases h
    rw [Bool.eq_iff_iff, ← standing_eq_started, ← standing_eq_started, hsame]
  · intro hnew
    have hnever {expected : Binding} (hproves : provesNeverStarted f expected = true) :
        w'.ticket.started = false := by
      have hbarred := barred_of_provesNeverStarted (truthful_reach h) hf hnew hproves
      exact not_started_of_barred (hleads.barred hbarred)
    refine ⟨fun d expected hout => hnever (provesNeverStarted_of_runsElsewhere hout),
      fun binding hout => ?_⟩
    obtain ⟨expected, hproves⟩ := provesNeverStarted_of_adopted hout
    exact hnever hproves

/-- A ticket that was withdrawn while it was queued, and has its record. -/
def recordedRun : List Label :=
  withdrawnRun ++ pollingRun ++ [.whole (.exec (.return 75)), .whole (.exec .readResult),
    .whole (.exec .readMarkers), .whole (.exec .publish)]

def boundHere : Binding := ⟨2, "ticket", "generation", none⟩

def withdrawnRecord : Fetched :=
  ⟨boundHere, ⟨.unfinished, none, some .withdrawn⟩, none, none, none, none⟩

/-- The record of a withdrawal sends the ticket to another runner. -/
theorem record_settles_withdrawn : ∃ w, runnerMachine.exec ⟨.unheard, .empty⟩ recordedRun = some w ∧
    settle ⟨true, false, false⟩ withdrawnRecord boundHere = .moved ∧ w.ticket.started = false :=
  ⟨_, rfl, rfl,
    ((record_settles (f := withdrawnRecord)
      (Machine.reach_of_exec recordedRun (.start rfl)
        (Machine.along_of_forall (fun _ _ => trivial) _ _) rfl)
      .refl ⟨_, _, false, rfl, rfl, rfl⟩).2 rfl).1 ⟨true, false, false⟩ boundHere rfl⟩

end RunnerRecord
end Runner
end LaneBroker
