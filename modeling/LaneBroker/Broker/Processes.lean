/-
# The processes around the state directory

The parties that work on a ticket's files, and what each does next: the ticket's supervisor
(`supervisor.js`), `lane cancel` (`cancel.js`), the reconciliation of a remote attempt
(`remote-reconcile.js`) and of an abandoned local one (`local-reconcile.js`), and every process
that reaps (`reapStale`, `reapOrphanedQueue`).

A step of the machine is one locked section of one process, or one file operation a process
makes without the lock, or a process reading, dying or being signalled.  A process that crashes
inside a section leaves the state after a prefix of its file operations and is dead.  What a
process remembers between two of its steps is its `SupPhase` or its `Caller`; what it learns
from the outside (the process table, a runner's answer, the admission gates) is in the label.
-/

import LaneBroker.Basis.Machine
import LaneBroker.Broker.Queue

namespace LaneBroker

open LaneBroker.Basis

/-! ### What a process remembers -/

/-- **Where a supervisor stands with its ticket.** -/
inductive SupPhase
  /-- started, before the ownership check -/
  | submitted
  /-- its remote attempt is recorded -/
  | attempting
  /-- its attempt fell back to local, not enqueued yet -/
  | fallen
  | queued
  /-- it withdrew its ticket for a rebind -/
  | withdrawn (record : QueueRecord)
  /-- the rebind provably started nothing; the attempt is local again -/
  | returning (record : QueueRecord)
  /-- it took its ticket out of the queue for good and is about to publish why -/
  | leaving
  /-- its ticket holds a lease -/
  | started
  /-- it publishes without an attempt record, one file operation at a time -/
  | closing (ops : List FileOp)
  /-- its outcome is published, here or by another party -/
  | settled
  deriving DecidableEq, Repr

/-- **A ticket's supervisor.**  `generation` is the attempt generation its fences act on
(`attemptGeneration`), `none` for a ticket that never had an attempt. -/
structure Supervisor where
  id : TicketId
  remote : Bool
  generation : Option ℕ
  phase : SupPhase
  alive : Bool
  deriving DecidableEq, Repr

/-- **A `lane cancel`, or a reconciliation, between two of its steps.** -/
inductive Caller
  /-- the ticket was not queued; the lease is read next -/
  | readingLease (id : TicketId)
  /-- no lease; the attempt is read next -/
  | readingAttempt (id : TicketId)
  /-- `cancelAttempt` on the record it read -/
  | attemptSeen (id : TicketId) (a : Attempt) (orphanOnly : Bool)
  /-- the live supervisor was told; the attempt is read again next -/
  | awaitingSupervisor (id : TicketId)
  /-- the marker is written; every involved runner is asked to confirm the cancel -/
  | confirming (id : TicketId) (a : Attempt)
  /-- every involved runner confirmed; the cancelled result is published next -/
  | publishingCancel (id : TicketId) (a : Attempt)
  /-- the lease it read; the cancel marker is written next -/
  | leaseSeen (id : TicketId) (l : Lease)
  /-- the lease's supervisor is looked up next -/
  | leaseMarked (id : TicketId) (l : Lease)
  /-- the lease's process group is killed; the attempt is read next -/
  | leaseOrphan (id : TicketId) (l : Lease)
  /-- the attempt of an orphaned lease; the cancelled result is published through it next -/
  | publishingLease (id : TicketId) (l : Lease) (a : Attempt)
  /-- file operations made without the lock -/
  | performing (id : TicketId) (ops : List FileOp)
  /-- a reconciliation of a remote attempt, with the record it read -/
  | reconciling (id : TicketId) (a : Attempt)
  /-- a settlement of an abandoned local attempt, with the record it read -/
  | settlingLocal (id : TicketId) (a : Attempt)
  deriving DecidableEq, Repr

/-- The ticket a caller works on. -/
def Caller.id : Caller → TicketId
  | readingLease id | readingAttempt id | attemptSeen id _ _ | awaitingSupervisor id
  | confirming id _ | publishingCancel id _ | leaseSeen id _ | leaseMarked id _
  | leaseOrphan id _ | publishingLease id _ _ | performing id _ | reconciling id _
  | settlingLocal id _ => id

/-- **The system**: the state directory and the processes. -/
structure World where
  fs : Broker
  sups : Dir Proc Supervisor
  callers : Dir Proc Caller
  deriving DecidableEq, Repr

namespace World

/-- Is the process a live supervisor? -/
def supAlive (w : World) (p : Proc) : Bool := ((w.sups.read p).map (·.alive)).getD false

/-- A liveness probe never finds a live supervisor gone (`isProcessAlive` fails closed). -/
def probeSound (w : World) (gone : List Proc) : Bool := gone.all fun p => !w.supAlive p

/-- A supervisor's new memory. -/
def setSup (w : World) (p : Proc) (sup : Supervisor) : World :=
  { w with sups := w.sups.write p sup }

/-- A caller's new memory. -/
def setCaller (w : World) (p : Proc) (c : Caller) : World :=
  { w with callers := w.callers.write p c }

/-- A caller is finished. -/
def dropCaller (w : World) (p : Proc) : World := { w with callers := w.callers.unlink p }

/-- A process is gone, with whatever it remembered. -/
def kill (w : World) (p : Proc) : World :=
  match w.sups.read p with
  | some sup => (w.setSup p { sup with alive := false }).dropCaller p
  | none => w.dropCaller p

end World

/-! ### Labels -/

/-- What a patch of an attempt record by its supervisor sets. -/
structure AttemptPatch where
  executor : Executor
  phase : AttemptPhase
  runner : Option RunnerName
  moving : Option Moving
  binding : Option Binding
  dispatchedRunners : List RunnerName
  deriving DecidableEq, Repr

/-- The patched record; generation, supervisor and start stay. -/
def AttemptPatch.apply (p : AttemptPatch) (a : Attempt) : Attempt :=
  { a with
    executor := p.executor
    phase := p.phase
    runner := p.runner
    moving := p.moving
    binding := p.binding
    dispatchedRunners := p.dispatchedRunners }

/-- **What a process does next.** -/
inductive Act
  -- a supervisor
  | launch (id : TicketId) (remote : Bool)
  | createAttempt (now : ℕ) (refusal : TicketResult)
  | enqueue (now : ℕ) (losers : List (TicketId × TicketId)) (refusal : TicketResult)
  | updateAttempt (patch : AttemptPatch)
  | fallbackToLocal (reason : String)
  | publishRemote (r : TicketResult)
  | tryStart (admitted : Bool) (gone : List Proc) (released : List TicketId) (now : ℕ)
  | withdrawQueued (fault : Option WithdrawFault)
  | abandonRebind
  | restoreQueued (now : ℕ)
  | leaveQueue
  | releaseUnused
  | publishLocal (r : TicketResult) (logged : Bool)
  | publishDirect (r : Option TicketResult)
  | closeStep
  | clearMarkers
  | signal
  | die
  -- a `lane cancel` or a reconciliation
  | cancelCommand (id : TicketId)
  | callerRead
  | callerJudge (gone : List Proc)
  | callerMark
  | callerConfirm (confirmed : Bool)
  | callerPublish (r : TicketResult) (gone : List Proc)
  | callerOp
  | reconcile (id : TicketId) (gone : List Proc)
  | settleLocal (id : TicketId) (gone : List Proc)
  -- any process
  | reapStale (keep : Option TicketId) (gone : List Proc) (released : List TicketId) (now : ℕ)
  | reapQueue (gone : List Proc)
  | migrate (b : Bool)
  deriving DecidableEq, Repr

/-- **A step**: who acts, what it does, and, when it crashes inside the locked section of the
step, after how many of its file operations. -/
structure Label where
  actor : Proc
  act : Act
  crashAt : Option ℕ
  deriving DecidableEq, Repr

/-! ### The writers the terminal publishes hand to `publishTerminal` -/

/-- A writer that follows `publishTerminal`'s verdict: the remote supervisor's and the
reconciliation's. -/
def verdictWriter (id : TicketId) (r : TicketResult) (cancelled : Bool) : Section Unit :=
  if cancelled then writeResultRow id remoteCancelledResult none else writeResultRow id r none

/-- `lane cancel`'s writer for an orphaned remote attempt: a cancelled result either way. -/
def cancelAttemptWriter (id : TicketId) (_cancelled : Bool) : Section Unit :=
  writeResultRow id remoteCancelledResult none

/-- `lane cancel`'s writer for an orphaned lease that has an attempt record. -/
def cancelLeaseWriter (id : TicketId) (executor : Executor) (_cancelled : Bool) :
    Section Unit := do
  let s ← Locked.read
  writeResultRow id
    (withSupersession s id { remoteCancelledResult with executor := some executor }) none

/-- The writer of a ticket that leaves the queue unstarted: the outcome its supervisor came
with, whatever the verdict (`finalizeQueuedAndExit`, `refuseLocalAndExit`,
`refuseQueuedOverBudgetAndExit`; `exitMigrating` logs no row). -/
def leavingWriter (id : TicketId) (r : TicketResult) (logged : Bool) (_cancelled : Bool) :
    Section Unit :=
  if logged then writeResultRow id r none else perform (.writeResult id r)

/-- The writer of a local run that ended (`finalizeAndExit`): its outcome follows the
supervisor's own `cancelling` flag, folded into `r`, and not the verdict.  The lease is
released last. -/
def finalizeWriter (id : TicketId) (r : TicketResult) (_cancelled : Bool) : Section Unit := do
  writeResultRow id r none
  perform (.unlinkLease id)
  clearTicketMarkers id

/-- The writer of the settlement of an abandoned local attempt: a result the queue reap already
published stands. -/
def settleWriter (id : TicketId) (_cancelled : Bool) : Section Unit := do
  let s ← Locked.read
  if (s.results.read id).isSome then pure ()
  else writeResultRow id { deadSupervisorResult false with executor := some .local } none

/-- The file operations of `lane cancel` on an orphaned lease with no attempt record: a result
and its row, then the release, none of it under the lock. -/
def plainLeaseOps (s : Broker) (id : TicketId) : List FileOp :=
  let r := withSupersession s id
    { exit := none, cancelled := true, reason := none, executor := none, reconciled := false }
  [.writeResult id r, .appendHistory ⟨id, r.exit, true, none⟩, .unlinkLease id,
    .unlinkSuperseded id]

/-- A remote attempt stranded mid-withdraw by a dead supervisor (`isStrandedWithdrawingMove`). -/
def isStrandedWithdrawingMove (gone : List Proc) (a : Attempt) : Bool :=
  match a.moving with
  | some m => a.executor = .remote && a.supervisor ∈ gone && m.phase = .withdrawing &&
      a.runner = some m.fromRunner
  | none => false

/-- The fence of a reconciliation (`publishSettled`'s `expect`): still the remote attempt it
read, with its supervisor dead. -/
def expectReconciled (read : Attempt) (gone : List Proc) (_s : Broker) (cur : Attempt) : Bool :=
  cur.executor = .remote && cur.runner = read.runner && cur.generation = read.generation &&
    cur.startedAt = read.startedAt && cur.moving = read.moving && cur.supervisor ∈ gone &&
    (cur.moving.isNone || isStrandedWithdrawingMove gone cur)

/-- The fence of the settlement of a local attempt (`isAbandoned`). -/
def isAbandoned (id : TicketId) (gone : List Proc) (s : Broker) (cur : Attempt) : Bool :=
  cur.executor = .local && cur.supervisor ∈ gone && cur.moving.isNone &&
    (s.leases.read id).isNone && (findQueueFile s id).isNone && (rebindingFile s id).isNone

/-! ### The next state -/

/-- **What one step of a process does**: its file operations, in order, and what the processes
remember once they are all done. -/
structure Move where
  journal : List FileOp
  remember : World → World

/-- A step that touches no file. -/
def Move.silent (k : World → World) : Move := ⟨[], k⟩

/-- One file operation without the lock. -/
def Move.single (op : FileOp) (k : World → World) : Move := ⟨[op], k⟩

/-- A locked section, which goes on with its result. -/
def World.inSection {α : Type} (w : World) (m : Section α) (k : α → World → World) : Move :=
  ⟨m.journal w.fs, k (m.value w.fs)⟩

/-- The result of a supervisor's locked section that only moves it to another phase. -/
def toPhase (p : Proc) (sup : Supervisor) (phase : SupPhase) (w : World) : World :=
  w.setSup p { sup with phase := phase }

/-- The ownership check let the id through, or another ticket owns it and this process exits,
or a migration refused the intake and it publishes that. -/
def afterIntake (p : Proc) (sup taken : Supervisor) (refusal : TicketResult) (v : Intake)
    (w : World) : World :=
  match v with
  | .taken => w.setSup p taken
  | .existing _ => w.kill p
  | .migrating =>
    if sup.generation.isSome then toPhase p sup .leaving w
    else toPhase p sup (.closing [.writeResult sup.id refusal]) w

/-- **A supervisor's step.** -/
def supMove (w : World) (l : Label) (sup : Supervisor) : Option Move :=
  let p := l.actor
  let id := sup.id
  match l.act, sup.phase, sup.generation with
  | .createAttempt now refusal, .submitted, none =>
    if sup.remote then
      some (w.inSection (createAttempt id p now)
        (afterIntake p sup { sup with generation := some 0, phase := .attempting } refusal))
    else none
  | .enqueue now losers refusal, .submitted, none =>
    if sup.remote then none
    else
      some (w.inSection (enqueue id p now none losers)
        (afterIntake p sup { sup with phase := .queued } refusal))
  | .enqueue now losers refusal, .fallen, some g =>
    some (w.inSection (enqueue id p now (some g) losers)
      (afterIntake p sup { sup with phase := .queued } refusal))
  | .updateAttempt patch, .attempting, some g =>
    some (w.inSection (updateAttempt id g patch.apply) fun _ w => w)
  | .updateAttempt patch, .withdrawn _, some g =>
    some (w.inSection (updateAttempt id g patch.apply) fun _ w => w)
  | .fallbackToLocal reason, .attempting, some _ =>
    some (w.inSection (fallbackToLocal id reason) fun v w =>
      match v with
      | .ok a => w.setSup p { sup with phase := .fallen, generation := some a.generation }
      | .cancelled => w
      | .missing => w.kill p)
  | .publishRemote r, .attempting, some g | .publishRemote r, .fallen, some g
  | .publishRemote r, .withdrawn _, some g =>
    some (w.inSection (publishTerminal id g expectAny (verdictWriter id r)) fun v w =>
      match v with
      | .published _ => toPhase p sup .settled w
      | _ => w.kill p)
  | .tryStart admitted gone released now, .queued, _ =>
    if w.probeSound gone then
      some (w.inSection (tryStart id p admitted gone released now) fun v w =>
        match v with
        | .started => toPhase p sup .started w
        | _ => w)
    else none
  | .withdrawQueued fault, .queued, some _ =>
    some (w.inSection (withdrawQueued id p fault) fun v w =>
      match v with
      | .withdrawn record => toPhase p sup (.withdrawn record) w
      | .notTaken => w
      | .threw => w.kill p)
  | .abandonRebind, .withdrawn record, some g =>
    some (w.inSection
      (updateAttempt id g fun a =>
        { a with executor := .local, phase := .queued, runner := none })
      fun _ w => toPhase p sup (.returning record) w)
  | .restoreQueued now, .returning record, _ =>
    some (w.inSection (restoreLocked record now) fun _ w => toPhase p sup .queued w)
  | .leaveQueue, .queued, _ =>
    some (w.inSection (dequeueSync id) fun _ w => toPhase p sup .leaving w)
  | .releaseUnused, .started, _ =>
    some (.single (.unlinkLease id) (toPhase p sup .leaving))
  | .publishLocal r logged, .leaving, some g =>
    some (w.inSection (publishTerminal id g expectAny (leavingWriter id r logged)) fun _ w =>
      toPhase p sup .settled w)
  | .publishLocal r _, .started, some g =>
    some (w.inSection (publishTerminal id g expectAny (finalizeWriter id r)) fun v w =>
      match v with
      | .published _ => toPhase p sup .settled w
      | .alreadyPublished | .stale => toPhase p sup (.closing [.unlinkLease id]) w
      | .refused => toPhase p sup (.closing [.writeResult id r,
          .appendHistory ⟨id, r.exit, r.cancelled, none⟩, .unlinkLease id]) w)
  | .publishDirect none, .leaving, none => some (.silent (toPhase p sup (.closing [])))
  | .publishDirect (some r), .leaving, none =>
    some (.silent (toPhase p sup (.closing [.writeResult id r,
      .appendHistory ⟨id, r.exit, r.cancelled, none⟩])))
  | .publishDirect (some r), .started, none =>
    some (.silent (toPhase p sup (.closing [.writeResult id r,
      .appendHistory ⟨id, r.exit, r.cancelled, none⟩, .unlinkLease id])))
  | .closeStep, .closing (op :: ops), _ =>
    some (.single op (toPhase p sup (.closing ops)))
  | .closeStep, .closing [], _ => some (.silent (toPhase p sup .settled))
  | .clearMarkers, .settled, _ => some (w.inSection (clearTicketMarkers id) fun _ w => w)
  | .signal, _, _ => some (.single (.writeCancelMarker id) fun w => w)
  | .die, _, _ => some (.silent fun w => w.kill p)
  | _, _, _ => none

/-- **A step of `lane cancel` or of a reconciliation.** -/
def callerMove (w : World) (l : Label) (c : Caller) : Option Move :=
  let p := l.actor
  match l.act, c with
  | .callerRead, .readingLease id =>
    match w.fs.leases.read id with
    | some lease => some (.silent fun w => w.setCaller p (.leaseSeen id lease))
    | none => some (.silent fun w => w.setCaller p (.readingAttempt id))
  | .callerRead, .readingAttempt id =>
    match w.fs.attempts.read id with
    | some a => some (.silent fun w => w.setCaller p (.attemptSeen id a false))
    | none => some (.silent fun w => w.dropCaller p)
  | .callerRead, .awaitingSupervisor id =>
    match w.fs.attempts.read id with
    | some a => some (.silent fun w => w.setCaller p (.attemptSeen id a true))
    | none => some (.silent fun w => w.dropCaller p)
  | .callerRead, .leaseOrphan id lease =>
    match w.fs.attempts.read id with
    | some a => some (.silent fun w => w.setCaller p (.publishingLease id lease a))
    | none => some (.silent fun w => w.setCaller p (.performing id (plainLeaseOps w.fs id)))
  | .callerJudge gone, .attemptSeen id a orphanOnly =>
    if !w.probeSound gone then none
    else if a.supervisor ∈ gone then
      some (.single (.writeCancelMarker id) fun w => w.setCaller p (.confirming id a))
    else if orphanOnly then some (.silent fun w => w.dropCaller p)
    else some (.single (.writeCancelMarker id) fun w => w.setCaller p (.awaitingSupervisor id))
  | .callerMark, .leaseSeen id lease =>
    some (.single (.writeCancelMarker id) fun w => w.setCaller p (.leaseMarked id lease))
  | .callerJudge gone, .leaseMarked id lease =>
    if !w.probeSound gone then none
    else if lease.supervisor ∈ gone then some (.silent fun w => w.setCaller p (.leaseOrphan id lease))
    else some (.silent fun w => w.dropCaller p)
  | .callerConfirm confirmed, .confirming id a =>
    some (.silent fun w =>
      if confirmed then w.setCaller p (.publishingCancel id a) else w.dropCaller p)
  | .callerPublish _ _, .publishingCancel id a =>
    some (w.inSection (publishTerminal id a.generation expectAny (cancelAttemptWriter id))
      fun _ w => w.dropCaller p)
  | .callerPublish _ _, .publishingLease id _ a =>
    some (w.inSection
      (publishTerminal id a.generation expectAny (cancelLeaseWriter id a.executor)) fun v w =>
      match v with
      | .published _ | .alreadyPublished =>
        w.setCaller p (.performing id [.unlinkLease id, .unlinkSuperseded id])
      | _ => w.dropCaller p)
  | .callerPublish r gone, .reconciling id a =>
    if w.probeSound gone then
      some (w.inSection
        (publishTerminal id a.generation (expectReconciled a gone) (verdictWriter id r))
        fun _ w => w.dropCaller p)
    else none
  | .callerPublish _ gone, .settlingLocal id a =>
    if w.probeSound gone then
      some (w.inSection (publishTerminal id a.generation (isAbandoned id gone)
        (settleWriter id)) fun _ w => w.dropCaller p)
    else none
  | .callerOp, .performing id (op :: ops) =>
    some (.single op fun w => w.setCaller p (.performing id ops))
  | .callerOp, .performing _ [] => some (.silent fun w => w.dropCaller p)
  | .die, _ => some (.silent fun w => w.kill p)
  | _, _ => none

/-- The parties a process is not yet one of. -/
def World.fresh (w : World) (p : Proc) : Bool :=
  (w.sups.read p).isNone && (w.callers.read p).isNone

/-- **A step that needs no memory of the process**: it starts, or it reaps. -/
def anyMove (w : World) (l : Label) : Option Move :=
  let p := l.actor
  match l.act with
  | .launch id remote =>
    if w.fresh p then
      some (.silent fun w => w.setSup p
        { id := id, remote := remote, generation := none, phase := .submitted, alive := true })
    else none
  | .cancelCommand id =>
    if w.fresh p then
      some (w.inSection (cancelQueued id) fun v w =>
        if v then w else w.setCaller p (.readingLease id))
    else none
  | .reconcile id gone =>
    if w.fresh p && w.probeSound gone then
      match w.fs.attempts.read id with
      | some a =>
        if a.executor = .remote ∧ a.supervisor ∈ gone ∧ (w.fs.results.read id).isNone ∧
            (a.moving.isNone ∨ isStrandedWithdrawingMove gone a = true) then
          some (.silent fun w => w.setCaller p (.reconciling id a))
        else none
      | none => none
    else none
  | .settleLocal id gone =>
    if w.fresh p && w.probeSound gone then
      some (w.inSection (reapOrphanedQueue none gone) fun _ w =>
        match w.fs.attempts.read id with
        | some a => w.setCaller p (.settlingLocal id a)
        | none => w)
    else none
  | .reapStale keep gone released now =>
    if w.probeSound gone then
      some (w.inSection (reapStale keep gone released now) fun _ w => w)
    else none
  | .reapQueue gone =>
    if w.probeSound gone then
      some (w.inSection (reapOrphanedQueue none gone) fun _ w => w)
    else none
  | .migrate b => some (.single (.setMigrating b) fun w => w)
  | _ => none

/-- **What the labelled step does**, `none` where it is not possible. -/
def move (w : World) (l : Label) : Option Move :=
  match w.sups.read l.actor, w.callers.read l.actor with
  | some sup, _ => if sup.alive then supMove w l sup <|> anyMove w l else none
  | none, some c => callerMove w l c
  | none, none => anyMove w l

/-- The world once a step is complete, or cut off: a crash leaves the first few file operations
done and the process dead. -/
def Move.outcome (m : Move) (w : World) (l : Label) : World :=
  match l.crashAt with
  | none => m.remember { w with fs := applyAll m.journal w.fs }
  | some k => { w with fs := applyAll (m.journal.take k) w.fs }.kill l.actor

/-- **The broker as a machine**: it starts with an empty state directory and no process. -/
def brokerMachine : Machine World Label where
  start w := w = ⟨.init, .empty, .empty⟩
  next w l := (move w l).map fun m => m.outcome w l

end LaneBroker
