/-
# The parties on a runner

The exec that took the ticket in (`remoteExecCommand`), the supervisor it spawns for the lane
(`supervisor.js`), and the submitter's requests (`remoteWithdrawCommand`,
`remoteCancelCommand`), each possibly repeated and possibly before the exec.  Beside them run a
`lane cancel` of the lane, a `lane drain --shutdown`, and every process that reaps.

A step is one locked section of one party, or one file operation or read it makes without the
lock, or its death; a party that crashes inside a section leaves the files after a prefix of
the section's operations.  Other execs for the same ticket are steps too: they find the
tombstone or the ticket directory and leave nothing behind, so only the one that made the
directory is remembered.
-/

import LaneBroker.Basis.Directory
import LaneBroker.Basis.Machine
import LaneBroker.Runner.Files
import Mathlib.Logic.Relation

namespace LaneBroker
namespace Runner

open LaneBroker.Basis

/-! ### What a party remembers -/

/-- **The exec that made the ticket directory.** -/
inductive ExecPhase
  | absent
  /-- the ticket directory is made; the snapshot comes in and is checked -/
  | created
  /-- `onTicketCreated` let it through; the supervisor is spawned next -/
  | recorded
  /-- the supervisor is spawned, and `runCommand` waits for its result -/
  | waiting
  /-- `runCommand` returned -/
  | returned (exitCode : ℕ) (refusedAtStart : Bool)
  /-- it read the broker's structured result; the ticket's markers are read next -/
  | judging (exitCode : ℕ) (refusedAtStart : Bool) (structured : Option LaneResult)
  /-- it writes the ticket's record next -/
  | publishing (r : TicketRecord)
  /-- it exited, or died -/
  | gone
  deriving DecidableEq, Repr

/-- **The lane's supervisor.** -/
inductive SupPhase
  | absent
  | launched
  | polling
  /-- a cancel was seen; it dequeues next -/
  | cancelling (alsoWithdrawn : Bool)
  /-- a withdrawal was seen; it dequeues next -/
  | withdrawing
  /-- withdrawn and dequeued; the cancel marker is read next -/
  | dequeued
  /-- the queue deadline passed; it dequeues next -/
  | expiring
  /-- its ticket holds the lease; the command is spawned next -/
  | admitted
  /-- the lease is given back unused -/
  | releasing (r : LaneResult)
  /-- it never started the command, and publishes what it publishes of that -/
  | finalizing (r : Option LaneResult)
  /-- its markers are cleared next -/
  | clearing
  | running
  /-- the command ended; the file operations of `writeResult` are left -/
  | ending (ops : List LaneOp)
  /-- it exited, or died -/
  | gone
  deriving DecidableEq, Repr

/-- Who waits for a `cancelCommand`: `remote-cancel`, or somebody this ticket's submitter is
not told about (an operator's `lane cancel`, a drain). -/
inductive CancelFor
  | remoteCancel
  | other
  deriving DecidableEq, Repr

/-- What a request answers. -/
inductive Reply
  | withdraw (action : WithdrawAction)
  | cancel (confirmed : Bool)
  deriving DecidableEq, Repr

/-- **A request between two of its steps.** -/
inductive Request
  /-- a withdrawal; the ticket directory was not there, so the tombstone is tried next -/
  | withdrawTombstone
  /-- a withdrawal; `remote-id` is read next -/
  | withdrawRead
  /-- a withdrawal; the lane is withdrawn next -/
  | withdrawLane
  /-- a withdrawal of a lane that is not queued; the ticket's record is read next -/
  | withdrawResult
  | cancelTombstone
  /-- a cancel; its markers are written next -/
  | cancelMark
  /-- a cancel that saw no lane or could not tell; the ticket's record is read next -/
  | cancelResult
  /-- a `cancelCommand` that found the lane not queued; the lease is read next -/
  | cancelLease (why : CancelFor)
  /-- `cancelCommand` read a lease; the cancel marker is written next -/
  | leaseSeen (why : CancelFor)
  /-- the lease's supervisor is looked up next -/
  | leaseMarked (why : CancelFor)
  /-- the supervisor was signalled; the lease is read again next -/
  | awaitingRelease (why : CancelFor)
  /-- no supervisor is left; its files are settled next -/
  | settling (why : CancelFor) (ops : List LaneOp)
  /-- `cancelCommand` is about to start, or to be repeated -/
  | cancelQueued (why : CancelFor)
  /-- `cancelCommand` did not confirm; the registration is read again next -/
  | cancelRecheck
  | replied (r : Reply)
  deriving DecidableEq, Repr

/-- **The ticket on the runner.**  `started` says that the command was ever spawned. -/
structure Ticket where
  files : Files
  exec : ExecPhase
  sup : SupPhase
  started : Bool
  deriving DecidableEq, Repr

/-- A ticket the runner has not heard of. -/
def Ticket.unheard : Ticket := ⟨.init, .absent, .absent, false⟩

/-- **The runner, for one ticket**: the ticket and the requests under way. -/
structure World where
  ticket : Ticket
  requests : Dir ℕ Request
  deriving DecidableEq, Repr

/-! ### Labels -/

/-- What ended a command that ran (`finalizeAndExit`). -/
inductive RunEnd
  | exited (code : ℕ)
  | cancelled (stopProven : Bool)
  | noProgress
  | silence
  deriving DecidableEq, Repr

/-- The result of a command that ran. -/
def RunEnd.result : RunEnd → LaneResult
  | exited code => ⟨some code, false, none, false⟩
  | cancelled stopProven => ⟨some 130, true, none, stopProven⟩
  | noProgress => ⟨some 124, false, some .noProgress, false⟩
  | silence => ⟨some 124, false, some .silence, false⟩

/-- A refusal of a ticket that did not run (`localRefusalResult`, `migrationRefusalResult`). -/
def refusal (exit : ℕ) (text : String) : LaneResult := ⟨some exit, false, some (.other text), false⟩

/-- The result of a ticket cancelled before it ran (`remoteCancelledResult`). -/
def cancelledResult : LaneResult := ⟨some 130, true, none, false⟩

/-- The exit-75 result of a ticket that left the queue unstarted (`finalizeQueuedAndExit`). -/
def unstartedResult (reason : Reason) : LaneResult := ⟨some 75, false, some reason, false⟩

/-- What the exec of the ticket does next. -/
inductive ExecAct
  /-- an exec for the ticket reaches its intake -/
  | intake
  /-- the header, the stream or the tree is bad, or the runner's own config -/
  | reject (kind : Kind) (exit : Option ℕ) (text : String)
  /-- `runCommand` refuses before there is a ticket -/
  | preflight (exitCode : ℕ)
  | onTicketCreated
  | spawnSupervisor
  /-- `runCommand` returns without a supervisor -/
  | spawnFailed
  /-- `runCommand` finds the result, or its supervisor dead -/
  | return (exitCode : ℕ)
  | readResult
  | readMarkers
  | publish
  | die
  deriving DecidableEq, Repr

/-- What the lane's supervisor does next. -/
inductive SupAct
  /-- it refuses before it enqueues (`enforceCpuLimitStartup`) -/
  | refuseStart (exit : ℕ) (text : String)
  | enqueue
  /-- the cancel marker is seen between two polls -/
  | seeCancel
  /-- it refuses its queued ticket (over budget, dispatch-only, an abandoned push) -/
  | refuse (exit : ℕ) (text : String) (unlinked : Bool)
  | tryStart (late admitted unlinked : Bool)
  | dequeue (unlinked : Bool)
  | readCancel
  | spawnCommand
  /-- it gives the lease back unused -/
  | release (exit : ℕ) (text : String)
  | publish
  | clear
  | commandEnds (how : RunEnd)
  | closeStep
  /-- a signal: its handler writes the cancel marker -/
  | signal
  | die
  deriving DecidableEq, Repr

/-- What a request does next. -/
inductive RequestAct
  | withdraw
  | remoteCancel
  | laneCancel
  | shutdown
  | tombstone
  | readRemoteId
  | withdrawLane (unlinked : Bool)
  | readRecord
  | mark (fault : Option CancelFault)
  | cancelQueued
  | readLease
  | markLease
  | judge
  | settle
  | recheck (fault : Bool)
  | die
  deriving DecidableEq, Repr

/-- What anybody else does on the runner. -/
inductive HostAct
  | reapQueue
  | reapLease
  | migrate (b : Bool)
  | drain (b : Bool)
  deriving DecidableEq, Repr

/-- What happens next on the runner. -/
inductive Act
  | exec (a : ExecAct)
  | sup (a : SupAct)
  | request (k : ℕ) (a : RequestAct)
  | host (a : HostAct)
  deriving DecidableEq, Repr

/-- **A step**, and, when its party crashes inside the locked section of the step, after how
many file operations. -/
structure Label where
  act : Act
  crashAt : Option ℕ
  deriving DecidableEq, Repr

/-! ### The next state -/

/-- **What a step of the exec or of the supervisor does**: its file operations, and what the two
remember once they are done. -/
structure TicketMove where
  journal : List RunnerOp
  remember : Ticket → Ticket

/-- The exec goes on. -/
def toExec (e : ExecPhase) (t : Ticket) : Ticket := { t with exec := e }

/-- The supervisor goes on. -/
def toSup (p : SupPhase) (t : Ticket) : Ticket := { t with sup := p }

/-- A step that touches no file. -/
def silent (k : Ticket → Ticket) : TicketMove := ⟨[], k⟩

/-- One file operation without the lock. -/
def single (op : RunnerOp) (k : Ticket → Ticket) : TicketMove := ⟨[op], k⟩

/-- A locked section, which goes on with its result. -/
def Ticket.inSection {α : Type} (t : Ticket) (m : RunnerSection α) (k : α → Ticket → Ticket) :
    TicketMove :=
  ⟨m.journal t.files, k (m.value t.files)⟩

/-- **A step of the exec.** -/
def execMove (t : Ticket) (a : ExecAct) : Option TicketMove :=
  match a, t.exec with
  | .intake, _ =>
    some (t.inSection intake fun v => if v = .created then toExec .created else id)
  | .reject kind exit text, .created =>
    if kind = .rejected ∨ kind = .refused then
      some (silent (toExec (.publishing ⟨kind, exit, some (.other text)⟩)))
    else none
  | .preflight exitCode, .created => some (silent (toExec (.returned exitCode false)))
  | .onTicketCreated, .created =>
    some (t.inSection onTicketCreated fun cancelledEarly =>
      toExec (if cancelledEarly then .returned 130 true else .recorded))
  | .spawnSupervisor, .recorded => some (silent fun t => toSup .launched (toExec .waiting t))
  | .spawnFailed, .recorded => some (silent (toExec (.returned 1 false)))
  | .return exitCode, .waiting =>
    if t.files.lane.result.isSome ∨ t.sup = .gone then
      some (silent (toExec (.returned exitCode false)))
    else none
  | .readResult, .returned exitCode refusedAtStart =>
    some (silent (toExec (.judging exitCode refusedAtStart t.files.lane.result)))
  | .readMarkers, .judging exitCode refusedAtStart structured =>
    some (silent (toExec (.publishing (ticketRecord (t.files.marked (·.cancelled))
      (t.files.marked (·.shutdown)) refusedAtStart (t.files.marked (·.shutdownUnstarted))
      structured exitCode))))
  | .publish, .publishing r => some (single (.inDir (.writeResult r)) (toExec .gone))
  | .die, e => if e = .absent then none else some (silent (toExec .gone))
  | _, _ => none

/-- Where a poll of `tryStart` leaves the supervisor. -/
def afterPoll (withdrawMarker : Bool) : LanePoll → SupPhase
  | .started => .admitted
  | .withdrawn => .withdrawing
  | .queueTimeout => .expiring
  | .notQueued => if withdrawMarker then .withdrawing else .finalizing none
  | .waiting | .cancelled => .polling

/-- Where the ownership check leaves the supervisor. -/
def afterEnqueue : LaneIntake → SupPhase
  | .taken => .polling
  | .existing => .gone
  | .migrating => .finalizing (some (refusal 75 "migration in progress"))

/-- The file operations of `writeResult` after a run; the lease is released before the markers
go. -/
def endingOps (how : RunEnd) : List LaneOp := [.writeResult how.result, .unlinkLease, .unlinkMarkers]

/-- **A step of the lane's supervisor.** -/
def supMove (t : Ticket) (a : SupAct) : Option TicketMove :=
  match a, t.sup with
  | .refuseStart exit text, .launched =>
    some (silent (toSup (.finalizing (some (refusal exit text)))))
  | .enqueue, .launched => some (t.inSection enqueueLane fun v => toSup (afterEnqueue v))
  | .seeCancel, .polling =>
    if t.files.lane.cancelMarker then
      some (silent (toSup (.cancelling t.files.lane.withdrawMarker)))
    else none
  | .refuse exit text unlinked, .polling =>
    some (t.inSection (dequeueLane unlinked) fun _ =>
      toSup (.finalizing (some (refusal exit text))))
  | .tryStart late admitted unlinked, .polling =>
    some (t.inSection (tryStartLane late admitted unlinked) fun v =>
      toSup (afterPoll t.files.lane.withdrawMarker v))
  | .dequeue unlinked, .cancelling alsoWithdrawn =>
    -- beside a withdrawal the dequeue is repeated until it goes through
    if alsoWithdrawn && !unlinked then none
    else
      some (t.inSection (dequeueLane unlinked) fun _ =>
        toSup (.finalizing (if alsoWithdrawn then some cancelledResult else none)))
  | .dequeue true, .withdrawing =>
    some (t.inSection (dequeueLane true) fun _ => toSup .dequeued)
  | .readCancel, .dequeued =>
    some (silent (toSup (.finalizing (some
      (if t.files.lane.cancelMarker then cancelledResult else unstartedResult .withdrawn)))))
  | .dequeue unlinked, .expiring =>
    some (t.inSection (dequeueThenRead unlinked) fun cancelWon =>
      toSup (.finalizing (some
        (if cancelWon then cancelledResult else unstartedResult .queueTimeout))))
  | .spawnCommand, .admitted => some (silent fun t => { toSup .running t with started := true })
  | .release exit text, .admitted =>
    some (t.inSection (dequeueLane true) fun _ => toSup (.releasing (refusal exit text)))
  | .closeStep, .releasing r =>
    some (single (.onLane .unlinkLease) (toSup (.finalizing (some r))))
  | .publish, .finalizing (some r) =>
    some (single (.onLane (.writeResult r)) (toSup .clearing))
  | .publish, .finalizing none => some (silent (toSup .clearing))
  | .clear, .clearing => some (t.inSection clearLaneMarkers fun _ => toSup .gone)
  | .commandEnds how, .running => some (silent (toSup (.ending (endingOps how))))
  | .closeStep, .ending (op :: ops) => some (single (.onLane op) (toSup (.ending ops)))
  | .closeStep, .ending [] => some (silent (toSup .gone))
  | .signal, p =>
    if p = .absent ∨ p = .gone then none else some (single (.onLane .writeCancelMarker) id)
  | .die, p => if p = .absent then none else some (silent (toSup .gone))
  | _, _ => none

/-- **What a step of a request does**: its file operations, and what it remembers once they are
done, `none` when it is over without an answer to the submitter. -/
structure RequestMove where
  journal : List RunnerOp
  becomes : Option Request

/-- A read. -/
def reads (r : Request) : RequestMove := ⟨[], some r⟩

/-- A locked section of a request, which goes on with its result. -/
def Ticket.asks {α : Type} (t : Ticket) (m : RunnerSection α) (k : α → Option Request) :
    RequestMove :=
  ⟨m.journal t.files, k (m.value t.files)⟩

/-- The file operations of `cancelCommand` on a lease whose supervisor is gone. -/
def orphanOps : List LaneOp := [.writeResult ⟨none, true, none, false⟩, .unlinkLease]

/-- `cancelCommand` is over: `remote-cancel` answers or looks again, nobody else answers. -/
def afterCancelCommand (exitZero : Bool) : CancelFor → Option Request
  | .other => none
  | .remoteCancel => some (if exitZero then .replied (.cancel true) else .cancelRecheck)

/-- **A step of a request that is under way.** -/
def requestMove (t : Ticket) (a : RequestAct) (r : Request) : Option RequestMove :=
  match a, r with
  | .tombstone, .withdrawTombstone =>
    some (t.asks tombstoneAbsentTicket fun written =>
      some (if written then .replied (.withdraw .noSuchTicket) else .withdrawRead))
  | .readRemoteId, .withdrawRead =>
    some (reads (
      if t.files.marked (·.remoteId) then .withdrawLane
      else if t.files.marked (·.result.isSome) then .replied (.withdraw .finished)
      else .replied (.withdraw .notQueued)))
  | .withdrawLane unlinked, .withdrawLane =>
    some (t.asks (withdrawLane unlinked) fun action =>
      some (if action = .notQueued then .withdrawResult else .replied (.withdraw action)))
  | .readRecord, .withdrawResult =>
    some (reads (.replied (.withdraw (
      match t.files.dir.bind (·.result) with
      | none => .notQueued
      | some record =>
        if record.reason = some .withdrawn ∧ record.kind = .unfinished then .withdrawn
        else .finished))))
  | .tombstone, .cancelTombstone =>
    some (t.asks tombstoneAbsentTicket fun written =>
      some (if written then .replied (.cancel true) else .cancelMark))
  | .mark fault, .cancelMark =>
    some (t.asks (markCancelled fault) fun v => some (
      match v with
      | .unknown => .cancelResult
      | .noLane => .replied (.cancel true)
      | .marked true => .cancelQueued .remoteCancel
      | .marked false => .replied (.cancel true)))
  | .cancelQueued, .cancelQueued why =>
    some (t.asks cancelQueuedLane fun dequeuedHere =>
      if dequeuedHere then afterCancelCommand true why else some (.cancelLease why))
  | .readLease, .cancelLease why =>
    some ⟨[], if t.files.lane.lease then some (.leaseSeen why) else afterCancelCommand false why⟩
  | .markLease, .leaseSeen why =>
    some ⟨[.onLane .writeCancelMarker], some (.leaseMarked why)⟩
  | .judge, .leaseMarked why =>
    some (reads (if t.sup = .gone then .settling why orphanOps else .awaitingRelease why))
  | .readLease, .awaitingRelease why =>
    some ⟨[], afterCancelCommand (!t.files.lane.lease) why⟩
  | .settle, .settling why (op :: ops) => some ⟨[.onLane op], some (.settling why ops)⟩
  | .settle, .settling why [] => some ⟨[], afterCancelCommand true why⟩
  | .recheck fault, .cancelRecheck =>
    some (reads (if !fault && !isRegisteredInBroker t.files then .replied (.cancel true)
      else .cancelResult))
  | .readRecord, .cancelResult =>
    some (reads (.replied (.cancel (t.files.marked (·.result.isSome)))))
  | .die, _ => some ⟨[], none⟩
  | _, _ => none

/-- **A request arrives.** -/
def arrivalMove (t : Ticket) (a : RequestAct) : Option RequestMove :=
  match a with
  | .withdraw =>
    some (reads (if t.files.dir.isSome then .withdrawRead else .withdrawTombstone))
  | .remoteCancel =>
    some (reads (if t.files.dir.isSome then .cancelMark else .cancelTombstone))
  | .laneCancel => some (reads (.cancelQueued .other))
  | .shutdown =>
    some (t.asks shutdownTicket fun toStop => if toStop then some (.cancelQueued .other) else none)
  | _ => none

/-- **A step of a process that only reaps, or of an operator.** -/
def hostMove (t : Ticket) (a : HostAct) : Option (List RunnerOp) :=
  match a with
  | .reapQueue => if t.sup = .gone then some (reapQueuedLane.journal t.files) else none
  | .reapLease => if t.sup = .gone then some [.onLane .unlinkLease] else none
  | .migrate b => some [.setMigrating b]
  | .drain b => some [.setDraining b]

/-- The files once a journal is done, or cut off by a crash. -/
def Ticket.perform (t : Ticket) (journal : List RunnerOp) : Option ℕ → Ticket
  | none => { t with files := applyAll journal t.files }
  | some k => { t with files := applyAll (journal.take k) t.files }

/-- An exec dies: the one that made the directory, if this is it. -/
def Ticket.killExec (t : Ticket) (a : ExecAct) : Ticket :=
  if a = .intake ∧ (t.exec ≠ .absent ∨ t.files.dir = none) then t else toExec .gone t

/-- **The ticket after a step of the exec or the supervisor**, complete or cut off by a crash of
the party. -/
def TicketMove.outcome (m : TicketMove) (kill : Ticket → Ticket) (t : Ticket)
    (crashAt : Option ℕ) : Ticket :=
  match crashAt with
  | none => m.remember (t.perform m.journal none)
  | some k => kill (t.perform m.journal (some k))

/-- What is remembered of request `k`. -/
def putRequest (k : ℕ) (r : Option Request) (d : Dir ℕ Request) : Dir ℕ Request :=
  match r with
  | some r => d.write k r
  | none => d.unlink k

/-- **The next world.** -/
def World.next (w : World) (l : Label) : Option World :=
  match l.act with
  | .exec a => (execMove w.ticket a).map fun m =>
      { w with ticket := m.outcome (·.killExec a) w.ticket l.crashAt }
  | .sup a => (supMove w.ticket a).map fun m =>
      { w with ticket := m.outcome (toSup .gone) w.ticket l.crashAt }
  | .request k a =>
    ((w.requests.read k).elim (arrivalMove w.ticket a) (requestMove w.ticket a)).map fun m =>
      { ticket := w.ticket.perform m.journal l.crashAt
        requests := putRequest k (if l.crashAt.isNone then m.becomes else none) w.requests }
  | .host a => (hostMove w.ticket a).map fun journal =>
      { w with ticket := w.ticket.perform journal l.crashAt }

/-- **The runner as a machine**, for a ticket it has not heard of. -/
def runnerMachine : Machine World Label where
  start w := w = ⟨.unheard, .empty⟩
  next := World.next

/-- Every step is allowed. -/
def anyStep (_ : World) (_ : Label) : Prop := True

/-- The worlds that come after `w`. -/
def Later : World → World → Prop :=
  Relation.ReflTransGen fun w w' => ∃ l, runnerMachine.next w l = some w'

end Runner
end LaneBroker
