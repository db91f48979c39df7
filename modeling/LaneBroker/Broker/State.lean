/-
# The broker's state directory

The files under the broker's state home that decide what becomes of a ticket (`state.js`,
`attempts.js`, `lease.js`, `scheduler.js`), and the single file operations the code performs on
them.

| directory    | file name                        | content                                |
|--------------|----------------------------------|----------------------------------------|
| `queue/`     | `<seq>-<id>.json`                | a queued ticket                        |
| `queue/`     | `<seq>-<id>.json.rebinding`      | a ticket withdrawn for a rebind        |
| `leases/`    | `<id>.json`                      | a started ticket                       |
| `results/`   | `<id>.json`                      | a terminal result                      |
| `attempts/`  | `<id>.json`                      | a remote attempt, or its local fallback |
| `cancel/`, … | `<id>`                           | a marker, existence only               |

A write is atomic (`atomicWriteJson` writes a temporary file and renames it), so a crash falls
between two operations and never inside one, and a record is either absent or readable.  Two
things are kept that no file holds: every result ever written, with the order of the writes
(`resultLog`), and for every id the seq its ticket was given when it was enqueued (`seqOf`).
-/

import LaneBroker.Basis.Directory
import LaneBroker.Basis.Journal

namespace LaneBroker

open LaneBroker.Basis

/-- A ticket id; ids are compared for equality only. -/
abbrev TicketId := ℕ

/-- A process, as the broker identifies one: pid, start time and boot id together. -/
abbrev Proc := ℕ

/-- The name of a configured runner. -/
abbrev RunnerName := ℕ

/-- Who executes an attempt. -/
inductive Executor
  | remote
  | local
  deriving DecidableEq, Repr

/-- The `phase` of an attempt record. -/
inductive AttemptPhase
  | probe
  | running
  | queued
  deriving DecidableEq, Repr

/-- The `phase` of a runner-to-runner move. -/
inductive MovePhase
  | withdrawing
  | dispatching
  deriving DecidableEq, Repr

/-- The `moving` record of an attempt. -/
structure Moving where
  fromRunner : RunnerName
  toRunner : Option RunnerName
  phase : MovePhase
  deriving DecidableEq, Repr

/-- The `binding` an attempt keeps from its last dispatch (`onBinding`). -/
structure Binding where
  protocol : ℕ
  ticketId : TicketId
  generation : ℕ
  manifestHash : ℕ
  deriving DecidableEq, Repr

/-- **An attempt record** (`attempts/<id>.json`). -/
structure Attempt where
  generation : ℕ
  executor : Executor
  phase : AttemptPhase
  runner : Option RunnerName
  supervisor : Proc
  startedAt : ℕ
  rebinding : Option Proc
  moving : Option Moving
  binding : Option Binding
  dispatchedRunners : List RunnerName
  fallbackReason : Option String
  deriving DecidableEq, Repr

/-- The file name of a queue record: `<seq>-<id>.json`. -/
structure QueueName where
  seq : ℕ
  id : TicketId
  deriving DecidableEq, Repr

/-- A queued ticket, as far as the queue operations read it. -/
structure QueueRecord where
  id : TicketId
  seq : ℕ
  supervisor : Proc
  localSince : ℕ
  deriving DecidableEq, Repr

inductive LeaseState
  | running
  | orphaned
  deriving DecidableEq, Repr

/-- A lease, as far as its ownership goes. -/
structure Lease where
  id : TicketId
  supervisor : Proc
  state : LeaseState
  deriving DecidableEq, Repr

/-- A terminal result (`results/<id>.json`). -/
structure TicketResult where
  exit : Option ℕ
  cancelled : Bool
  reason : Option String
  executor : Option Executor
  reconciled : Bool
  deriving DecidableEq, Repr

/-- A row of the history log. -/
structure HistoryRow where
  id : TicketId
  exit : Option ℕ
  cancelled : Bool
  error : Option String
  deriving DecidableEq, Repr

/-- **The state directory.** -/
structure Broker where
  queue : Dir QueueName QueueRecord
  parked : Dir QueueName QueueRecord
  leases : Dir TicketId Lease
  results : Dir TicketId TicketResult
  attempts : Dir TicketId Attempt
  cancelMarkers : List TicketId
  /-- Superseded markers: the loser of a repeated push, with the winner. -/
  superseded : List (TicketId × TicketId)
  history : List HistoryRow
  /-- The counter file the next seq is taken from. -/
  seqCounter : ℕ
  migrating : Bool
  /-- Every result written so far, latest last. -/
  resultLog : List (TicketId × TicketResult)
  /-- The seq each id's ticket was given when it was enqueued. -/
  seqOf : Dir TicketId ℕ
  deriving DecidableEq, Repr

/-- The state directory of a new installation. -/
def Broker.init : Broker where
  queue := .empty
  parked := .empty
  leases := .empty
  results := .empty
  attempts := .empty
  cancelMarkers := []
  superseded := []
  history := []
  seqCounter := 0
  migrating := false
  resultLog := []
  seqOf := .empty

/-- Which function unlinks a parked file: a restore, after it wrote the queue file, or a
discard. -/
inductive Unparking
  | restore
  | discard
  deriving DecidableEq, Repr

/-- **One file operation.** -/
inductive FileOp
  | bumpSeq (id : TicketId)
  | writeQueue (n : QueueName) (r : QueueRecord)
  | unlinkQueue (n : QueueName)
  | park (n : QueueName)
  | unpark (n : QueueName)
  | unlinkParked (why : Unparking) (n : QueueName)
  | writeLease (l : Lease)
  | unlinkLease (id : TicketId)
  | writeResult (id : TicketId) (r : TicketResult)
  | appendHistory (row : HistoryRow)
  | writeAttempt (id : TicketId) (a : Attempt)
  | unlinkAttempt (id : TicketId)
  | writeCancelMarker (id : TicketId)
  | unlinkCancelMarker (id : TicketId)
  | writeSuperseded (loser winner : TicketId)
  | unlinkSuperseded (id : TicketId)
  | setMigrating (b : Bool)
  deriving DecidableEq, Repr

/-- A rename inside one directory tree: nothing where there is no such file. -/
def moveFile (n : QueueName) (src dst : Dir QueueName QueueRecord) :
    Dir QueueName QueueRecord × Dir QueueName QueueRecord :=
  match src.read n with
  | some r => (src.unlink n, dst.write n r)
  | none => (src, dst)

/-- **The state after one file operation.** -/
def FileOp.apply (op : FileOp) (s : Broker) : Broker :=
  match op with
  | .bumpSeq id => { s with seqCounter := s.seqCounter + 1, seqOf := s.seqOf.write id (s.seqCounter + 1) }
  | .writeQueue n r => { s with queue := s.queue.write n r }
  | .unlinkQueue n => { s with queue := s.queue.unlink n }
  | .park n =>
    { s with queue := (moveFile n s.queue s.parked).1, parked := (moveFile n s.queue s.parked).2 }
  | .unpark n =>
    { s with parked := (moveFile n s.parked s.queue).1, queue := (moveFile n s.parked s.queue).2 }
  | .unlinkParked _ n => { s with parked := s.parked.unlink n }
  | .writeLease l => { s with leases := s.leases.write l.id l }
  | .unlinkLease id => { s with leases := s.leases.unlink id }
  | .writeResult id r =>
    { s with results := s.results.write id r, resultLog := s.resultLog ++ [(id, r)] }
  | .appendHistory row => { s with history := s.history ++ [row] }
  | .writeAttempt id a => { s with attempts := s.attempts.write id a }
  | .unlinkAttempt id => { s with attempts := s.attempts.unlink id }
  | .writeCancelMarker id => { s with cancelMarkers := id :: s.cancelMarkers }
  | .unlinkCancelMarker id => { s with cancelMarkers := s.cancelMarkers.filter (· ≠ id) }
  | .writeSuperseded l w => { s with superseded := (l, w) :: s.superseded }
  | .unlinkSuperseded id => { s with superseded := s.superseded.filter (·.1 ≠ id) }
  | .setMigrating b => { s with migrating := b }

instance : Effects FileOp Broker := ⟨FileOp.apply⟩

/-- A locked section of the broker. -/
abbrev Section := Locked FileOp Broker

/-- Perform one file operation. -/
abbrev perform (op : FileOp) : Section Unit := Locked.effect op

/-- Is there a cancel marker for `id`? (`isCancelled`) -/
def isCancelled (s : Broker) (id : TicketId) : Bool := s.cancelMarkers.contains id

/-- The winner a repeat push lost to, if it did. (`readSupersededBy`) -/
def readSupersededBy (s : Broker) (id : TicketId) : Option TicketId :=
  (s.superseded.find? (·.1 = id)).map Prod.snd

/-- A cancelled result that was a repeat push replacing it says so. (`withSupersession`) -/
def withSupersession (s : Broker) (id : TicketId) (r : TicketResult) : TicketResult :=
  if (readSupersededBy s id).isSome && r.cancelled then
    { r with exit := some 130, reason := some "superseded" }
  else r

theorem withSupersession_cancelled (s : Broker) (id : TicketId) (r : TicketResult) :
    (withSupersession s id r).cancelled = r.cancelled := by
  unfold withSupersession
  split_ifs <;> rfl

end LaneBroker
