/-
# A runner's files for one ticket

What a runner keeps on disk about one ticket a submitter sent it (`remote-runner.js`), and the
locked sections that work on it.

| file                               | content                                           |
|------------------------------------|---------------------------------------------------|
| `tombstones/<ticket>`              | the ticket must never be created                  |
| `tickets/<ticket>/`                | made by the one exec that takes the ticket in     |
| `tickets/<ticket>/remote-id`       | the lane id the ticket has in the runner's broker |
| `tickets/<ticket>/cancelled`, …    | markers, existence only                           |
| `tickets/<ticket>/result.json`     | the record the submitter fetches                  |
| `queue/`, `leases/`, `results/`, … | the broker's files for that lane id               |

The lane id is a random one, chosen by the exec that made the ticket directory, and the
directory is made once: so one ticket has at most one lane id here, and the broker's files of
that id are one record (`LaneFiles`).  A runner never dispatches a lane any further, so the id
never has an attempt record.
-/

import LaneBroker.Basis.Journal
import Mathlib.Data.Nat.Notation

namespace LaneBroker
namespace Runner

open LaneBroker.Basis

/-- Why a run ended as it did, as far as anything here reads it. -/
inductive Reason
  | withdrawn
  | queueTimeout
  | supervisorDiedWhileQueued
  | runnerShutdown
  | runnerShutdownUnproven
  | noProgress
  | silence
  /-- a text that is only printed -/
  | other (text : String)
  deriving DecidableEq, Repr

/-- The broker's structured result for the lane (`results/<lane id>.json`). -/
structure LaneResult where
  exit : Option ℕ
  cancelled : Bool
  reason : Option Reason
  /-- A cancel ended the command, and every process of it is confirmed gone. -/
  stopProven : Bool
  deriving DecidableEq, Repr

/-- The `kind` of a ticket's record. -/
inductive Kind
  | completed
  | cancelled
  | unfinished
  | refused
  | rejected
  deriving DecidableEq, Repr

/-- A ticket's record (`result.json`), without what only identifies it. -/
structure TicketRecord where
  kind : Kind
  exit : Option ℕ
  reason : Option Reason
  deriving DecidableEq, Repr

/-- **The ticket directory.** -/
structure TicketDir where
  /-- `remote-id` is recorded. -/
  remoteId : Bool
  cancelled : Bool
  shutdown : Bool
  shutdownUnstarted : Bool
  result : Option TicketRecord
  deriving DecidableEq, Repr

/-- The directory `mkdirSync` makes. -/
def TicketDir.new : TicketDir := ⟨false, false, false, false, none⟩

/-- **The broker's files for the lane id.** -/
structure LaneFiles where
  queued : Bool
  lease : Bool
  cancelMarker : Bool
  expireMarker : Bool
  withdrawMarker : Bool
  result : Option LaneResult
  deriving DecidableEq, Repr

def LaneFiles.none : LaneFiles := ⟨false, false, false, false, false, Option.none⟩

/-- **The runner's files.** -/
structure Files where
  tombstone : Bool
  dir : Option TicketDir
  lane : LaneFiles
  /-- A scheduler migration is in progress. -/
  migrating : Bool
  /-- `lane drain --shutdown` is in effect. -/
  draining : Bool
  deriving DecidableEq, Repr

def Files.init : Files := ⟨false, Option.none, .none, false, false⟩

/-- An operation on one of the broker's files of the lane. -/
inductive LaneOp
  | writeQueue
  | unlinkQueue
  | writeLease
  | unlinkLease
  | writeCancelMarker
  | writeExpireMarker
  | writeWithdrawMarker
  | unlinkMarkers
  | writeResult (r : LaneResult)
  deriving DecidableEq, Repr

def LaneOp.apply (op : LaneOp) (l : LaneFiles) : LaneFiles :=
  match op with
  | writeQueue => { l with queued := true }
  | unlinkQueue => { l with queued := false }
  | writeLease => { l with lease := true }
  | unlinkLease => { l with lease := false }
  | writeCancelMarker => { l with cancelMarker := true }
  | writeExpireMarker => { l with expireMarker := true }
  | writeWithdrawMarker => { l with withdrawMarker := true }
  | unlinkMarkers =>
    { l with cancelMarker := false, expireMarker := false, withdrawMarker := false }
  | writeResult r => { l with result := some r }

/-- A file written into the ticket directory. -/
inductive DirOp
  | writeRemoteId
  | writeCancelled
  | writeShutdown
  | writeShutdownUnstarted
  | writeResult (r : TicketRecord)
  deriving DecidableEq, Repr

def DirOp.apply (op : DirOp) (d : TicketDir) : TicketDir :=
  match op with
  | writeRemoteId => { d with remoteId := true }
  | writeCancelled => { d with cancelled := true }
  | writeShutdown => { d with shutdown := true }
  | writeShutdownUnstarted => { d with shutdownUnstarted := true }
  | writeResult r => { d with result := some r }

/-- **One file operation.** -/
inductive RunnerOp
  | writeTombstone
  | mkdirTicket
  | inDir (op : DirOp)
  | onLane (op : LaneOp)
  | setMigrating (b : Bool)
  | setDraining (b : Bool)
  deriving DecidableEq, Repr

/-- **The files after one operation.**  A write into a directory that is not there fails. -/
def RunnerOp.apply (op : RunnerOp) (s : Files) : Files :=
  match op with
  | writeTombstone => { s with tombstone := true }
  | mkdirTicket => { s with dir := some .new }
  | inDir op => { s with dir := s.dir.map op.apply }
  | onLane op => { s with lane := op.apply s.lane }
  | setMigrating b => { s with migrating := b }
  | setDraining b => { s with draining := b }

instance : Effects RunnerOp Files := ⟨RunnerOp.apply⟩

/-- A section under the runner's broker lock. -/
abbrev RunnerSection := Locked RunnerOp Files

/-- Perform one file operation. -/
abbrev performs (op : RunnerOp) : RunnerSection Unit := Locked.effect op

/-- Does the ticket directory have this marker? -/
def Files.marked (s : Files) (marker : TicketDir → Bool) : Bool := (s.dir.map marker).getD false

/-- Is the lane queued, leased or attempted in the broker? (`isRegisteredInBroker`) -/
def isRegisteredInBroker (s : Files) : Bool := s.lane.lease || s.lane.queued

/-! ### Taking a ticket in -/

/-- What the intake of `remoteExecCommand` comes to. -/
inductive ExecIntake
  | migrating
  | tombstoned
  | exists
  | created
  deriving DecidableEq, Repr

/-- **The intake commit point** (`remoteExecCommand`): the checks and the ticket directory are
one locked step. -/
def intake : RunnerSection ExecIntake := do
  let s ← Locked.read
  if s.migrating then pure .migrating
  else if s.tombstone then pure .tombstoned
  else if s.dir.isSome then pure .exists
  else do
    performs .mkdirTicket
    pure .created

/-- `onTicketCreated`'s locked step: the lane id is recorded, and the answer says whether a
cancel or a shutdown was here first. -/
def onTicketCreated : RunnerSection Bool := do
  performs (.inDir .writeRemoteId)
  let s ← Locked.read
  if !s.marked (·.shutdown) && s.draining then performs (.inDir .writeShutdown) else pure ()
  let t ← Locked.read
  pure (t.marked (·.cancelled) || t.marked (·.shutdown))

/-- **The reason of the record of a ticket that a shutdown marked** (`shutdownStopReason`). -/
def shutdownStopReason (cancelled shutdownMarked refusedAtStart unstarted : Bool)
    (structured : Option LaneResult) : Option Reason :=
  if cancelled || !shutdownMarked then none
  else if refusedAtStart || unstarted || (structured.map (·.stopProven)).getD false then
    some .runnerShutdown
  else
    match structured with
    | none => some .runnerShutdownUnproven
    | some r => if r.cancelled then some .runnerShutdownUnproven else none

/-- The exit codes of a refusal before a child starts (`PREFLIGHT_REFUSAL_EXIT_CODES`). -/
def preflightRefusalExitCodes : List ℕ := [64, 69, 2]

/-- **The record of a ticket**, from the broker's structured result for its lane, never from the
exit code of `runCommand` unless there is none (`remoteExecCommand`, after `runCommand`). -/
def ticketRecord (cancelled shutdownMarked refusedAtStart unstarted : Bool)
    (structured : Option LaneResult) (exitCode : ℕ) : TicketRecord :=
  let reasonOf := structured.bind (·.reason)
  if reasonOf = some .withdrawn ∧ cancelled = false then
    { kind := .unfinished, exit := none, reason := some .withdrawn }
  else if reasonOf = some .queueTimeout ∧ cancelled = false then
    { kind := .unfinished, exit := none, reason := some .queueTimeout }
  else if reasonOf = some .supervisorDiedWhileQueued ∧ cancelled = false then
    { kind := .unfinished, exit := none, reason := some .supervisorDiedWhileQueued }
  else
    match shutdownStopReason cancelled shutdownMarked refusedAtStart unstarted structured with
    | some reason => { kind := .unfinished, exit := none, reason := some reason }
    | none =>
      match structured with
      | some r =>
        { kind := if cancelled then .cancelled else .completed
          exit := r.exit
          reason :=
            if r.reason = some .noProgress then some .noProgress
            else if r.reason = some .silence then some .silence
            else none }
      | none =>
        if cancelled then { kind := .cancelled, exit := none, reason := none }
        else if exitCode ∈ preflightRefusalExitCodes then
          { kind := .refused, exit := some exitCode, reason := none }
        else { kind := .unfinished, exit := none, reason := none }

/-! ### The lane's supervisor -/

/-- What `enqueue` answers the lane's supervisor. -/
inductive LaneIntake
  | existing
  | migrating
  | taken
  deriving DecidableEq, Repr

/-- `enqueue` for the lane: the ownership check, then the queue file. -/
def enqueueLane : RunnerSection LaneIntake := do
  let s ← Locked.read
  if s.lane.queued || s.lane.lease || s.lane.result.isSome then pure .existing
  else if s.migrating then pure .migrating
  else do
    performs (.onLane .writeQueue)
    pure .taken

/-- Remove the lane's queue file; `unlinked` says whether the unlink goes through
(`dequeueSync`). -/
def dequeueLane (unlinked : Bool) : RunnerSection Unit :=
  if unlinked then performs (.onLane .unlinkQueue) else pure ()

/-- What a poll of `tryStart` answers. -/
inductive LanePoll
  | notQueued
  | withdrawn
  | queueTimeout
  | waiting
  | cancelled
  | started
  deriving DecidableEq, Repr

/-- **One poll of `tryStart`**, as far as the lane's own files decide it: the queue file, the
withdraw marker, the queue deadline (`late`), every other gate together (`admitted`), the cancel
marker, the dequeue and the lease. -/
def tryStartLane (late admitted unlinked : Bool) : RunnerSection LanePoll := do
  let s ← Locked.read
  if !s.lane.queued then pure .notQueued
  else if s.lane.withdrawMarker then pure .withdrawn
  else if late && !s.lane.cancelMarker then do
    performs (.onLane .writeExpireMarker)
    pure .queueTimeout
  else if !admitted then pure .waiting
  else if s.lane.cancelMarker then pure .cancelled
  else if !unlinked then pure .waiting
  else do
    performs (.onLane .unlinkQueue)
    performs (.onLane .writeLease)
    pure .started

/-- Dequeue, and read the cancel marker under the same lock (the queue-timeout exit). -/
def dequeueThenRead (unlinked : Bool) : RunnerSection Bool := do
  dequeueLane unlinked
  let s ← Locked.read
  pure s.lane.cancelMarker

/-- Drop the lane's markers (`clearTicketMarkers`). -/
def clearLaneMarkers : RunnerSection Unit := performs (.onLane .unlinkMarkers)

/-- The result of a lane whose supervisor died while it was queued (`reapOrphanedQueue`). -/
def deadQueuedResult : LaneResult where
  exit := some 75
  cancelled := false
  reason := some .supervisorDiedWhileQueued
  stopProven := false

/-- Another process reaps the lane: publish, then dequeue (`reapOrphanedQueue`). -/
def reapQueuedLane : RunnerSection Unit := do
  let s ← Locked.read
  if s.lane.queued then do
    performs (.onLane (.writeResult deadQueuedResult))
    performs (.onLane .unlinkQueue)
  else pure ()

/-! ### The submitter's requests -/

/-- The `action` of a withdrawal. -/
inductive WithdrawAction
  | withdrawn
  | cancelled
  | started
  | notQueued
  | finished
  /-- a tombstone: the ticket was never here and never will be -/
  | noSuchTicket
  deriving DecidableEq, Repr

/-- A result published for a lane that was withdrawn. -/
def LaneResult.saysWithdrawn (r : LaneResult) : Bool :=
  r.reason = some .withdrawn && !r.cancelled

/-- **The whole withdrawal decision** (`withdrawLane`), under the lock `tryStart` admits under.
The marker is the commit; the dequeue after it is cleanup, and may fail. -/
def withdrawLane (unlinked : Bool) : RunnerSection WithdrawAction := do
  let s ← Locked.read
  if s.lane.withdrawMarker then pure .withdrawn
  else if (s.lane.result.map (·.saysWithdrawn)).getD false then pure .withdrawn
  else if s.migrating then pure .notQueued
  else if s.lane.cancelMarker then pure .cancelled
  else if s.lane.lease then pure .started
  else if !s.lane.queued then pure .notQueued
  else do
    performs (.onLane .writeWithdrawMarker)
    dequeueLane unlinked
    pure .withdrawn

/-- **Record that the ticket must never be created**, unless it exists by now
(`tombstoneAbsentTicket`). -/
def tombstoneAbsentTicket : RunnerSection Bool := do
  let s ← Locked.read
  if s.dir.isSome then pure false
  else do
    performs .writeTombstone
    pure true

/-- Which read of `remoteCancelCommand` fails. -/
inductive CancelFault
  | remoteId
  | registered
  deriving DecidableEq, Repr

/-- What the locked step of `remoteCancelCommand` learned. -/
inductive CancelMark
  /-- `remote-id` could not be read -/
  | unknown
  /-- there is no `remote-id` -/
  | noLane
  | marked (registered : Bool)
  deriving DecidableEq, Repr

/-- **The locked step of `remoteCancelCommand`**: the ticket's marker, `remote-id`, the broker's
own cancel marker, and whether the broker knows the lane. -/
def markCancelled (fault : Option CancelFault) : RunnerSection CancelMark := do
  performs (.inDir .writeCancelled)
  let s ← Locked.read
  if fault = some .remoteId then pure .unknown
  else if !s.marked (·.remoteId) then pure .noLane
  else do
    performs (.onLane .writeCancelMarker)
    let t ← Locked.read
    pure (.marked (fault = some .registered || isRegisteredInBroker t))

/-- `cancelCommand`'s first step: dequeue and mark cancelled together. -/
def cancelQueuedLane : RunnerSection Bool := do
  let s ← Locked.read
  if !s.lane.queued then pure false
  else do
    performs (.onLane .unlinkQueue)
    performs (.onLane .writeCancelMarker)
    pure true

/-- The step of `remoteShutdownCommand` for this ticket; the answer says whether a
`cancelCommand` follows. -/
def shutdownTicket : RunnerSection Bool := do
  let s ← Locked.read
  match s.dir with
  | none => pure false
  | some d =>
    if d.result.isSome then pure false
    else do
      performs (.inDir .writeShutdown)
      if !d.remoteId then pure false
      else do
        performs (.onLane .writeCancelMarker)
        if s.lane.queued then performs (.onLane .unlinkQueue) else pure ()
        if s.lane.queued || !s.lane.lease then performs (.inDir .writeShutdownUnstarted)
          else pure ()
        pure (!s.lane.queued)

end Runner
end LaneBroker
