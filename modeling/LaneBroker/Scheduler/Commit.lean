/-
# The start itself

The commit of `tryStart`: once a start is decided on, the skip is charged, the cancel marker is read
again, a yield and an express start are charged, the queue record goes, the lease is written, and
the skip records of the ticket go with it.  Each of these is a call that may throw, or at which the
process may die.
-/

import LaneBroker.Basis.Faulty
import LaneBroker.Scheduler.TryStart

namespace LaneBroker
namespace Scheduler

open LaneBroker.Basis LaneBroker.Basis.Fallible

/-- The calls of a commit. -/
inductive CommitCall
  /-- A write of a skip record. -/
  | skip
  /-- `nextSeq`, for a reservation. -/
  | nextSeq
  | priorityYield
  | expressAdmission
  /-- `findQueueFile`. -/
  | findQueueFile
  /-- The unlink of the queue record. -/
  | unlink
  /-- What the lease is made of: the boot id, the host, the scheduler's generation. -/
  | leaseFields
  | writeLease
  /-- What is written down behind the lease. -/
  | telemetry
  /-- `depart`, or the drop of the head's record. -/
  | depart
  deriving DecidableEq, Repr

/-- What `tryStart` returns. -/
inductive Verdict
  | started (lease : Lease)
  | denied (denial : Denial)
  | cancelled
  deriving DecidableEq, Repr

/-- A commit: it changes the disk, and what it throws is an error of the host. -/
abbrev Commit (α : Type) := Fallible CommitCall Disk Unit α

/-- A write in a `try` whose `catch` reports it. -/
def tried (c : CommitCall) (f : Disk → Disk) : Commit Bool :=
  handle (do write c () f; return true) fun _ => return false

/-- The skip records of the disk changed. -/
def Disk.onStore (f : Store → Store) (d : Disk) : Disk := { d with store := f d.store }

/-- A backfill that earns a reservation draws a number for it. -/
def drawsSeq (p : Poll) (record : ResourceRecord) (store : Store) : Bool :=
  store.v2 && decide (p.cfg.resourceSkipLimit ≤ record.count + 1) && !record.reserved

/-- One charge and then another, if the first went through. -/
def andThen (m m' : Commit Bool) : Commit Bool := do
  if ← m then m' else return false

/-- **What a start is charged to.** -/
def chargeSkip (p : Poll) (grant : Grant) : Commit Bool :=
  match grant.charge with
  | .skip => tried .skip (Disk.onStore fun store => recordSkip store grant.headId p.now)
  | .capacitySkip => tried .skip (Disk.onStore fun store => recordCapacitySkip store grant.headId)
  | .backfill record => do
    let record' := tried .skip (Disk.onStore fun store =>
      recordResourceBackfill store p.cfg grant.headId record p.reservationSeq)
    if drawsSeq p record (← get).store then andThen (tried .nextSeq id) record' else record'
  | .none => return true

/-- A yield is counted. -/
def chargeYield (grant : Grant) : Commit Bool :=
  match grant.priorityYield with
  | some record =>
    tried .priorityYield (Disk.onStore fun store => recordPriorityYield store grant.headId record)
  | none => return true

/-- `recordExpressAdmission`. -/
def chargeExpress (p : Poll) (grant : Grant) : Commit Bool :=
  if grant.express then
    tried .expressAdmission fun d =>
      { d with expressAdmissions := Turn.recentAdmissions d.expressAdmissions p.now ++ [p.now] }
  else return true

/-- The record of a ticket in the queue directory: the first of its name. -/
def isRecordOf (id : TicketId) (r : QueueRecord) : Bool := r.ticket.id == id

/-- The queue without the record of a ticket. -/
def Disk.unlinked (id : TicketId) (d : Disk) : Disk :=
  { d with queue := d.queue.eraseP (isRecordOf id) }

/-- **`dequeueSync`**: a directory that cannot be listed has no such record. -/
def dequeueSync (ticketId : TicketId) : Commit Bool := do
  if !(← tried .findQueueFile id) then return true
  if !((← get).queue.any (isRecordOf ticketId)) then return true
  handle (do call .unlink () (Disk.unlinked ticketId); return true) fun _ => return false

/-- The lease on the disk, in place of one of the same id. -/
def Disk.leased (lease : Lease) (d : Disk) : Disk :=
  { d with leases := d.leases.filter (fun l => l.id != lease.id) ++ [lease] }

/-- The skip records that leave with a start. -/
def Disk.departed (grant : Grant) (d : Disk) : Disk :=
  if d.store.v2 then d.onStore (Store.depart grant.lease.id)
  else if grant.headPolling then d.onStore (Store.dropResourceRecord grant.headId)
  else d

/-- **What is written down ahead of a start**: the skip, the yield, the express start.  An answer is
why the ticket does not start after all. -/
def charges (p : Poll) (grant : Grant) : Commit (Option Verdict) := do
  if ← chargeSkip p grant then
    if grant.cancelled then return some .cancelled
    else if ← andThen (chargeYield grant) (chargeExpress p grant) then return none
    else return some (.denied .notHead)
  else return some (.denied .notHead)

/-- The lease, and what is written behind it. -/
def writeLease (grant : Grant) : Commit Verdict := do
  call .leaseFields () id
  write .writeLease () (Disk.leased grant.lease)
  call .telemetry () id
  let _ ← tried .depart (Disk.departed grant)
  return .started grant.lease

/-- **From the queue to a lease.** -/
def moveToLease (grant : Grant) : Commit Verdict := do
  if ← dequeueSync grant.lease.id then writeLease grant else return .denied .notHead

/-- **The commit of a start.** -/
def commit (p : Poll) (grant : Grant) : Commit Verdict := do
  match ← charges p grant with
  | some refusal => return refusal
  | none => moveToLease grant

/-- **`tryStart`**, from the disk the evaluation read. -/
def Poll.tryStart (p : Poll) : Commit Verdict :=
  match p.decideTicket with
  | .error (denial, store) => do
    modify (Disk.onStore fun _ => store)
    return .denied denial
  | .ok grant => do
    modify (Disk.onStore fun _ => grant.store)
    commit p grant

end Scheduler
end LaneBroker
