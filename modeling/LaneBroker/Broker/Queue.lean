/-
# The local queue (`scheduler.js`)

A ticket waits as a queue file, may be withdrawn for a rebind (its file is renamed to
`<seq>-<id>.json.rebinding`, which no queue listing reads) and put back, and leaves the queue
when it starts, is cancelled, or is reaped because its supervisor died.

| function              | file operations, in order                                          |
|-----------------------|--------------------------------------------------------------------|
| `enqueue`             | seq counter, queue file, markers of the pushes it supersedes       |
| `withdrawQueued`      | rename to the parked name, attempt patch (renamed back on failure)  |
| `restoreLocked`       | queue file, unlink of the parked file, attempt patch               |
| `discardRebinding`    | unlink of the parked file                                          |
| `recoverRebinding`    | a restore or a discard for each parked ticket of a dead supervisor |
| `reapOrphanedQueue`   | result, unlink of the queue file, history row, for each dead one   |
| `tryStart` (commit)   | unlink of the queue file, lease                                    |

What a function learns from the process table is an argument: `gone` is the list of the
processes that its liveness probe found dead.
-/

import LaneBroker.Broker.Attempts

namespace LaneBroker

open LaneBroker.Basis

/-! ### Listings and lookups -/

/-- The files of one ticket in a listing of the queue directory. -/
def filesOf (d : Dir QueueName QueueRecord) (id : TicketId) : List (QueueName × QueueRecord) :=
  d.entries.filter fun e => e.1.id = id

/-- The queue file of `id`, by the exact id behind the seq (`findQueueFile`). -/
def findQueueFile (s : Broker) (id : TicketId) : Option (QueueName × QueueRecord) :=
  (filesOf s.queue id).head?

/-- The parked file of `id` (`rebindingFile`). -/
def rebindingFile (s : Broker) (id : TicketId) : Option (QueueName × QueueRecord) :=
  (filesOf s.parked id).head?

/-- The queue in FIFO order (`listQueue`). -/
def listQueue (s : Broker) : List QueueRecord :=
  (s.queue.entries.insertionSort fun a b => a.1.seq ≤ b.1.seq).map Prod.snd

/-- What is already known under an id (`existingTicket`'s `state`). -/
inductive Existing
  | queued
  | rebinding
  | leased
  | finished
  | attempt
  deriving DecidableEq, Repr

/-- **The one ownership check for a ticket id** (`existingTicket`).  Only the attempt of
generation `ownerGeneration`, the caller's own, does not count. -/
def existingTicket (s : Broker) (id : TicketId) (ownerGeneration : Option ℕ) :
    Option Existing :=
  if (findQueueFile s id).isSome then some .queued
  else if (rebindingFile s id).isSome then some .rebinding
  else if (s.leases.read id).isSome then some .leased
  else if (s.results.read id).isSome then some .finished
  else
    match s.attempts.read id with
    | some a => if ownerGeneration = some a.generation then none else some .attempt
    | none => none

/-! ### Entering and leaving the queue -/

/-- What `createAttempt` answers: the id is already some ticket's, or a migration refuses the
intake, or the record was written. -/
inductive Intake
  | existing (e : Existing)
  | migrating
  | taken
  deriving DecidableEq, Repr

/-- `createAttempt` with the ownership check of a client-supplied id (`refuseIf`). -/
def createAttempt (id : TicketId) (supervisor : Proc) (startedAt : ℕ) : Section Intake := do
  let s ← Locked.read
  match existingTicket s id none with
  | some e => pure (.existing e)
  | none =>
    if s.migrating then pure .migrating
    else do
      perform (.writeAttempt id (newAttempt supervisor startedAt))
      pure .taken

/-- The losers of a repeated push are marked superseded and cancelled
(`supersedeRepeatedPushes`, which decides who they are). -/
def markSuperseded (losers : List (TicketId × TicketId)) : Section Unit :=
  losers.forM fun e => do
    perform (.writeSuperseded e.1 e.2)
    perform (.writeCancelMarker e.1)

/-- **Enqueue a ticket at the tail** (`enqueue`): an id that some ticket already owns is that
ticket, and takes no seq. -/
def enqueue (id : TicketId) (supervisor : Proc) (now : ℕ) (ownerGeneration : Option ℕ)
    (losers : List (TicketId × TicketId)) : Section Intake := do
  let s ← Locked.read
  match existingTicket s id ownerGeneration with
  | some e => pure (.existing e)
  | none =>
    if s.migrating then pure .migrating
    else do
      let seq := s.seqCounter + 1
      perform (.bumpSeq id)
      perform (.writeQueue ⟨seq, id⟩
        { id := id, seq := seq, supervisor := supervisor, localSince := now })
      markSuperseded losers
      pure .taken

/-- Remove a queue record (`dequeueSync`). -/
def dequeueSync (id : TicketId) : Section Unit := do
  let s ← Locked.read
  match findQueueFile s id with
  | none => pure ()
  | some (n, _) => perform (.unlinkQueue n)

/-! ### Withdrawing a ticket and putting it back -/

/-- Which of its file operations fails a withdrawal. -/
inductive WithdrawFault
  | rename
  | snapshot
  | patch
  deriving DecidableEq, Repr

/-- What `withdrawQueued` answers: the record, `null`, or the error of a failed attempt
patch. -/
inductive Withdrawal
  | withdrawn (record : QueueRecord)
  | notTaken
  | threw
  deriving DecidableEq, Repr

/-- **Provisionally withdraw a still-queued ticket** (`withdrawQueued`).  The snapshot of the
legacy fairness singletons, which rewrites the parked file with the same ticket fields, shows
only in how it fails. -/
def withdrawQueued (id : TicketId) (caller : Proc) (fault : Option WithdrawFault) :
    Section Withdrawal := do
  let s ← Locked.read
  if s.migrating then pure .notTaken
  else if isCancelled s id then pure .notTaken
  else
    match findQueueFile s id with
    | none => pure .notTaken
    | some (n, record) =>
      if record.id ≠ id then pure .notTaken
      else
        match fault with
        | some .rename => pure .notTaken
        | some .snapshot => do
          perform (.park n)
          perform (.unpark n)
          pure .notTaken
        | some .patch => do
          perform (.park n)
          perform (.unpark n)
          pure .threw
        | none => do
          perform (.park n)
          patchAttemptLocked id fun a => { a with rebinding := some caller }
          pure (.withdrawn record)

/-- **Queue a withdrawn ticket again, at its own seq** (`restoreLocked`). -/
def restoreLocked (record : QueueRecord) (now : ℕ) : Section Unit := do
  let s ← Locked.read
  match findQueueFile s record.id with
  | some _ => pure ()
  | none =>
    match rebindingFile s record.id with
    | some (n, parkedRecord) => do
      perform (.writeQueue n { parkedRecord with localSince := now })
      perform (.unlinkParked .restore n)
    | none =>
      perform (.writeQueue ⟨record.seq, record.id⟩ { record with localSince := now })
  patchAttemptLocked record.id fun a => { a with rebinding := none }

/-- The withdrawal is over: the ticket reached a terminal outcome, or is now only a remote
attempt (`discardRebinding`). -/
def discardRebinding (id : TicketId) : Section Unit := do
  let s ← Locked.read
  match rebindingFile s id with
  | none => pure ()
  | some (n, _) => perform (.unlinkParked .discard n)

/-- An attempt that reached `running` on a runner: the dispatch evidence `recoverRebinding`
looks for. -/
def Attempt.dispatched (a : Attempt) : Bool := a.executor = .remote && a.phase = .running

/-- One parked file of `recoverRebinding`'s pass. -/
def recoverOne (gone : List Proc) (now : ℕ) (name : QueueName) : Section Unit := do
  let s ← Locked.read
  match s.parked.read name with
  | none => pure ()
  | some record =>
    if record.supervisor ∉ gone then pure ()
    else
      match s.attempts.read record.id with
      | some a => if a.dispatched then discardRebinding record.id else restoreLocked record now
      | none =>
        if (s.results.read record.id).isSome then discardRebinding record.id
        else restoreLocked record now

/-- **Recover the withdrawals whose supervisor died** (`recoverRebinding`). -/
def recoverRebinding (gone : List Proc) (now : ℕ) : Section Unit := do
  let s ← Locked.read
  (s.parked.entries.map Prod.fst).forM (recoverOne gone now)

/-! ### Reaping -/

/-- The result of a ticket whose supervisor died while it was queued. -/
def deadSupervisorResult (superseded : Bool) : TicketResult where
  exit := if superseded then some 130 else some 75
  cancelled := superseded
  reason := if superseded then none else some "supervisor-died-while-queued"
  executor := none
  reconciled := true

/-- One ticket of `reapOrphanedQueue`'s pass: publish first, then dequeue, then log. -/
def reapOrphanedOne (keepTicketId : Option TicketId) (gone : List Proc) (t : QueueRecord) :
    Section Unit := do
  let s ← Locked.read
  if some t.id = keepTicketId ∨ t.supervisor ∉ gone then pure ()
  else do
    let superseded := (readSupersededBy s t.id).isSome
    perform (.writeResult t.id (withSupersession s t.id (deadSupervisorResult superseded)))
    dequeueSync t.id
    perform (.appendHistory
      { id := t.id, exit := if superseded then some 130 else none, cancelled := superseded,
        error := some "supervisor died while queued" })
    perform (.unlinkSuperseded t.id)

/-- **Dequeue every queued ticket whose supervisor is gone** (`reapOrphanedQueue`). -/
def reapOrphanedQueue (keepTicketId : Option TicketId) (gone : List Proc) : Section Unit := do
  let s ← Locked.read
  (listQueue s).forM (reapOrphanedOne keepTicketId gone)

/-- One lease of `reapAll`'s pass (`reapIfStale`): kept while its supervisor lives; else
released if nothing of it is left alive, or marked orphaned. -/
def reapIfStale (gone : List Proc) (released : List TicketId) (id : TicketId) :
    Section Unit := do
  let s ← Locked.read
  match s.leases.read id with
  | none => pure ()
  | some l =>
    if l.supervisor ∉ gone then pure ()
    else if l.id ∈ released then perform (.unlinkLease l.id)
    else perform (.writeLease { l with state := .orphaned })

/-- Reap or orphan every lease (`reapAll`). -/
def reapAll (gone : List Proc) (released : List TicketId) : Section Unit := do
  let s ← Locked.read
  (s.leases.entries.map Prod.fst).forM (reapIfStale gone released)

/-- **The liveness maintenance every admission decision starts with** (`reapStale`). -/
def reapStale (keepTicketId : Option TicketId) (gone : List Proc) (released : List TicketId)
    (now : ℕ) : Section Unit := do
  reapAll gone released
  recoverRebinding gone now
  reapOrphanedQueue keepTicketId gone

/-! ### Starting -/

/-- What a poll of `tryStart` answers, as far as the queue goes. -/
inductive Poll
  | notQueued
  | waiting
  | cancelled
  | started
  deriving DecidableEq, Repr

/-- **One poll of `tryStart`**: the reaping, then, when every gate admits the ticket, the
cancel check, the dequeue and the lease. -/
def tryStart (id : TicketId) (supervisor : Proc) (admitted : Bool) (gone : List Proc)
    (released : List TicketId) (now : ℕ) : Section Poll := do
  reapStale (some id) gone released now
  let s ← Locked.read
  if (findQueueFile s id).isNone then pure .notQueued
  else if !admitted then pure .waiting
  else if isCancelled s id then pure .cancelled
  else do
    dequeueSync id
    perform (.writeLease { id := id, supervisor := supervisor, state := .running })
    pure .started

/-- **Dequeue and mark cancelled in one locked step** (`cancelCommand`); the result says
whether the ticket was queued. -/
def cancelQueued (id : TicketId) : Section Bool := do
  let s ← Locked.read
  if (findQueueFile s id).isNone then pure false
  else do
    dequeueSync id
    perform (.writeCancelMarker id)
    pure true

/-- Drop what a finished ticket leaves behind (`clearTicketMarkers`). -/
def clearTicketMarkers (id : TicketId) : Section Unit := do
  discardRebinding id
  perform (.unlinkCancelMarker id)
  perform (.unlinkSuperseded id)

end LaneBroker
