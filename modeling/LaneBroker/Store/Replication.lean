/-
# The replicator and its watermark

`round` of `store/replicate.js` reads the journal forward from the watermark, ships one record
after the other and writes the watermark (`store/replication-state.js`) behind each.  Between
any two awaits the rest of the store goes on: the journal grows and objects come and go.
Every call may fail, the process may lose the lock of the store or die, the next one opens the
journal again, and the host may lose its power, which can bring an earlier watermark back.  A
process that has lost the lock goes on with the offset it had; whether it notices before it
writes is left open.

The world is the journal with its file, the watermark's file, what is on the primary's disk,
and the processes.  It also keeps which calls were answered how for each record that the
watermark moved past (`ships`).  (The text of errors is left out, and of objects everything
but hash and size.)
-/

import LaneBroker.Basis.Directory
import LaneBroker.Store.Incarnations
import LaneBroker.Store.Ship

namespace LaneBroker
namespace Store

open LaneBroker.Basis

/-! ### The watermark's file -/

/-- **The watermark** and the counters beside it. -/
structure Mark where
  replicatedSeq : Nat := 0
  replicatedOffset : Nat := 0
  failedRounds : Nat := 0
  lastRoundAt : Option Int := none
  deriving DecidableEq, Repr

/-- **What `replication.json` can hold.** -/
inductive MarkFile
  | absent
  | format2 (m : Mark)
  /-- Any other shape. -/
  | other
  deriving DecidableEq, Repr

/-- **`readReplicationState`**, `none` where it throws. -/
def readReplicationState : MarkFile → Option Mark
  | .absent => some {}
  | .format2 m => some m
  | .other => none

/-! ### The world -/

/-- Why a round fails. -/
inductive RoundError (σ ι : Type)
  | readFailed
  | shipping (e : ShipError σ ι)
  | writeFailed
  | onShippedFailed
  deriving DecidableEq

/-- **Where a round stands.** -/
inductive Stage (σ ι : Type)
  /-- No round is running. -/
  | idle
  /-- The journal is read next. -/
  | reading
  /-- A record is being shipped; so many calls have been answered. -/
  | shipping (entry : Entry (Fields σ ι)) (rest : List (Entry (Fields σ ι)))
      (prog : Shipping σ ι Outcome) (events : List (ShipEvent σ ι))
  /-- The watermark is written next. -/
  | saving (rest : List (Entry (Fields σ ι)))
  /-- `onShipped` is called next. -/
  | told (rest : List (Entry (Fields σ ι)))
  /-- The round has thrown, and the failure is written next. -/
  | failing (error : RoundError σ ι)
  /-- The journal is drained, and that is written next. -/
  | finishing

/-- **What `round` returns.** -/
structure RoundResult (σ ι : Type) where
  /-- `none` for `ok`. -/
  error : Option (RoundError σ ι)
  shipped : Nat
  gone : Nat
  replicatedSeq : Nat

/-- **A `Replicator`**, in the process of a store. -/
structure Replicator (σ ι : Type) where
  chunkBytes : Nat
  stopped : Bool := false
  /-- The committed offset of its journal, once the process has lost the lock. -/
  frozen : Option Nat := none
  state : Mark := {}
  shipped : Nat := 0
  gone : Nat := 0
  stage : Stage σ ι := .idle
  result : Option (RoundResult σ ι) := none

/-- **The primary with its processes.** -/
structure ReplicationWorld (σ ι : Type) where
  journal : JournalWorld (Fields σ ι)
  markFile : Replaced MarkFile := { content := .absent }
  /-- Hash and size of what is on disk. -/
  objects : Dir (Path σ ι) (σ × Nat) := .empty
  metas : Dir ι Meta := .empty
  /-- The process that holds the lock. -/
  owner : Option Nat := none
  procs : Nat → Option (Replicator σ ι) := fun _ => none
  /-- The records the watermark was moved past, with the calls that were answered. -/
  ships : List (Rec (Fields σ ι) × List (ShipEvent σ ι)) := []

/-- **What a replicator does next**, and what it is answered. -/
inductive Act (σ ι : Type)
  | runOnce (readOk : Bool)
  | stop
  | read (ok : Bool)
  | answer (io : (c : Call σ ι) → Reply c)
  | proceed
  /-- `writeState`: does `assertOwner` return, and what becomes of the write. -/
  | write (held : Bool) (io : WriteIo) (now : Int)
  | onShipped (ok : Bool)

/-- **The moves.** -/
inductive ReplicationMove (σ ι : Type)
  | opens (pid : Nat) (chunkBytes : Nat) (io : OpenIo)
  | append (fields : Fields σ ι)
  | call (io : AppendIo)
  /-- What is on the primary's disk changes. -/
  | disk (objects : Dir (Path σ ι) (σ × Nat)) (metas : Dir ι Meta)
  | replicator (pid : Nat) (a : Act σ ι)
  | dies (pid : Nat)
  /-- The owner loses the lock and lives on. -/
  | loses
  /-- The host dies, and leaves these bytes of the journal and this watermark. -/
  | powerLoss (left : Bytes) (mark : MarkFile)

variable {σ ι : Type} [DecidableEq σ] [DecidableEq ι] (codec : Codec (Fields σ ι))

/-! ### Reading -/

/-- Up to where a process reads the journal. -/
def Replicator.limit (p : Replicator σ ι) (w : ReplicationWorld σ ι) : Nat :=
  p.frozen.getD ((w.journal.proc.map Journal.committedOffset).getD 0)

/-- **`committedDeletion`**, `none` where reading the journal throws. -/
def Replicator.committedDeletion (p : Replicator σ ι) (w : ReplicationWorld σ ι)
    (path : Path σ ι) (fromOffset : Nat) : Option Bool :=
  let (entries, error) :=
    iterateJournal codec w.journal.file.content fromOffset p.chunkBytes (p.limit w)
  if entries.any fun e => e.record.fields = .delete path then some true
  else if error.isSome then none
  else some false

/-- A local read: what is there, unless the call throws. -/
def unlessThrown {α : Type} (io : Option α) (there : Option α) : Option α :=
  match io with
  | none => none
  | some _ => there

/-- **How a call is answered**: calls of the primary by what is there, unless they fail, and
calls of the replica in any way. -/
def Replicator.reply (p : Replicator σ ι) (w : ReplicationWorld σ ι)
    (io : (c : Call σ ι) → Reply c) : (c : Call σ ι) → Reply c
  | .existsSync path => (w.objects.read path).isSome
  | .committedDeletion path fromOffset =>
    unlessThrown (io (.committedDeletion path fromOffset))
      (p.committedDeletion codec w path fromOffset)
  | .hashFile path => unlessThrown (io (.hashFile path)) (w.objects.read path)
  | .storeMeta job => unlessThrown (io (.storeMeta job)) (some ((w.metas.read job).getD {}))
  | c => io c

/-! ### The round -/

namespace Replicator

/-- The loop of a round goes on to the next record it has read, or reads on. -/
def goOn (p : Replicator σ ι) : List (Entry (Fields σ ι)) → Replicator σ ι
  | [] => { p with stage := .reading }
  | e :: rest => { p with stage := .shipping e rest (ship e) [] }

/-- `runOnce`: a round starts, unless one is running or the replicator is stopped. -/
def runOnce (p : Replicator σ ι) (w : ReplicationWorld σ ι) (readOk : Bool) :
    Replicator σ ι :=
  match p.stopped, p.stage with
  | false, .idle =>
    match if readOk then readReplicationState w.markFile.content else none with
    | none => p
    | some m => { p with state := m, shipped := 0, gone := 0, stage := .reading }
  | _, _ => p

/-- The next read of the journal. -/
def read (p : Replicator σ ι) (w : ReplicationWorld σ ι) (ok : Bool) :
    Option (Replicator σ ι) :=
  match p.stage with
  | .reading =>
    if !ok then some { p with stage := .failing .readFailed }
    else match readJournalFrom codec w.journal.file.content p.state.replicatedOffset p.chunkBytes
        (some (p.state.replicatedSeq + 1)) (p.limit w) with
    | .error _ => some { p with stage := .failing .readFailed }
    | .ok [] => some { p with stage := .finishing }
    | .ok (e :: rest) => some (p.goOn (e :: rest))
  | _ => none

/-- The call that `ship` waits for is answered. -/
def answer (p : Replicator σ ι) (w : ReplicationWorld σ ι) (io : (c : Call σ ι) → Reply c) :
    Option (Replicator σ ι) :=
  match p.stage with
  | .shipping e rest (.call c next) events =>
    let r := p.reply codec w io c
    some { p with stage := .shipping e rest (next r) (events ++ [⟨c, r⟩]) }
  | _ => none

/-- The counters and the watermark behind a shipped record. -/
def advance (p : Replicator σ ι) (e : Entry (Fields σ ι)) (o : Outcome) : Replicator σ ι :=
  { p with
    shipped := if o = .shipped then p.shipped + 1 else p.shipped
    gone := if o = .skipped then p.gone + 1 else p.gone
    state :=
      { p.state with replicatedSeq := e.record.seq, replicatedOffset := e.finish } }

/-- `ship` has returned or thrown. -/
def proceed (p : Replicator σ ι) (w : ReplicationWorld σ ι) :
    Option (Replicator σ ι × ReplicationWorld σ ι) :=
  match p.stage with
  | .shipping e rest (.done o) events =>
    some ({ p.advance e o with stage := .saving rest },
      { w with ships := w.ships ++ [(e.record, events)] })
  | .shipping _ _ (.thrown error) _ => some ({ p with stage := .failing (.shipping error) }, w)
  | _ => none

/-- What the round returns. -/
def returns (p : Replicator σ ι) (error : Option (RoundError σ ι)) : RoundResult σ ι where
  error
  shipped := p.shipped
  gone := p.gone
  replicatedSeq := p.state.replicatedSeq

/-- **`writeState`**, and whether it returned. -/
def writeState (w : ReplicationWorld σ ι) (m : Mark) (held : Bool) (io : WriteIo) :
    ReplicationWorld σ ι × Bool :=
  if !held then (w, false)
  else
    let (markFile, ok) := w.markFile.write (.format2 m) io
    ({ w with markFile }, ok)

/-- The watermark is written: behind a record, behind a failure, or at the end. -/
def write (p : Replicator σ ι) (w : ReplicationWorld σ ι) (held : Bool) (io : WriteIo)
    (now : Int) : Option (Replicator σ ι × ReplicationWorld σ ι) :=
  match p.stage with
  | .saving rest =>
    match writeState w p.state held io with
    | (w, true) => some ({ p with stage := .told rest }, w)
    | (w, false) => some ({ p with stage := .failing .writeFailed }, w)
  | .failing error =>
    let m := { p.state with failedRounds := p.state.failedRounds + 1, lastRoundAt := some now }
    match writeState w m held io with
    | (w, true) => some ({ p with stage := .idle, result := some (p.returns (some error)) }, w)
    | (w, false) => some ({ p with stage := .idle }, w)
  | .finishing =>
    let m := { p.state with failedRounds := 0, lastRoundAt := some now }
    match writeState w m held io with
    | (w, true) => some ({ p with stage := .idle, result := some (p.returns none) }, w)
    | (w, false) => some ({ p with stage := .idle }, w)
  | _ => none

/-- `onShipped` returns or throws. -/
def onShipped (p : Replicator σ ι) (ok : Bool) : Option (Replicator σ ι) :=
  match p.stage with
  | .told rest => some (if ok then p.goOn rest else { p with stage := .failing .onShippedFailed })
  | _ => none

/-- **One step of a replicator.** -/
def step (p : Replicator σ ι) (w : ReplicationWorld σ ι) :
    Act σ ι → Option (Replicator σ ι × ReplicationWorld σ ι)
  | .runOnce readOk => some (p.runOnce w readOk, w)
  | .stop => some ({ p with stopped := true }, w)
  | .read ok => (p.read codec w ok).map fun p => (p, w)
  | .answer io => (p.answer codec w io).map fun p => (p, w)
  | .proceed => p.proceed w
  | .write held io now => p.write w held io now
  | .onShipped ok => (p.onShipped ok).map fun p => (p, w)

end Replicator

/-! ### The machine -/

namespace ReplicationWorld

/-- The world with one process set. -/
def setProc (w : ReplicationWorld σ ι) (pid : Nat) (p : Option (Replicator σ ι)) :
    ReplicationWorld σ ι :=
  { w with procs := fun q => if q = pid then p else w.procs q }

/-- The journal when the process that has it open is gone. -/
def closed (w : ReplicationWorld σ ι) : JournalWorld (Fields σ ι) := { w.journal with proc := none }

/-- A process takes the lock and opens the journal. -/
def opens (w : ReplicationWorld σ ι) (pid chunkBytes : Nat) (io : OpenIo) :
    Option (ReplicationWorld σ ι) :=
  match w.procs pid, readReplicationState w.markFile.content with
  | none, some m =>
    (w.journal.opens codec { io with replicatedOffset := m.replicatedOffset }).map fun journal =>
      match journal.proc with
      | none => { w with journal }
      | some _ => { w with journal, owner := some pid }.setProc pid (some { chunkBytes })
  | _, _ => none

/-- A process dies. -/
def dies (w : ReplicationWorld σ ι) (pid : Nat) : ReplicationWorld σ ι :=
  if w.owner = some pid then { w with journal := w.closed, owner := none }.setProc pid none
  else w.setProc pid none

/-- The owner loses the lock. -/
def loses (w : ReplicationWorld σ ι) : Option (ReplicationWorld σ ι) :=
  match w.owner, w.journal.proc with
  | some pid, some j =>
    (w.procs pid).map fun p =>
      { w with journal := w.closed, owner := none }.setProc pid
        (some { p with frozen := some j.committedOffset })
  | _, _ => none

/-- The host dies. -/
def powerLoss (w : ReplicationWorld σ ι) (left : Bytes) (mark : MarkFile) :
    Option (ReplicationWorld σ ι) :=
  if w.journal.file.Survives left ∧ mark ∈ w.markFile.versions then
    some
      { w with
        journal := { w.journal with file := SyncedFile.restarted left, proc := none }
        markFile := { content := mark }
        owner := none
        procs := fun _ => none }
  else none

/-- A process takes its next step. -/
def replicator (w : ReplicationWorld σ ι) (pid : Nat) (a : Act σ ι) :
    Option (ReplicationWorld σ ι) :=
  match w.procs pid with
  | none => none
  | some p => (p.step codec w a).map fun (p, w) => w.setProc pid (some p)

/-- **One move.** -/
def next (w : ReplicationWorld σ ι) : ReplicationMove σ ι → Option (ReplicationWorld σ ι)
  | .opens pid chunkBytes io => w.opens codec pid chunkBytes io
  | .append fields => (w.journal.append fields).map fun journal => { w with journal }
  | .call io => (w.journal.call codec io).map fun journal => { w with journal }
  | .disk objects metas => some { w with objects, metas }
  | .replicator pid a => w.replicator codec pid a
  | .dies pid => some (w.dies pid)
  | .loses => w.loses
  | .powerLoss left mark => w.powerLoss left mark

end ReplicationWorld

/-- **The replication machine**, which starts with an empty journal and no watermark. -/
def replicationMachine : Machine (ReplicationWorld σ ι) (ReplicationMove σ ι) where
  start w := w =
    { journal := { file := { content := [] }, proc := none, flight := none, history := [] } }
  next := ReplicationWorld.next codec

end Store
end LaneBroker
