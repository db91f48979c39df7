/-
# The migration of the scheduler

`migrate.js`: `lane migrate-scheduler` under one hold of the broker lock, among processes of two
versions.  Its durable writes are one step each (`Migration.next` at `proceed`); between two of them
the migrator may throw, and then it removes its marker, or die, and then the marker stays.  The
others act between its writes as far as they need no lock, and behind it as they like.

Old code keeps its queue in `queue/`.  New code looks at what `queue` is, every time
(`paths().queue`): behind the fence file its queue is `queue-v2/`.  The record of a ticket is in the
queue, or parked for a rebind; `status` keeps what its submitters and supervisors did with it, which
no single file says.

(A drain only pauses, resumes and keeps tickets out, which may happen at any time here.  A `queue`
that is a link or some other file, records that cannot be read, the singleton files that the
migration archives and the other two kinds of fairness record are left out.)
-/

import LaneBroker.Basis.Machine
import Mathlib.Data.List.Basic
import Mathlib.Data.Rat.Defs
import Mathlib.Logic.Function.Basic

namespace LaneBroker
namespace Scheduler
namespace Migration

open LaneBroker.Basis

/-! ### Fairness records -/

/-- A `resource` record; `none` is `null`. -/
structure ResourceRecord where
  deniedAt : ℕ
  budget : Option ℚ
  externalBusy : Option ℚ
  deriving DecidableEq, Repr

/-- `validRecord` of a `resource` record. -/
def ResourceRecord.valid (r : ResourceRecord) : Bool := r.budget.isSome && r.externalBusy.isSome

variable {τ : Type}

/-- **`fairness-v2.json`**. -/
abbrev Fairness (τ : Type) := List (τ × ResourceRecord)

/-- `validFairness`. -/
def validFairness (f : Fairness τ) : Bool := f.all fun e => e.2.valid

/-- What `evaluateCpuAdmission` says of the load; without a usable sample there is none. -/
structure CpuLoad where
  budget : ℚ
  externalBusy : ℚ
  deriving DecidableEq, Repr

/-- Why the head is denied. -/
inductive Denial
  | overBudget
  | elasticBelowFloor
  deriving DecidableEq, Repr

/-- **`recordResourceDenial`**. -/
def denialRecord (now : ℕ) (load : Option CpuLoad) : ResourceRecord :=
  { deniedAt := now
    budget := load.map CpuLoad.budget
    externalBusy := load.map CpuLoad.externalBusy }

/-- A projection that is over the budget has a sample. -/
def Denial.possible (load : Option CpuLoad) : Denial → Bool
  | .overBudget => load.isSome
  | .elasticBelowFloor => true

/-- A ticket's record is replaced. -/
def record [DecidableEq τ] (t : τ) (r : ResourceRecord) (f : Fairness τ) : Fairness τ :=
  (f.filter fun e => e.1 ≠ t) ++ [(t, r)]

/-! ### The state root -/

/-- A queue directory: the tickets in it, and the parked ones (`.json.rebinding`). -/
structure QueueDir (τ : Type) where
  tickets : List τ := []
  parked : List τ := []
  deriving DecidableEq, Repr

/-- **What `queue` is** (`queueEntryType`). -/
inductive QueueEntry (τ : Type)
  | absent
  | directory (d : QueueDir τ)
  | fence
  deriving DecidableEq, Repr

/-- What has become of a ticket. -/
inductive Status
  | unknown
  | queued
  /-- Withdrawn for a rebind. -/
  | withdrawn
  /-- Owned by a remote attempt. -/
  | remote
  | started
  | ended
  deriving DecidableEq, Repr

/-- **Where the migrator is**: behind which of its writes. -/
inductive Phase
  | marked
  | checked
  | recorded
  /-- `queue-v2/` is there; `legacy` is whether `queue` was a directory. -/
  | made (legacy : Bool)
  /-- `queue.fence.tmp` is there, and the directory is still to be moved aside. -/
  | pending (legacy : Bool)
  | fenced
  | committed
  /-- In the `finally`. -/
  | leaving
  deriving DecidableEq, Repr

/-- A migrator at work, which holds the broker lock. -/
structure Migrator where
  pid : ℕ
  phase : Phase
  deriving DecidableEq, Repr

/-- **The state root and the migrator.** -/
structure Root (τ : Type) where
  /-- The pid in the marker. -/
  migrating : Option ℕ := none
  paused : Bool := false
  fairness : Option (Fairness τ) := none
  queue : QueueEntry τ := .absent
  queueV2 : Option (QueueDir τ) := none
  /-- The directories `queue.legacy-…`. -/
  legacy : List (QueueDir τ) := []
  /-- `sched-v2.json`. -/
  schedFence : Bool := false
  leases : List τ := []
  attempts : List τ := []
  /-- The pids of live processes, also of such as took over the pid of a dead one. -/
  alive : ℕ → Bool := fun _ => false
  migrator : Option Migrator := none
  status : τ → Status := fun _ => .unknown

/-- The version of a process. -/
inductive Version
  | old
  | new
  deriving DecidableEq, Repr

/-- **The steps.** -/
inductive MigrationAct (τ : Type)
  /-- `migrateScheduler` takes the lock, and finds the fence, another migrator, or its way free. -/
  | migrate (pid : ℕ)
  /-- Its next write; `quiet` is what the process table says. -/
  | proceed (quiet : Bool)
  | fail
  | crash
  /-- `mkdir` of the queue directory, without the lock. -/
  | mkdir (v : Version)
  | enqueue (v : Version) (t : τ)
  /-- `tryStart` starts a ticket. -/
  | take (v : Version) (t : τ)
  /-- A queued ticket is cancelled, expired or reaped. -/
  | drop (v : Version) (t : τ)
  | createAttempt (t : τ)
  | withdrawQueued (t : τ)
  | restoreQueued (t : τ)
  /-- Removes the parked record of a ticket that was dispatched, or that is settled. -/
  | discardRebinding (t : τ)
  /-- `publishTerminal`. -/
  | publishTerminal (t : τ)
  /-- The lease of a started ticket is done. -/
  | finish (t : τ)
  | deny (t : τ) (now : ℕ) (load : Option CpuLoad) (why : Denial)
  /-- The fairness records of a ticket go. -/
  | depart (t : τ)
  | pause (paused : Bool)
  /-- A pid is taken or given back. -/
  | live (pid : ℕ) (alive : Bool)

namespace Root

variable (s : Root τ)

/-- **`paths().queue`**: the directory new code has its queue in. -/
def queueDir : Option (QueueDir τ) :=
  match s.queue with
  | .absent => none
  | .directory d => some d
  | .fence => s.queueV2

/-- The directory old code has its queue in. -/
def oldQueueDir : Option (QueueDir τ) :=
  match s.queue with
  | .directory d => some d
  | .absent | .fence => none

/-- The queue of a version. -/
def queueOf : Version → Option (QueueDir τ)
  | .old => s.oldQueueDir
  | .new => s.queueDir

/-- A write into the directory that `paths().queue` names, which is made if it is not there. -/
def setQueueDir (d : QueueDir τ) : Root τ :=
  match s.queue with
  | .fence => { s with queueV2 := some d }
  | .absent | .directory _ => { s with queue := .directory d }

/-- `listQueueStrict`. -/
def queued : List τ := (s.queueDir.map QueueDir.tickets).getD []

/-- The names of `listRebindingIds`. -/
def rebinding : List τ := (s.queueDir.map QueueDir.parked).getD []

/-- **`resolveScheduler`**: the fence is there and the fairness file is valid. -/
def resolveScheduler : Bool := s.schedFence && s.fairness.any validFairness

/-- **`liveMigrator`**: the pid in the marker, when another process that lives has it. -/
def liveMigrator (pid : ℕ) : Option ℕ := s.migrating.filter fun p => p ≠ pid && s.alive p

/-- Nothing waits, runs or is owned by an attempt. -/
def drained : Bool := s.queued.isEmpty && s.leases.isEmpty && s.attempts.isEmpty

/-- **`checkPreconditions`**. -/
def checkPreconditions (quiet : Bool) : Bool := s.paused && s.drained && quiet

/-- The broker lock is free. -/
def lockFree : Bool := s.migrator.isNone

/-- **`migrateScheduler`**, up to its marker. -/
def migrate (pid : ℕ) : Root τ :=
  if s.schedFence then { s with migrating := none }
  else if (s.liveMigrator pid).isSome then s
  else { s with migrating := some pid, migrator := some ⟨pid, .marked⟩ }

/-- The migrator is behind its next write. -/
def goes (m : Migrator) (phase : Phase) : Root τ := { s with migrator := some { m with phase } }

/-- **The next write of the migrator** (`migrateLocked`, `fenceLegacyQueue`). -/
def proceed (m : Migrator) (quiet : Bool) : Root τ :=
  match m.phase with
  | .marked => s.goes m (if s.checkPreconditions quiet then .checked else .leaving)
  | .checked => { s.goes m .recorded with fairness := some [] }
  | .recorded =>
    match s.queue with
    | .fence => s.goes m .fenced
    | .absent => { s.goes m (.made false) with queueV2 := some (s.queueV2.getD {}) }
    | .directory _ => { s.goes m (.made true) with queueV2 := some (s.queueV2.getD {}) }
  | .made legacy => s.goes m (.pending legacy)
  | .pending true =>
    match s.queue with
    | .directory d =>
      { s.goes m (.pending false) with queue := .absent, legacy := s.legacy ++ [d] }
    -- not reached: only the migrator takes a queue away, or makes the fence
    | .absent | .fence => s.goes m .leaving
  | .pending false =>
    match s.queue with
    -- a directory that old code made in the meantime: the rename fails
    | .directory _ => s.goes m .leaving
    | .absent | .fence => { s.goes m .fenced with queue := .fence }
  | .fenced => { s.goes m .committed with schedFence := true }
  | .committed => s.goes m .leaving
  | .leaving => { s with migrating := none, migrator := none }

/-- It throws: the `finally` follows, unless it is the `finally` that throws. -/
def fails (m : Migrator) : Root τ :=
  match m.phase with
  | .leaving => { s with migrator := none }
  | _ => s.goes m .leaving

variable [DecidableEq τ]

/-- What a submitter or a supervisor did with a ticket. -/
def become (t : τ) (st : Status) : Root τ := { s with status := Function.update s.status t st }

/-- `assertNotMigrating`, for new code. -/
def intake : Version → Bool
  | .old => true
  | .new => s.migrating.isNone

/-- `assertQueueLayout`, for new code: no tickets in a legacy directory behind the fence. -/
def queueLayout : Version → Bool
  | .old => true
  | .new =>
    match s.queue with
    | .directory d => !(s.schedFence && !(d.tickets.isEmpty && d.parked.isEmpty))
    | .absent | .fence => true

/-- A ticket can be queued: nobody has it, or its own attempt has. -/
def enqueues (t : τ) : Bool :=
  s.status t = .unknown || (s.status t = .remote && s.attempts.contains t)

/-- **`enqueue`**: the directory that the record is written into. -/
def enqueueDir : Version → Option (QueueDir τ)
  | .old =>
    match s.queue with
    | .absent => some {}
    | .directory d => some d
    | .fence => none
  | .new => some (s.queueDir.getD {})

/-- **The next state**, `none` where the step is not possible. -/
def next : MigrationAct τ → Option (Root τ)
  | .migrate pid => if s.lockFree then some (s.migrate pid) else none
  | .proceed quiet => s.migrator.map fun m => s.proceed m quiet
  | .fail => s.migrator.map s.fails
  | .crash => s.migrator.map fun _ => { s with migrator := none }
  | .mkdir v => (s.enqueueDir v).map s.setQueueDir
  | .enqueue v t =>
    if s.lockFree && s.intake v && s.queueLayout v && s.enqueues t then
      (s.enqueueDir v).map fun d =>
        (s.setQueueDir { d with tickets := d.tickets ++ [t] }).become t .queued
    else none
  | .take v t =>
    if s.lockFree && s.queueLayout v then
      ((s.queueOf v).filter fun d => d.tickets.contains t).map fun d =>
        { (s.setQueueDir { d with tickets := d.tickets.erase t }).become t .started with
          leases := s.leases ++ [t] }
    else none
  | .drop v t =>
    ((s.queueOf v).filter fun d => d.tickets.contains t).map fun d =>
      (s.setQueueDir { d with tickets := d.tickets.erase t }).become t .ended
  | .createAttempt t =>
    if s.lockFree && s.intake .new && s.status t = .unknown then
      some { s.become t .remote with attempts := s.attempts ++ [t] }
    else none
  | .withdrawQueued t =>
    if s.lockFree && s.intake .new && s.attempts.contains t then
      (s.queueDir.filter fun d => d.tickets.contains t).map fun d =>
        (s.setQueueDir { tickets := d.tickets.erase t, parked := d.parked ++ [t] }).become t
          .withdrawn
    else none
  | .restoreQueued t =>
    if s.lockFree && s.attempts.contains t && s.status t = .withdrawn then
      (s.queueDir.filter fun d => d.parked.contains t).map fun d =>
        (s.setQueueDir { tickets := d.tickets ++ [t], parked := d.parked.erase t }).become t .queued
    else none
  | .discardRebinding t =>
    (s.queueDir.filter fun d => d.parked.contains t).map fun d =>
      (s.setQueueDir { d with parked := d.parked.erase t }).become t
        (if s.status t = .withdrawn then .remote else s.status t)
  | .publishTerminal t =>
    if s.lockFree && s.attempts.contains t && s.status t ≠ .queued then
      some { s.become t .ended with attempts := s.attempts.erase t }
    else none
  | .finish t =>
    if s.leases.contains t then some { s.become t .ended with leases := s.leases.erase t }
    else none
  | .deny t now load why =>
    if s.lockFree && s.resolveScheduler && why.possible load then
      some { s with fairness := s.fairness.map (record t (denialRecord now load)) }
    else none
  | .depart t =>
    if s.lockFree && s.resolveScheduler then
      some { s with fairness := s.fairness.map fun f => f.filter fun e => e.1 ≠ t }
    else none
  | .pause paused => some { s with paused }
  | .live pid alive => some { s with alive := Function.update s.alive pid alive }

end Root

/-- **The state root among processes of both versions**, from a new one on. -/
def machine (τ : Type) [DecidableEq τ] : Machine (Root τ) (MigrationAct τ) where
  start := fun s => s = {}
  next := fun s a => s.next a

end Migration
end Scheduler
end LaneBroker
