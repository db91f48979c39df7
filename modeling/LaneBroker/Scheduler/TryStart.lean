/-
# One evaluation

`tryStart` up to the point from which a ticket is started: what one evaluation reads (`Poll`), what
it derives from that, each under its name in the source and in the order of the source, and what it
decides (`Poll.decideTicket`): a reason why the ticket does not start, with the skip records that
are then stored, or a `Grant`, which `Commit` carries out.

From the point where the head is known the definitions are those of a `Turn`: the poll, its head,
and the place and the record of its ticket in the queue.
-/

import LaneBroker.Scheduler.Classes
import LaneBroker.Scheduler.PushGate
import LaneBroker.Scheduler.Selectors

namespace LaneBroker
namespace Scheduler

open LaneBroker.Basis LaneBroker.Basis.Barrier

/-- **What evaluations and starts change on the disk.** -/
structure Disk where
  /-- In the order of the names. -/
  queue : List QueueRecord := []
  leases : List Lease := []
  store : Store := .perTicket []
  /-- The ledger of express starts. -/
  expressAdmissions : List ℤ := []
  deriving DecidableEq, Repr

/-- The writes of an evaluation ahead of a start, by place; each of them may fail. -/
inductive PollWrite
  | release
  | prune
  | headBlock
  | capacityBlock
  | outOfScope
  | denial
  | dropPick
  deriving DecidableEq, Repr

/-- **What one evaluation reads.** -/
structure Poll where
  cfg : Config
  host : Host
  disk : Disk
  submitted : Ticket
  now : ℤ
  /-- The clock when the claim is judged. -/
  later : ℤ := now
  nowEff : ℤ := now
  rebindingIds : List TicketId := []
  cancelled : TicketId → Bool := fun _ => false
  superseded : TicketId → Bool := fun _ => false
  withdrawn : Bool := false
  /-- The cancel marker of the ticket as it is found at the end. -/
  cancelledLate : Bool := false
  paused : Bool := false
  /-- The expected run of the ticket, where there is history enough. -/
  expressEstimate : Option ℕ := none
  /-- `bypassVerdict` predicts a short run. -/
  bypassPredicted : Bool := false
  currentNice : ℤ := 0
  cpuSample : Option CpuSample := none
  /-- The CPU gate, once the sample is in. -/
  cpuGateClosed : Bool := false
  /-- The load gate, once its sample is in. -/
  loadGateClosed : Bool := false
  memInfo : Option MemInfo := none
  history : History := fun _ _ => none
  /-- The number drawn for a reservation. -/
  reservationSeq : ℕ := 0
  fails : PollWrite → Bool := fun _ => false

/-- Why a ticket does not start. -/
inductive Denial
  /-- Behind another push of the caller. -/
  | pushHold (behind : Option TicketId)
  | notHead
  | withdrawn
  | queueTimeout
  | classDenied (reason : CapReason)
  | exclusive (reason : ExclusiveReason)
  | conflict
  | paused
  | elasticBelowFloor
  | classCap (reason : CapReason)
  | loadGateClosed
  | capacity
  | memoryCritical
  | admission (cpuReason : CpuReason) (memoryReason : MemoryReason)
  deriving DecidableEq, Repr

/-- What a start is charged to. -/
inductive Charge
  | skip
  | capacitySkip
  | backfill (record : ResourceRecord)
  | none
  deriving DecidableEq, Repr

/-- **A start that is decided on**, with what it is charged to. -/
structure Grant where
  lease : Lease
  headId : TicketId
  headPolling : Bool
  charge : Charge
  priorityYield : Option ResourceRecord
  express : Bool
  cancelled : Bool
  /-- The skip records as they are by now. -/
  store : Store
  deriving DecidableEq, Repr

namespace Poll

variable (p : Poll)

def v2 : Bool := p.disk.store.v2

def weightCapacity : ℚ := effectiveWeightCapacity p.cfg p.host.cpuCores

def budgetCapped : Ticket :=
  clampQueuedWeight (capElasticClaim p.submitted p.cfg p.host) p.cfg p.weightCapacity

/-- `fenceLegacy`. -/
def fenceLegacy (rawQueue : List (Option Ticket)) : List (Option Ticket) :=
  rawQueue.map fun t => t.filter Ticket.schedV2

/-- `listQueueCapped`. -/
def listQueueCapped : List (Option Ticket) :=
  p.disk.queue.map fun r => r.read.map fun t => capElasticClaim t p.cfg p.host

def rawQueue : List (Option Ticket) :=
  (if p.v2 then fenceLegacy p.listQueueCapped else p.listQueueCapped).map fun t =>
    t.map fun t => clampQueuedWeight t p.cfg p.weightCapacity

/-- The store without the reservations, where nothing may be reserved. -/
def releasedStore : Store :=
  if p.cfg.schedulerMode = .active ∧ 0 < p.cfg.resourceSkipLimit then p.disk.store
  else .landed (p.fails .release) p.disk.store.releaseReservations p.disk.store

/-- The store without the records of tickets that are gone. -/
def store : Store :=
  .landed (p.fails .prune) (p.releasedStore.prune p.rawQueue p.rebindingIds) p.releasedStore

def held : List Lease := p.disk.leases.filter Lease.isHeld

def classes : ClassPolicy := resolveClasses p.cfg

def capEnforced : List (TicketId × CapReason) :=
  capEnforcedOf p.rawQueue p.classes p.held p.host p.cfg

/-- What `capEnforced` says of a ticket. -/
def capReasonOf (id : TicketId) : Option CapReason :=
  (p.capEnforced.reverse.find? fun entry => entry.1 == id).map Prod.snd

def isLive (id : TicketId) : Bool := !p.cancelled id && !p.superseded id

def pushHeld : List (TicketId × TicketId) := pushHolds p.isLive p.rawQueue p.held

/-- Neither a cap nor another push keeps the ticket out. -/
def selectable (t : Ticket) : Bool :=
  !(p.capEnforced.any fun entry => entry.1 == t.id) && !holdsHas p.pushHeld t.id

/-- The view, and the owner of the active reservation. -/
def fullView : List (Option Ticket) × Option TicketId :=
  if p.v2 then
    effectiveView p.rawQueue p.nowEff p.cfg p.store.reservations p.selectable
      (simsAfterTestsOf p.classes)
  else (p.rawQueue, none)

def fullQueue : List (Option Ticket) := p.fullView.1

def reservationOwnerId : Option TicketId := p.fullView.2

/-- **The queue that every selection walks.** -/
def queue : List (Option Ticket) := p.fullQueue.filter fun t => t.all p.selectable

def booked : Booking := bookedSims p.held p.cfg

/-- **The ticket as it is judged.** -/
def ticket : Ticket :=
  if p.classes.valid && p.classes.mode = .active then
    capSimClaim p.budgetCapped p.classes p.booked p.host p.cfg
  else p.budgetCapped

/-- The queue timeout of the ticket is over. -/
def expired : Bool := p.ticket.startDeadline.any (· ≤ p.now) && !p.cancelled p.ticket.id

end Poll

/-- **An evaluation whose head is known**, with the place and the record of its ticket. -/
structure Turn extends Poll where
  headTicket : Ticket
  position : ℕ
  record : Ticket

namespace Turn

variable (s : Turn)

/-- The ticket is the head. -/
def headPolling : Bool := s.ticket.id == s.headTicket.id

def exclusiveHolder : Bool := isExclusiveHead s.headTicket s.ticket

def runningWeight : ℚ := double.sum (s.held.map Lease.weight)

def blocker : Option Lease := blockedBy s.held s.headTicket

def headConflicted : Bool := s.blocker.isSome

def skipRecord : Option ConflictRecord := s.store.conflictOf s.headTicket.id

def skipExhausted : Bool := s.headConflicted && headPhase s.cfg s.skipRecord s.now = .exhausted

def headCapacityBlocked : Bool :=
  !s.headConflicted && !s.exclusiveHolder &&
    decide (s.weightCapacity < double.add s.runningWeight s.headTicket.weight)

def capacitySkipExhausted : Bool :=
  s.headCapacityBlocked && capacityPhase s.cfg (s.store.capacityOf s.headTicket.id) = .exhausted

/-- The store once the block of the head is resolved. -/
def blockStore : Store :=
  if s.headConflicted then
    resolveHeadBlock s.cfg s.store s.headTicket.id s.now (s.fails .headBlock)
  else if s.headCapacityBlocked then
    resolveCapacityBlock s.cfg s.store s.headTicket.id (s.fails .capacityBlock)
  else s.store

def headRecord : Option ResourceRecord :=
  if s.headConflicted then none
  else resourceRecordFor s.blockStore s.cfg s.headTicket.id false

/-- The record, a dormant reservation left out. -/
def resourceRecord : Option ResourceRecord :=
  s.headRecord.map fun record =>
    if s.v2 && record.reserved && s.reservationOwnerId ≠ some s.headTicket.id then
      { record with reserved := false }
    else record

def capacityReserved : Bool :=
  s.headCapacityBlocked && resourceReserved s.resourceRecord s.cfg s.now

def resourceBackfill : Bool :=
  !s.headConflicted && !s.headCapacityBlocked && resourceBackfillOpen s.resourceRecord s.cfg s.now

/-- **`cannotDelayHead`.** -/
def cannotDelayHead (t : Ticket) : Bool :=
  !t.exclusive && (blockedBy s.held t).isNone && apart s.headTicket t &&
    decide (double.add (double.add s.runningWeight s.headTicket.weight) t.weight ≤
      s.weightCapacity)

def safeBackfillEnabled : Bool := s.skipExhausted && s.cfg.conflictSafeBackfill

def simHoldsBack : Bool := s.headTicket.laneClass ≠ .sim

def simEligibleForSafeBackfill (t : Ticket) : Bool :=
  s.simHoldsBack && s.cfg.conflictSafeBackfill && t.laneClass = .sim

/-- What stands ahead of the ticket. -/
def queueAhead : List (Option Ticket) := s.queue.take s.position

/-- Every record ahead of the ticket is readable. -/
def readableAhead : Bool := s.queueAhead.all Option.isSome

def safeBackfill : Bool :=
  (s.safeBackfillEnabled || s.simEligibleForSafeBackfill s.ticket) && !s.headPolling &&
    s.readableAhead && s.cannotDelayHead s.ticket

def headWaitedMs : ℤ := waitedMs s.headTicket s.nowEff

def expressHeadProtected : Bool :=
  decide ((s.cfg.expressHeadMaxWaitMs : ℤ) < s.headWaitedMs) &&
    !futileFresh s.resourceRecord s.cfg s.now

/-- `recentAdmissions`. -/
def recentAdmissions (ledger : List ℤ) (now : ℤ) : List ℤ :=
  ledger.filter fun admittedAt => 0 ≤ now - admittedAt && now - admittedAt < 60000

/-- There is room in the last minute. -/
def expressRoom : Bool :=
  (recentAdmissions s.disk.expressAdmissions s.now).length < s.cfg.expressPerMinute

/-- The ticket is a sim behind a test. -/
def simBehindTest : Bool := s.simHoldsBack && s.ticket.laneClass = .sim

def expressEligible : Bool :=
  decide (0 < s.cfg.expressMaxMs) && !s.safeBackfill && !s.headPolling && !s.ticket.exclusive &&
    !s.simBehindTest && s.readableAhead && (blockedBy s.held s.ticket).isNone &&
    decide (double.add s.runningWeight s.ticket.weight ≤ s.weightCapacity) &&
    (!s.expressHeadProtected || s.cannotDelayHead s.ticket) && s.expressRoom

def priorityYieldEligible : Bool :=
  !s.safeBackfill && !s.headPolling && resourceReserved s.resourceRecord s.cfg s.now &&
    decide (tierRank (priorityOf s.headTicket.priorityAdmitted) <
      tierRank (priorityOf s.record.priorityAdmitted)) &&
    !s.ticket.exclusive && !s.simBehindTest && s.readableAhead && s.cannotDelayHead s.ticket &&
    s.expressRoom

def expressAdmit : Bool :=
  s.expressEligible && !(s.expressHeadProtected && s.priorityYieldEligible) &&
    s.expressEstimate.any fun ms => decide (ms < s.cfg.expressMaxMs)

def priorityYield : Bool := s.priorityYieldEligible && !s.expressAdmit

def yieldProtectsHead : Bool :=
  s.priorityYield && s.resourceRecord.any fun record => s.cfg.resourceSkipLimit ≤ record.yields

def headBypass : Bool := s.expressAdmit || s.priorityYield

def walkQueue : List (Option Ticket) :=
  withoutBackfillExclusives
    (if s.simHoldsBack then keepBehindHead (fun t => t.laneClass ≠ .sim) s.queue else s.queue)

def conflictRecord : Option ResourceRecord :=
  if s.headConflicted && !s.skipExhausted then
    resourceRecordFor s.blockStore s.cfg s.headTicket.id true
  else none

def conflictPick : Option Ticket :=
  s.conflictRecord.bind fun record =>
    selectResourceCandidate s.history s.walkQueue s.held s.runningWeight s.weightCapacity record
      s.cfg s.now true

/-- **The ticket that is up.** -/
def candidate : Option Ticket :=
  if s.safeBackfill || s.headBypass then some s.ticket
  else if s.headConflicted then
    if s.skipExhausted then none else s.conflictPick.or (selectCandidate s.held s.walkQueue)
  else if s.headCapacityBlocked then
    if s.capacitySkipExhausted || s.capacityReserved then none
    else selectCapacityCandidate s.held s.runningWeight s.weightCapacity s.walkQueue
  else if s.resourceBackfill && !s.headPolling then
    s.resourceRecord.bind fun record =>
      selectResourceCandidate s.history s.walkQueue s.held s.runningWeight s.weightCapacity record
        s.cfg s.now false
  else some s.headTicket

/-- The candidate is this ticket. -/
def selected : Bool := s.candidate.any fun candidate => candidate.id == s.ticket.id

/-- Every ticket ahead is readable and not exclusive. -/
def noExclusiveAhead : Bool := s.queueAhead.all fun t => t.any fun t => !t.exclusive

def floorTrial : Bool :=
  s.cfg.schedulerMode = .active && !s.held.any Lease.floor &&
    decide (0 < s.cfg.floorOvershootCores) && isFloorTicket s.record && s.noExclusiveAhead

/-- `bypassLeaseCounts`: the held bypass leases, and those within the window. -/
def bypassHeld : List Lease := s.held.filter Lease.queueBypass

def bypassInWindow : ℕ :=
  (s.bypassHeld.filter fun l => l.admittedAt.any fun admittedAt =>
    s.now - admittedAt < s.cfg.queueBypassMaxMs).length

/-- `bypassTrialVerdict` refuses nothing. -/
def bypassTrial : Bool :=
  s.cfg.schedulerMode = .active &&
    (decide (s.bypassInWindow < s.cfg.queueBypassCap) &&
      decide (s.bypassHeld.length - s.bypassInWindow < s.cfg.queueBypassCap)) &&
    !s.ticket.exclusive && !s.ticket.excludedLane && s.ticket.laneClass ≠ .sim &&
    s.noExclusiveAhead && (blockedBy s.held s.ticket).isNone &&
    decide (double.add s.runningWeight s.ticket.weight ≤ s.weightCapacity) &&
    !elasticBelowFloor s.ticket s.cfg s.host && s.bypassPredicted

def liftTrial : Bool := s.floorTrial || s.bypassTrial

def admittedTier : Tier := priorityOf s.record.priorityAdmitted

def startNice : ℤ := effectiveNice (resolveLaneNice s.ticket s.admittedTier s.cfg) s.currentNice

def brokerIdle : Bool := s.held.isEmpty

/-- The head's claim is charged with the held leases. -/
def reservesHead : Bool :=
  s.safeBackfill || s.conflictPick.isSome || (s.expressAdmit && s.expressHeadProtected) ||
    s.yieldProtectsHead

def admissionHeld : List Lease :=
  if s.reservesHead then s.held ++ [headReservationOf s.headTicket] else s.held

def protectingHead : Bool := s.reservesHead && !s.headPolling

/-- **The ticket as admission judges it.**  The copy of the supervisor has a tier of its own, which
stays where none is set here. -/
def admissionTicket : Ticket :=
  { s.ticket with
    nice := some s.startNice
    priorityAdmitted :=
      if s.protectingHead then s.ticket.priorityAdmitted else some s.admittedTier }

def fullDecision : Decision :=
  evaluateNewAdmission s.history s.cfg s.admissionTicket s.admissionHeld s.cpuSample s.memInfo
    s.cpuGateClosed s.later

def elastic : Option (Decision × ℚ) :=
  if s.cfg.schedulerMode = .active then
    evaluateElasticAdmission s.history s.cfg s.admissionTicket s.admissionHeld s.cpuSample s.memInfo
      s.fullDecision s.later
  else none

def cpuDecision : Decision := (s.elastic.map Prod.fst).getD s.fullDecision

def ordinarilyAdmitted : Bool := s.selected && s.cpuDecision.admits

def winner : Option Ticket :=
  floorWinner s.history s.cfg s.host
    { held := s.held
      cpuSample := s.cpuSample
      memInfo := s.memInfo
      gateClosed := s.cpuGateClosed
      loadGateClosed := s.loadGateClosed
      weightCapacity := s.weightCapacity
      runningWeight := s.runningWeight }
    s.later s.queue

def floorAdmit : Bool :=
  s.floorTrial && !s.ordinarilyAdmitted && s.winner.any fun winner => winner.id == s.ticket.id

/-- `bypassYields`: a push gate or an aged head goes first. -/
def bypassYields : Bool :=
  if decide (0 < s.cfg.floorOvershootCores) &&
      s.winner.any fun winner => winner.id != s.ticket.id then true
  else if s.headPolling || !s.expressHeadProtected then false
  else if s.ticket.key = s.headTicket.key ∨ s.ticket.key ∈ s.headTicket.conflicts then true
  else
    !s.headConflicted && !s.bypassHeld.isEmpty &&
      (s.cpuSample.any fun sample => sample.hostBusyCores.any fun hostBusyCores =>
        headClearWithoutBypass s.history
          (ticketCpuFloor s.history s.headTicket s.cfg none [] none) s.held sample hostBusyCores
          s.cpuGateClosed s.cfg s.now)

/-- `BYPASS_LIFTED_CPU_REASONS`. -/
def bypassLifted : CpuReason → Bool
  | .cpuGateClosed | .cooldown | .projectedOverBudget => true
  | _ => false

def bypassAdmit : Bool :=
  s.bypassTrial && !s.ordinarilyAdmitted && !s.floorAdmit && s.cpuDecision.memoryReason = .ok &&
    bypassLifted s.cpuDecision.cpuReason && !s.bypassYields

def lifted : Bool := s.floorAdmit || s.bypassAdmit

def headFutile : Option Futility :=
  if s.cfg.schedulerMode = .active && s.headPolling && !s.headConflicted && !s.cpuDecision.admits &&
      (s.cpuDecision.cpuReason = .projectedOverBudget || s.cpuDecision.cpuReason = .ok) then
    headFutility s.history s.cfg s.headTicket s.held s.cpuSample s.cpuDecision.load s.memInfo s.now
  else none

def grantedCpuCores : ℚ := (s.elastic.map Prod.snd).getD s.fullDecision.candidateCpuCores

/-- The grant that the caps judge: cores and bytes. -/
def simGrant : ℚ × ℚ :=
  if s.exclusiveHolder then exclusiveBudget s.host s.cfg
  else (s.grantedCpuCores, (ticketResources s.ticket s.cfg).memoryBytes)

def grantCapReason : Option CapReason :=
  if s.ticket.laneClass = .sim ∧ s.classes.valid ∧ s.classes.mode ≠ .off then
    simCapReason s.classes s.booked s.simGrant s.host s.cfg
  else none

def resourceDenied : Bool :=
  s.cfg.schedulerMode = .active && !s.cpuDecision.admits &&
    s.cpuDecision.cpuReason = .projectedOverBudget && s.cpuDecision.memoryReason = .ok

def memoryDenied : Bool :=
  s.cfg.schedulerMode = .active && !s.cpuDecision.admits &&
    (s.cpuDecision.memoryReason = .headroom || s.cpuDecision.memoryReason = .reservations) &&
    (s.cpuDecision.cpuReason = .ok || s.cpuDecision.cpuReason = .projectedOverBudget)

def idleExempt : Bool :=
  s.resourceDenied && s.headPolling && s.held.isEmpty &&
    decide (0 < s.cfg.resourceIdleOvershootCores) &&
    s.cpuDecision.load.any fun load =>
      load.projectedBusy - load.budget ≤ s.cfg.resourceIdleOvershootCores

/-! ### What a denial stores -/

/-- `dropPickRecord`. -/
def dropPickRecord (store : Store) : Store :=
  if s.conflictPick.any fun pick => pick.id == s.ticket.id then
    .landed (s.fails .dropPick) (store.dropResourceRecord s.headTicket.id) store
  else store

/-- Backfill past the head pauses, and a pick is dropped. -/
def pausedStore : Store :=
  s.dropPickRecord (if s.headPolling then
    markResourceOutOfScope s.blockStore s.headTicket.id s.now (s.fails .outOfScope)
  else s.blockStore)

/-- `recordResourceDenial` in this evaluation. -/
def denialStore (behindConflict : Bool) (futility : Option Futility) (memInfo : Option MemInfo) :
    Store :=
  recordResourceDenial s.blockStore s.cfg s.headTicket.id s.cpuDecision.load s.now behindConflict
    futility memInfo (s.fails .denial)

/-- An elastic ticket below its floor. -/
def belowFloorStore : Store :=
  if s.headPolling then
    s.denialStore false
      (some
        { cause := .elasticBelowFloor
          headCpu := ticketCpuFloor s.history s.headTicket s.cfg none [] none
          sampledAt := s.now })
      none
  else s.dropPickRecord s.blockStore

/-- A claim that admission denies. -/
def deniedStore : Store :=
  if s.headPolling then
    if s.headFutile.isSome then s.denialStore false s.headFutile s.memInfo
    else if s.resourceDenied || s.memoryDenied then s.denialStore false none s.memInfo
    else if s.cpuDecision.cpuReason ≠ .cooldown then
      markResourceOutOfScope s.blockStore s.headTicket.id s.now (s.fails .outOfScope)
    else s.blockStore
  else if s.headConflicted && !s.skipExhausted && s.resourceDenied && !s.safeBackfill &&
      !s.headBypass then s.denialStore true none none
  else if s.cpuDecision.cpuReason ≠ .cooldown then s.dropPickRecord s.blockStore
  else s.blockStore

/-! ### What is decided -/

/-- What this start is charged to. -/
def charge : Charge :=
  if !s.headPolling && s.headConflicted && !s.safeBackfill && !s.headBypass && !s.lifted then .skip
  else if !s.headPolling && s.headCapacityBlocked && !s.headBypass && !s.lifted then .capacitySkip
  else if !s.headPolling && !s.safeBackfill && !s.headBypass && !s.lifted && s.resourceBackfill &&
      !futileFresh s.resourceRecord s.cfg s.now then
    match s.resourceRecord with
    | some record => .backfill record
    | Option.none => .none
  else .none

/-- The lease of a start. -/
def lease : Lease :=
  let lease : Lease :=
    { id := s.ticket.id
      key := s.ticket.key
      weight := s.ticket.weight
      resources := s.submitted.resources
      grantedCpuCores :=
        if s.submitted.resources.minCpuCores.isSome then some s.grantedCpuCores else none
      maxConcurrent := s.ticket.maxConcurrent
      laneClass := s.ticket.laneClass
      pushGate := s.ticket.pushGate
      repoId := if s.ticket.pushGate.isSome then s.ticket.repoId else 0
      priorityAdmitted := some s.admittedTier
      nice := some s.startNice
      admittedAt := some s.now
      floor := s.floorAdmit
      queueBypass := s.bypassAdmit
      workload := s.ticket.workload }
  if s.exclusiveHolder then
    { lease with
      exclusive := true
      weight := s.weightCapacity
      resources :=
        { cpuCores := some (exclusiveBudget s.host s.cfg).1
          memoryBytes := some (exclusiveBudget s.host s.cfg).2 } }
  else lease

def grant : Grant :=
  { lease := s.lease
    headId := s.headTicket.id
    headPolling := s.headPolling
    charge := s.charge
    priorityYield := if s.priorityYield && !s.lifted then s.resourceRecord else none
    express := s.headBypass && !s.lifted
    cancelled := s.cancelledLate
    store := s.blockStore }

/-- **The gates of a ticket that is up.** -/
def gates : Except (Denial × Store) Grant :=
  if s.paused then .error (.paused, s.blockStore)
  else if s.liftTrial && !s.lifted && !s.selected then .error (.notHead, s.blockStore)
  else if !s.exclusiveHolder && elasticBelowFloor s.ticket s.cfg s.host then
    .error (.elasticBelowFloor, s.belowFloorStore)
  else
    match s.grantCapReason.filter fun _ => s.classes.mode = .active with
    | some reason => .error (.classCap reason, s.pausedStore)
    | none =>
      if s.cfg.admissionLoadGate && s.loadGateClosed && !s.brokerIdle && !s.exclusiveHolder then
        .error (.loadGateClosed, s.pausedStore)
      else if !s.exclusiveHolder &&
          decide (s.weightCapacity < double.add s.runningWeight s.ticket.weight) then
        .error (.capacity, s.pausedStore)
      else if s.memInfo.any MemInfo.critical then .error (.memoryCritical, s.pausedStore)
      else if s.cfg.schedulerMode = .active && !s.cpuDecision.admits && !s.idleExempt &&
          !s.lifted && !s.exclusiveHolder then
        .error (.admission s.cpuDecision.cpuReason s.cpuDecision.memoryReason, s.deniedStore)
      else .ok s.grant

/-- **The selection, and the gates behind it.** -/
def selection : Except (Denial × Store) Grant :=
  match exclusiveDeny s.headTicket s.ticket s.held with
  | some reason => .error (.exclusive reason, s.store)
  | none =>
    match s.candidate with
    | none =>
      if !s.headPolling && !s.liftTrial then .error (.notHead, s.blockStore)
      else if s.headConflicted && !(s.liftTrial && !s.headPolling) then
        .error (.conflict, s.blockStore)
      else s.gates
    | some candidate =>
      if candidate.id ≠ s.ticket.id ∧ !s.liftTrial then .error (.notHead, s.blockStore)
      else s.gates

end Turn

namespace Poll

variable (p : Poll)

/-- The evaluation from where its head is known, if it comes so far. -/
def turn : Except (Denial × Store) Turn :=
  if holdsHas p.pushHeld p.submitted.id then
    .error (.pushHold (holdsGet p.pushHeld p.submitted.id), p.store)
  else if !p.fullQueue.any (hasId p.submitted.id) then .error (.notHead, p.store)
  else if p.withdrawn then .error (.withdrawn, p.store)
  else if p.expired then .error (.queueTimeout, p.store)
  else
    match p.capReasonOf p.ticket.id with
    | some reason => .error (.classDenied reason, p.store)
    | none =>
      match p.queue.head?.join, p.queue.findIdx? (hasId p.ticket.id) with
      | some headTicket, some position =>
        match p.queue[position]?.join with
        | some record => .ok { toPoll := p, headTicket, position, record }
        | none => .error (.notHead, p.store)
      | _, _ => .error (.notHead, p.store)

/-- **`tryStart` up to the start**: a denial and what is then stored, or what is granted. -/
def decideTicket : Except (Denial × Store) Grant :=
  match p.turn with
  | .error denial => .error denial
  | .ok s => s.selection

end Poll

end Scheduler
end LaneBroker
