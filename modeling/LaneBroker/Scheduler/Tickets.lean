/-
# Tickets, leases and what they claim

The records the scheduler decides with, as `scheduler.js`, `resources.js`, `exclusive.js` and
`allocation.js` read them: a queued ticket, a lease, the settings that admission reads and the
host.  Weights, cores, shares and bytes are rational numbers, on which a start reckons as a double
does (`Basis.double`), times whole milliseconds; a name that is compared for equality only (a key, a
caller, a branch) is a number, and so is a ticket id, of which the order is used once, between
reservations of one `reservationSeq`.
-/

import LaneBroker.Basis.Rounding
import Mathlib.Algebra.Order.Archimedean.Basic
import Mathlib.Algebra.Order.Floor.Ring

namespace LaneBroker
namespace Scheduler

open LaneBroker.Basis

abbrev TicketId := ℕ

/-- The key of a lane. -/
abbrev Key := ℕ

/-- `PRIORITY_TIERS`. -/
inductive Tier
  | low
  | medium
  | high
  deriving DecidableEq, Repr

/-- `TIER_BASE`. -/
def tierBase : Tier → ℕ
  | .low => 0
  | .medium => 1
  | .high => 2

/-- `MAX_BASE`. -/
def maxBase : ℕ := 2

/-- `DEFAULT_PRIORITY`. -/
def defaultPriority : Tier := .medium

/-- The allocation class of a lane: whatever does not say `sim` is a test. -/
inductive LaneClass
  | test
  | sim
  deriving DecidableEq, Repr

/-- **The push a gate runs under** (`detectPushGate`). -/
structure PushGate where
  gitPid : ℕ
  gitStartEpoch : ℤ
  caller : ℕ := 0
  worktree : ℕ := 0
  branch : ℕ := 0
  pushArgsHash : ℕ := 0
  deriving DecidableEq, Repr

/-- What a ticket declares. -/
structure Resources where
  cpuCores : Option ℚ := none
  minCpuCores : Option ℚ := none
  memoryBytes : Option ℚ := none
  deriving DecidableEq, Repr

/-- **A ticket**, queued or as its supervisor holds it. -/
structure Ticket where
  id : TicketId
  seq : ℕ := 0
  key : Key := 0
  repoId : ℕ := 0
  conflicts : List Key := []
  maxConcurrent : Option ℤ := none
  weight : ℚ := 1
  resources : Resources := {}
  laneClass : LaneClass := .test
  exclusive : Bool := false
  aging : Bool := true
  priorityRequested : Option Tier := none
  priorityAdmitted : Option Tier := none
  prioOriginAt : Option ℤ := none
  /-- `schedVersion` is 2. -/
  schedV2 : Bool := true
  pushGate : Option PushGate := none
  /-- It carries what a runner needs. -/
  remote : Bool := false
  /-- It says why it stays here. -/
  localReason : Bool := false
  /-- Its lane is one of `BYPASS_EXCLUDED_LANE`. -/
  excludedLane : Bool := false
  /-- `classEnforcement` is `required`. -/
  enforcementRequired : Bool := false
  startDeadline : Option ℤ := none
  niceOverride : Option ℤ := none
  /-- The nice it is judged at; only the ticket given to admission has one. -/
  nice : Option ℤ := none
  /-- What its CPU history is kept under: key, lane and command; `none` for a command without a
  fingerprint. -/
  workload : Option ℕ := none
  deriving DecidableEq, Repr

/-- A record of the queue directory; a damaged one reads as `null`. -/
structure QueueRecord where
  ticket : Ticket
  readable : Bool := true
  deriving DecidableEq, Repr

/-- What a reader gets. -/
def QueueRecord.read (r : QueueRecord) : Option Ticket := if r.readable then some r.ticket else none

inductive LeaseState
  | running
  | orphaned
  | done
  deriving DecidableEq, Repr

/-- **A lease.** -/
structure Lease where
  id : TicketId := 0
  key : Key
  weight : ℚ := 0
  resources : Resources := {}
  grantedCpuCores : Option ℚ := none
  maxConcurrent : Option ℤ := none
  laneClass : LaneClass := .test
  exclusive : Bool := false
  pushGate : Option PushGate := none
  repoId : ℕ := 0
  priorityAdmitted : Option Tier := none
  nice : Option ℤ := none
  admittedAt : Option ℤ := none
  floor : Bool := false
  queueBypass : Bool := false
  observedAt : Option ℤ := none
  observedCpuCores : Option ℚ := none
  observedMemoryBytes : Option ℚ := none
  /-- `observedCpuHistory`: when, and how many cores. -/
  observedCpuHistory : List (ℤ × ℚ) := []
  workload : Option ℕ := none
  state : LeaseState := .running
  deriving DecidableEq, Repr

/-- `HELD_STATES`. -/
def Lease.isHeld (l : Lease) : Bool := l.state = .running || l.state = .orphaned

inductive Mode
  | off
  | shadow
  | active
  deriving DecidableEq, Repr

/-- `priorityWeights`. -/
structure PriorityWeights where
  tier : ℚ := 2
  age : ℚ := 2
  deriving DecidableEq, Repr

/-- The `classes` block. -/
structure ClassesBlock where
  mode : Mode := .off
  reserveCores : ℚ := 0
  capCores : ℚ := 0
  maxTickets : ℕ := 0
  capMemoryBytes : ℚ := 0
  deriving DecidableEq, Repr

/-- **The settings admission reads**, with the defaults of `DEFAULT_GLOBAL_CONFIG`. -/
structure Config where
  /-- `none` is `auto`. -/
  capacity : Option ℚ := none
  schedulerMode : Mode := .active
  cpuClosePercent : ℚ := 90
  cpuOpenPercent : ℚ := 70
  cpuAdmissionPercent : ℚ := 75
  admissionCooldownMs : ℚ := 5000
  cpuReserveCores : ℚ := 1
  preemptibleNiceMin : ℤ := 1
  preemptibleShare : ℚ := 4 / 5
  memoryReserveBytes : ℚ := 2147483648
  defaultMemoryBytesPerWeight : ℚ := 1073741824
  settledDemandEnabled : Bool := true
  settledDemandSettleMs : ℚ := 120000
  settledDemandWindowMs : ℚ := 180000
  settledDemandHeadroom : ℚ := 5 / 4
  settledDemandFloorFraction : ℚ := 1 / 2
  historyDemandEnabled : Bool := true
  historyDemandRaise : Bool := true
  sampleMs : ℚ := 5000
  admissionLoadGate : Bool := false
  maxLaneWeight : ℕ := 4
  conflictSkipLimit : ℕ := 3
  headBlockGraceMs : ℕ := 600000
  conflictSafeBackfill : Bool := true
  expressMaxMs : ℕ := 30000
  expressPerMinute : ℕ := 6
  expressHeadMaxWaitMs : ℕ := 900000
  queueBypassCap : ℕ := 0
  queueBypassMaxMs : ℕ := 60000
  resourceSkipLimit : ℕ := 3
  resourceIdleOvershootCores : ℚ := 1
  floorOvershootCores : ℚ := 6
  laneNice : ℤ := 10
  priorityNice : Tier → Option ℤ := fun tier => if tier = .high then some 5 else none
  priorityAgingMs : ℤ := 600000
  priorityAgeMaxMs : ℤ := 1200000
  priorityWeights : PriorityWeights := {}
  /-- `none` where there is no block. -/
  classes : Option ClassesBlock := none
  /-- The block that is in force failed to load. -/
  classesInvalid : Bool := false

/-- `detectResourceCapacity`. -/
structure Host where
  cpuCores : ℚ
  memoryBytes : ℚ
  deriving DecidableEq, Repr

/-! ### Claims -/

/-- `Math.round`. -/
def jsRound (x : ℚ) : ℚ := ⌊x + 1 / 2⌋

/-- What `resolveTicketResources` returns. -/
structure Claim where
  cpuCores : ℚ
  minCpuCores : Option ℚ := none
  memoryBytes : ℚ
  deriving DecidableEq, Repr

/-- `resolveTicketResources`; a gigabyte for each unit of weight is its default. -/
def resolveTicketResources (weight : ℚ) (cpuCores minCpuCores memoryBytes : Option ℚ)
    (defaultMemoryBytesPerWeight : ℚ := 1073741824) : Claim :=
  let cpu := cpuCores.getD weight
  { cpuCores := cpu
    minCpuCores := minCpuCores.filter fun least => 0 < least && least < cpu
    memoryBytes := jsRound (memoryBytes.getD (max 1 weight * defaultMemoryBytesPerWeight)) }

/-- `leaseCpuCores`. -/
def leaseCpuCores (lease : Lease) : Option ℚ := lease.grantedCpuCores.or lease.resources.cpuCores

/-- `leaseResources`. -/
def leaseResources (lease : Lease) (cfg : Config) : Claim :=
  resolveTicketResources lease.weight (leaseCpuCores lease) none lease.resources.memoryBytes
    cfg.defaultMemoryBytesPerWeight

/-- `effectiveWeightCapacity`. -/
def effectiveWeightCapacity (cfg : Config) (cpuCores : ℚ) : ℚ :=
  cfg.capacity.getD (max 1 ⌊max 0 (double.sub cpuCores cfg.cpuReserveCores)⌋)

/-- `cpuBudgetCores`. -/
def cpuBudgetCores (host : Host) (cfg : Config) : ℚ :=
  max 0 (min (double.sub host.cpuCores cfg.cpuReserveCores)
    (double.round (double.round (cfg.cpuAdmissionPercent / 100) * host.cpuCores)))

/-- `exclusiveBudget`: the cores and the bytes an exclusive lease takes. -/
def exclusiveBudget (host : Host) (cfg : Config) : ℚ × ℚ :=
  (cpuBudgetCores host cfg, max 0 (double.sub host.memoryBytes cfg.memoryReserveBytes))

/-- A claim lowered to `cap` cores; a floor that is not below the cap goes. -/
def Ticket.capped (ticket : Ticket) (least cap : ℚ) : Ticket :=
  { ticket with
    resources :=
      { ticket.resources with
        cpuCores := some cap
        minCpuCores := if least < cap then some least else none } }

/-- `capElasticClaim`. -/
def capElasticClaim (ticket : Ticket) (cfg : Config) (host : Host) : Ticket :=
  match ticket.resources.minCpuCores with
  | none => ticket
  | some least =>
    if cfg.schedulerMode ≠ .active then ticket
    else
      let cap := ⌊cpuBudgetCores host cfg⌋
      if ticket.resources.cpuCores.all fun cpu => cpu ≤ (cap : ℚ) then ticket
      else if cap < 1 || cap < ⌈least⌉ then ticket
      else ticket.capped least cap

/-- `elasticBelowFloor`. -/
def elasticBelowFloor (ticket : Ticket) (cfg : Config) (host : Host) : Bool :=
  match ticket.resources.minCpuCores with
  | none => false
  | some least =>
    if cfg.schedulerMode ≠ .active then false
    else
      let cap := ⌊cpuBudgetCores host cfg⌋
      cap < 1 || cap < ⌈least⌉

/-- `queuedWeightLimit`. -/
def queuedWeightLimit (maxLaneWeight : ℕ) (capacity : ℚ) : ℚ :=
  max 1 (min maxLaneWeight ⌊capacity / 2⌋)

/-- `clampQueuedWeight`. -/
def clampQueuedWeight (ticket : Ticket) (cfg : Config) (capacity : ℚ) : Ticket :=
  let limit := queuedWeightLimit cfg.maxLaneWeight capacity
  if !ticket.exclusive && limit < ticket.weight then { ticket with weight := limit } else ticket

/-! ### Priority -/

/-- `priorityOf`. -/
def priorityOf (priorityAdmitted : Option Tier) : Tier := priorityAdmitted.getD defaultPriority

/-- `resolveLaneNice`. -/
def resolveLaneNice (ticket : Ticket) (tier : Tier) (cfg : Config) : ℤ :=
  ticket.niceOverride.getD ((cfg.priorityNice tier).getD cfg.laneNice)

/-- `effectiveNice`. -/
def effectiveNice (target currentNice : ℤ) : ℤ := min 19 (max target currentNice)

/-! ### Conflicts -/

/-- How many leases of its key a ticket runs beside. -/
def ceilingOf (maxConcurrent : Option ℤ) : ℕ := ((maxConcurrent.filter (1 ≤ ·)).getD 1).toNat

/-- A stand-in for a lease that is looked at for its key only: `{ key }`. -/
def keyHolder (key : Key) : Lease := { key }

/-- **`blockedBy`**: a lease on another key that the ticket names, or else the last of those on its
own key once they are as many as it may run beside. -/
def blockedBy (held : List Lease) (ticket : Ticket) : Option Lease :=
  match held.find? fun lease => lease.key != ticket.key && ticket.conflicts.contains lease.key with
  | some lease => some lease
  | none =>
    let sameKeyHeld := held.filter fun lease => lease.key == ticket.key
    if ceilingOf ticket.maxConcurrent ≤ sameKeyHeld.length then sameKeyHeld.getLast? else none

theorem ceilingOf_pos (maxConcurrent : Option ℤ) : 0 < ceilingOf maxConcurrent := by
  unfold ceilingOf
  rcases maxConcurrent with _ | n
  · decide
  · by_cases h : (1 : ℤ) ≤ n
    · simp only [Option.filter_some, decide_eq_true_eq, h, if_true, Option.getD_some]
      omega
    · simp [Option.filter_some, h]

/-- A ticket that is not blocked has room on its own key. -/
theorem sameKey_lt_of_blockedBy_eq_none {held : List Lease} {ticket : Ticket}
    (h : blockedBy held ticket = none) :
    (held.filter fun lease => lease.key == ticket.key).length < ceilingOf ticket.maxConcurrent := by
  unfold blockedBy at h
  split at h
  · cases h
  · by_contra hlt
    have hle : ceilingOf ticket.maxConcurrent ≤
        (held.filter fun lease => lease.key == ticket.key).length := by omega
    have hpos := ceilingOf_pos ticket.maxConcurrent
    simp only [hle, if_true, List.getLast?_eq_none_iff] at h
    rw [h] at hle
    simp only [List.length_nil] at hle
    omega

/-- Who is not blocked, said of the leases one by one. -/
theorem blockedBy_eq_none_iff {held : List Lease} {t : Ticket} :
    blockedBy held t = none ↔ (∀ l ∈ held, l.key ≠ t.key → l.key ∉ t.conflicts) ∧
      held.countP (fun l => l.key == t.key) < ceilingOf t.maxConcurrent := by
  have hconflicts : (held.find? fun l => l.key != t.key && t.conflicts.contains l.key) = none ↔
      ∀ l ∈ held, l.key ≠ t.key → l.key ∉ t.conflicts := by
    simp
  rw [List.countP_eq_length_filter, ← hconflicts]
  constructor
  · intro h
    refine ⟨?_, sameKey_lt_of_blockedBy_eq_none h⟩
    unfold blockedBy at h
    split at h
    · cases h
    · assumption
  · rintro ⟨hnone, hlt⟩
    unfold blockedBy
    rw [hnone]
    simp only
    rw [if_neg (not_le.2 hlt)]

/-- `blockedBy` reads the key, the conflicts and the ceiling. -/
theorem blockedBy_congr {t u : Ticket} (held : List Lease) (hkey : t.key = u.key)
    (hconflicts : t.conflicts = u.conflicts) (hceiling : t.maxConcurrent = u.maxConcurrent) :
    blockedBy held t = blockedBy held u := by
  unfold blockedBy
  rw [hkey, hconflicts, hceiling]

end Scheduler
end LaneBroker
