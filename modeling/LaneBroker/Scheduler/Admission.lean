/-
# The CPU and the memory of a claim

`admission.js` and the memory half of `resources.js`: what a held lease is charged for, what the
host can still give, and whether a claim fits.  An elastic claim that only the CPU projection
refuses is tried again at smaller whole numbers of cores.  Cores are exact rationals here, where
the program adds doubles.

What the history of past runs says of a workload is a table (`History`); it is a cache that the
supervisor fills before it takes the lock.
-/

import LaneBroker.Scheduler.Tickets

namespace LaneBroker
namespace Scheduler

open LaneBroker.Basis

/-- **The history estimates**: the p90 peak of a workload at a claim, where there are enough
runs. -/
abbrev History := ℕ → ℚ → Option ℚ

/-- A CPU sample; `none` for a host load that is not a number. -/
structure CpuSample where
  hostBusyCores : Option ℚ
  cores : ℚ
  stale : Bool := false
  preemptibleBusyCores : ℚ := 0
  sampledAt : Option ℤ := none
  deriving DecidableEq, Repr

/-- What the memory reader says. -/
structure MemInfo where
  availableBytes : Option ℚ
  totalBytes : Option ℚ
  /-- `macPressure` is `critical`. -/
  critical : Bool := false
  deriving DecidableEq, Repr

/-! ### What a claim is charged for -/

/-- `coldStartEstimate`. -/
def coldStartEstimate (weight : ℚ) : ℚ := max 0 weight

/-- `MIN_ESTIMATE_CORES`. -/
def minEstimateCores : ℚ := 1 / 2

/-- `clampEstimate`. -/
def clampEstimate (p90 declared : ℚ) : ℚ := min declared (max minEstimateCores p90)

/-- `raiseEstimate`. -/
def raiseEstimate (p90 ceiling : ℚ) : ℚ := min ceiling (max minEstimateCores p90)

/-- `cpuEstimateBasis`, the cores of it. -/
def cpuEstimate (history : History) (workload : Option ℕ) (declared : ℚ) (cfg : Config)
    (budget : Option ℚ) : ℚ :=
  let cold := coldStartEstimate declared
  if !cfg.historyDemandEnabled then cold
  else
    match workload.bind fun w => history w cold, budget with
    | none, _ => cold
    | some p90, none => clampEstimate p90 cold
    | some p90, some budget =>
      if cfg.historyDemandRaise && cold < p90 then raiseEstimate p90 budget
      else clampEstimate p90 cold

/-- `OBSERVATION_TTL_MS`. -/
def observationTtlMs : ℤ := 30000

/-- The lease was observed lately. -/
def Lease.fresh (lease : Lease) (now : ℤ) : Bool :=
  lease.observedAt.any fun observedAt => now - observedAt ≤ observationTtlMs

/-- `freshObservedCores`. -/
def freshObservedCores (lease : Lease) (now : ℤ) : Option ℚ :=
  if lease.fresh now then lease.observedCpuCores.filter (0 ≤ ·) else none

/-- `recentObservedCores`: how many observations there are in the window, and the peak. -/
def recentObservedCores (lease : Lease) (now : ℤ) (windowMs current : ℚ) : ℕ × ℚ :=
  let inWindow := lease.observedCpuHistory.filter fun h =>
    0 ≤ h.2 && ((now - h.1 : ℤ) : ℚ) ≤ windowMs
  (inWindow.length, inWindow.foldl (fun peak h => max peak h.2) current)

/-- `leaseDemand`. -/
def leaseDemand (history : History) (lease : Lease) (now : ℤ) (cfg : Config)
    (budget : Option ℚ) : ℚ :=
  let cold := coldStartEstimate ((leaseCpuCores lease).getD lease.weight)
  let estimated := min (cpuEstimate history lease.workload cold cfg budget) cold
  match freshObservedCores lease now with
  | none => estimated
  | some observed =>
    let unsettled := max observed estimated
    if !cfg.settledDemandEnabled then unsettled
    else if lease.admittedAt.all fun admittedAt =>
        ((now - admittedAt : ℤ) : ℚ) < cfg.settledDemandSettleMs then unsettled
    else
      let recent := recentObservedCores lease now cfg.settledDemandWindowMs observed
      if recent.1 < 2 then unsettled
      else
        let padded := min cold (max (cold * cfg.settledDemandFloorFraction)
          (recent.2 * cfg.settledDemandHeadroom))
        max observed padded

/-- The candidate of `leaseCharge`: the nice it will run at, and the tier it was admitted at. -/
structure CandidatePriority where
  nice : ℤ
  tier : Tier
  deriving DecidableEq, Repr

/-- `candidatePriorityOf`. -/
def candidatePriorityOf (ticket : Ticket) : Option CandidatePriority :=
  match ticket.nice, ticket.priorityAdmitted with
  | some nice, some tier => some { nice, tier }
  | _, _ => none

/-- `tierRank`. -/
def tierRank : Tier → ℕ := tierBase

/-- The kernel runs the lease behind the candidate. -/
def outranked (lease : Lease) (candidate : CandidatePriority) (cfg : Config) : Bool :=
  (lease.nice.any fun nice => candidate.nice < nice && cfg.preemptibleNiceMin ≤ nice) &&
    tierRank (priorityOf lease.priorityAdmitted) < tierRank candidate.tier

/-- `leaseCharge`. -/
def leaseCharge (lease : Lease) (demand : ℚ) (candidate : Option CandidatePriority)
    (cfg : Config) : ℚ :=
  match candidate with
  | none => demand
  | some candidate =>
    if !decide (0 < cfg.preemptibleNiceMin) then demand
    else if outranked lease candidate cfg then demand * (1 - cfg.preemptibleShare)
    else demand

/-- `projectBusy`. -/
def projectBusy (history : History) (externalBusy : ℚ) (heldLeases : List Lease)
    (candidateEstimate : ℚ) (now : ℤ) (cfg : Config) (budget : Option ℚ)
    (candidate : Option CandidatePriority) : ℚ :=
  externalBusy + (heldLeases.map fun l =>
    leaseCharge l (leaseDemand history l now cfg budget) candidate cfg).sum + candidateEstimate

/-! ### What the host can give -/

/-- `cooldownActive`. -/
def cooldownActive (heldLeases : List Lease) (cfg : Config) (now : ℤ) : Bool :=
  heldLeases.any fun l => !l.queueBypass && l.admittedAt.any fun admittedAt =>
    ((now - admittedAt : ℤ) : ℚ) < cfg.admissionCooldownMs

/-- `nonPreemptibleBusy`, of a sample whose host load is a number. -/
def nonPreemptibleBusy (cpuSample : CpuSample) (hostBusyCores : ℚ) (cfg : Config) : ℚ :=
  let preemptible := min (max 0 cpuSample.preemptibleBusyCores) hostBusyCores
  let share := if 0 < cfg.preemptibleNiceMin then cfg.preemptibleShare else 0
  max 0 (hostBusyCores - share * preemptible)

/-- `cpuBudget`. -/
def cpuBudget (cpuSample : CpuSample) (cfg : Config) : ℚ :=
  min (double.round (double.round (cfg.cpuAdmissionPercent / 100) * cpuSample.cores))
    (max 0 (double.sub cpuSample.cores cfg.cpuReserveCores))

/-- `hostCpuLoad`: the load outside every lease. -/
def externalBusyOf (cpuSample : CpuSample) (hostBusyCores : ℚ) (heldLeases : List Lease)
    (cfg : Config) (now : ℤ) : ℚ :=
  max 0 (nonPreemptibleBusy cpuSample hostBusyCores cfg -
    (heldLeases.map fun l => (freshObservedCores l now).getD 0).sum)

/-- `headClearWithoutBypass`. -/
def headClearWithoutBypass (history : History) (headFloorCores : ℚ) (heldLeases : List Lease)
    (cpuSample : CpuSample) (hostBusyCores : ℚ) (gateClosed : Bool) (cfg : Config)
    (now : ℤ) : Bool :=
  let bypass := heldLeases.filter Lease.queueBypass
  let externalBusy := externalBusyOf cpuSample hostBusyCores heldLeases cfg now
  let budget := cpuBudget cpuSample cfg
  let demand l := leaseDemand history l now cfg (some budget)
  let attributed := (bypass.map fun l => (freshObservedCores l now).getD (demand l)).sum
  let drainedBusy := max 0 (nonPreemptibleBusy cpuSample hostBusyCores cfg - attributed)
  let gateClear := decide (drainedBusy / cpuSample.cores * 100 <
    if gateClosed then cfg.cpuOpenPercent else cfg.cpuClosePercent)
  let rest := heldLeases.filter fun l => !l.queueBypass
  let unobserved := (bypass.map fun l =>
    if (freshObservedCores l now).isNone then demand l else 0).sum
  gateClear && !cooldownActive rest cfg now &&
    projectBusy history (max 0 (externalBusy - unobserved)) rest headFloorCores now cfg
      (some budget) none ≤ budget

/-! ### The CPU predicate -/

inductive CpuReason
  | sampleUnavailableEmpty
  | sampleUnavailableHeld
  | cpuGateClosed
  | cooldown
  | projectedOverBudget
  | ok
  deriving DecidableEq, Repr

/-- The arithmetic of a decision; there is none without a sample. -/
structure CpuLoad where
  externalBusy : ℚ
  projectedBusy : ℚ
  budget : ℚ
  candidateEstimate : ℚ
  deriving DecidableEq, Repr

/-- The CPU half of a decision. -/
structure CpuDecision where
  admits : Bool
  reason : CpuReason
  load : Option CpuLoad
  deriving DecidableEq, Repr

/-- `evaluateCpuAdmission`; `workload` and `candidate` are what it reads of `candidateRef`. -/
def evaluateCpuAdmission (history : History) (cpuSample : Option CpuSample)
    (heldLeases : List Lease) (workload : Option ℕ) (candidate : Option CandidatePriority)
    (candidateCpuCores : ℚ) (gateClosed cooldownBlocked : Bool) (cfg : Config) (now : ℤ) :
    CpuDecision :=
  match (cpuSample.filter fun sample => !sample.stale).bind fun sample =>
      sample.hostBusyCores.map fun busy => (sample, busy) with
  | none =>
    if heldLeases.isEmpty then { admits := true, reason := .sampleUnavailableEmpty, load := none }
    else { admits := false, reason := .sampleUnavailableHeld, load := none }
  | some (sample, hostBusyCores) =>
    let externalBusy := externalBusyOf sample hostBusyCores heldLeases cfg now
    let budget := cpuBudget sample cfg
    let candidateEstimate := cpuEstimate history workload candidateCpuCores cfg
      (if heldLeases.isEmpty then none else some budget)
    let projectedBusy := projectBusy history externalBusy heldLeases candidateEstimate now cfg
      (some budget) candidate
    let load := some { externalBusy, projectedBusy, budget, candidateEstimate }
    if gateClosed then { admits := false, reason := .cpuGateClosed, load }
    else if cooldownBlocked then { admits := false, reason := .cooldown, load }
    else if budget < projectedBusy then { admits := false, reason := .projectedOverBudget, load }
    else { admits := true, reason := .ok, load }

/-! ### The memory predicate -/

inductive MemoryReason
  | notSampled
  | unavailable
  | reservations
  | headroom
  | ok
  deriving DecidableEq, Repr

/-- The memory half of a decision. -/
structure MemoryDecision where
  admits : Bool
  reason : MemoryReason
  deriving DecidableEq, Repr

/-- `evaluateMemoryAdmission`. -/
def evaluateMemoryAdmission (memoryInfo : MemInfo) (heldLeases : List Lease)
    (candidateMemoryBytes : ℚ) (cfg : Config) (now : ℤ) : MemoryDecision :=
  match memoryInfo.availableBytes with
  | none => { admits := false, reason := .unavailable }
  | some availableBytes =>
    let growthReserve := (heldLeases.map fun lease =>
      let observed := if lease.fresh now then lease.observedMemoryBytes.getD 0 else 0
      max 0 ((leaseResources lease cfg).memoryBytes - observed)).sum
    let projectedAvailableBytes := availableBytes - growthReserve - candidateMemoryBytes
    let reservedBytes := (heldLeases.map fun lease => (leaseResources lease cfg).memoryBytes).sum
    if memoryInfo.totalBytes.any fun totalBytes =>
        max 0 (totalBytes - cfg.memoryReserveBytes) < reservedBytes + candidateMemoryBytes then
      { admits := false, reason := .reservations }
    else if projectedAvailableBytes < cfg.memoryReserveBytes then
      { admits := false, reason := .headroom }
    else { admits := true, reason := .ok }

/-! ### The decision for a claim -/

/-- What `decideAdmission` returns. -/
structure Decision where
  admits : Bool
  cpuReason : CpuReason
  memoryReason : MemoryReason
  load : Option CpuLoad
  candidateCpuCores : ℚ
  cpuGateClosed : Bool
  cooldownBlocked : Bool
  deriving DecidableEq, Repr

/-- What a ticket claims, as admission reads it. -/
def ticketResources (ticket : Ticket) (cfg : Config) : Claim :=
  resolveTicketResources ticket.weight ticket.resources.cpuCores none ticket.resources.memoryBytes
    cfg.defaultMemoryBytesPerWeight

/-- `decideAdmission`. -/
def decideAdmission (history : History) (cfg : Config) (ticket : Ticket) (heldLeases : List Lease)
    (cpuSample : Option CpuSample) (memoryInfo : Option MemInfo) (gateClosed blocked : Bool)
    (now : ℤ) : Decision :=
  let candidateResources := ticketResources ticket cfg
  let cpuResult := evaluateCpuAdmission history cpuSample heldLeases ticket.workload
    (candidatePriorityOf ticket) candidateResources.cpuCores gateClosed blocked cfg now
  let memoryResult :=
    match memoryInfo with
    | some info => evaluateMemoryAdmission info heldLeases candidateResources.memoryBytes cfg now
    | none => { admits := true, reason := .notSampled }
  { admits := cpuResult.admits && memoryResult.admits
    cpuReason := cpuResult.reason
    memoryReason := memoryResult.reason
    load := cpuResult.load
    candidateCpuCores := candidateResources.cpuCores
    cpuGateClosed := gateClosed
    cooldownBlocked := blocked }

/-- `evaluateNewAdmission`, with the gate already updated. -/
def evaluateNewAdmission (history : History) (cfg : Config) (ticket : Ticket)
    (heldLeases : List Lease) (cpuSample : Option CpuSample) (memoryInfo : Option MemInfo)
    (gateClosed : Bool) (now : ℤ) : Decision :=
  decideAdmission history cfg ticket heldLeases cpuSample memoryInfo gateClosed
    (cooldownActive heldLeases cfg now) now

/-- `isCpuOnlyDenial`. -/
def isCpuOnlyDenial (decision : Decision) : Bool :=
  !decision.admits && decision.cpuReason = .projectedOverBudget && decision.memoryReason = .ok

/-- `elasticClaimRange`: the claims that are tried, from the largest down. -/
def elasticClaimRange (cpuCores : ℚ) (minCpuCores : Option ℚ) (headroom : ℚ) : List ℤ :=
  match minCpuCores.filter (· < cpuCores) with
  | none => []
  | some least =>
    let hi := min (⌈cpuCores⌉ - 1) ⌊headroom⌋
    let lo := ⌈least⌉
    (List.range (hi + 1 - lo).toNat).map fun i : ℕ => hi - i

/-- The ticket at another claim. -/
def Ticket.resized (ticket : Ticket) (claim : ℤ) : Ticket :=
  { ticket with resources := { ticket.resources with cpuCores := some claim } }

/-- **`evaluateElasticAdmission`**: the decision at the largest smaller claim that is admitted,
and that claim. -/
def evaluateElasticAdmission (history : History) (cfg : Config) (ticket : Ticket)
    (heldLeases : List Lease) (cpuSample : Option CpuSample) (memoryInfo : Option MemInfo)
    (fullDecision : Decision) (now : ℤ) : Option (Decision × ℚ) :=
  if !isCpuOnlyDenial fullDecision then none
  else
    fullDecision.load.bind fun load =>
      let headroom := load.budget - (load.projectedBusy - load.candidateEstimate)
      let declared := ticket.resources.cpuCores.getD ticket.weight
      (elasticClaimRange declared ticket.resources.minCpuCores headroom).findSome? fun claim =>
        let decision := decideAdmission history cfg (ticket.resized claim) heldLeases cpuSample
          memoryInfo fullDecision.cpuGateClosed fullDecision.cooldownBlocked now
        if decision.admits then some (decision, (claim : ℚ)) else none

/-- `ticketCpuEstimate`. -/
def ticketCpuEstimate (history : History) (ticket : Ticket) (cfg : Config)
    (budget : Option ℚ) : ℚ :=
  cpuEstimate history ticket.workload (ticketResources ticket cfg).cpuCores cfg budget

/-- **`ticketCpuFloor`**: the smallest charge a ticket can be admitted at. -/
def ticketCpuFloor (history : History) (ticket : Ticket) (cfg : Config) (budget : Option ℚ)
    (held : List Lease) (headroom : Option ℚ) : ℚ :=
  let raiseBudget := if held.isEmpty then none else budget
  let estimate := ticketCpuEstimate history ticket cfg raiseBudget
  match ticket.resources.minCpuCores, raiseBudget, headroom with
  | none, _, _ => estimate
  | some least, some _, some headroom =>
    let grants := match ticket.resources.cpuCores with
      | none => []
      | some cpuCores => elasticClaimRange cpuCores (some least) headroom
    grants.foldl (fun floor grant =>
      min floor (ticketCpuEstimate history (ticket.resized grant) cfg raiseBudget)) estimate
  | some least, _, _ => min estimate ⌈least⌉

/-! ### Lemmas -/

/-- **A claim that is tried** is a whole number of cores below the declaration, not below the floor
and within the headroom. -/
theorem mem_elasticClaimRange_iff {cpuCores headroom : ℚ} {minCpuCores : Option ℚ} {claim : ℤ} :
    claim ∈ elasticClaimRange cpuCores minCpuCores headroom ↔
      ∃ least, minCpuCores = some least ∧ least < cpuCores ∧ ⌈least⌉ ≤ claim ∧
        (claim : ℚ) < cpuCores ∧ (claim : ℚ) ≤ headroom := by
  unfold elasticClaimRange
  cases hleast : minCpuCores.filter (· < cpuCores) with
  | none =>
    refine iff_of_false (by simp) ?_
    rintro ⟨least, rfl, hlt, -⟩
    simp [Option.filter_some, hlt] at hleast
  | some least =>
    obtain ⟨rfl, hlt⟩ := Option.filter_eq_some_iff.1 hleast
    have hdeclared : (claim : ℚ) < cpuCores ↔ claim ≤ ⌈cpuCores⌉ - 1 := by
      rw [← Int.lt_ceil]
      omega
    have hle₁ := min_le_left (⌈cpuCores⌉ - 1) ⌊headroom⌋
    have hle₂ := min_le_right (⌈cpuCores⌉ - 1) ⌊headroom⌋
    simp only [List.mem_map, List.mem_range, hdeclared, ← Int.le_floor]
    constructor
    · rintro ⟨i, hi, rfl⟩
      exact ⟨least, rfl, by simpa using hlt, by omega, by omega, by omega⟩
    · rintro ⟨_, hsome, -, hge, hbelow, hroom⟩
      obtain rfl := Option.some.inj hsome
      have hmin := le_min hbelow hroom
      exact ⟨(min (⌈cpuCores⌉ - 1) ⌊headroom⌋ - claim).toNat, by omega, by omega⟩

/-- What an elastic grant is. -/
theorem evaluateElasticAdmission_eq_some {history : History} {cfg : Config} {ticket : Ticket}
    {heldLeases : List Lease} {cpuSample : Option CpuSample} {memoryInfo : Option MemInfo}
    {fullDecision decision : Decision} {now : ℤ} {granted : ℚ}
    (h : evaluateElasticAdmission history cfg ticket heldLeases cpuSample memoryInfo fullDecision
      now = some (decision, granted)) :
    isCpuOnlyDenial fullDecision = true ∧ ∃ least claim, ticket.resources.minCpuCores = some least ∧
      granted = ((claim : ℤ) : ℚ) ∧ ⌈least⌉ ≤ claim ∧
      granted < ticket.resources.cpuCores.getD ticket.weight ∧ decision.admits = true ∧
      decision = decideAdmission history cfg (ticket.resized claim) heldLeases cpuSample memoryInfo
        fullDecision.cpuGateClosed fullDecision.cooldownBlocked now := by
  unfold evaluateElasticAdmission at h
  split_ifs at h with honly
  obtain ⟨load, -, h⟩ := Option.bind_eq_some_iff.1 h
  obtain ⟨claim, hclaim, h⟩ := List.exists_of_findSome?_eq_some h
  obtain ⟨least, hleast, -, hge, hlt, -⟩ := mem_elasticClaimRange_iff.1 hclaim
  simp only at h
  split_ifs at h with hadmitted
  obtain ⟨rfl, rfl⟩ := Prod.mk.inj (Option.some.inj h)
  exact ⟨by simpa using honly, least, claim, hleast, rfl, hge, hlt, hadmitted, rfl⟩

end Scheduler
end LaneBroker
