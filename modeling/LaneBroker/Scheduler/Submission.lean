/-
# What submission accepts and what admission lets start

`checkResourceBudget` refuses at submission what is over the budget of the host.  Admission judges
the same claim once more, with other formulas, and beside it the weight and the memory that is left.
On a host with nothing on it the two agree for the cores.  They do not where the capacity is a
number below one, which no weight is clamped to, nor where the reserve is more memory than the host
has.
-/

import LaneBroker.Scheduler.ElasticGrant
import LaneBroker.Scheduler.Projection

namespace LaneBroker
namespace Scheduler

open LaneBroker.Basis

/-! ### Submission -/

/-- The resources of a ticket, as they were resolved. -/
def Claim.resources (c : Claim) : Resources :=
  { cpuCores := some c.cpuCores, minCpuCores := c.minCpuCores, memoryBytes := some c.memoryBytes }

/-- The refusal of a request over the budget, with the numbers of its message. -/
structure BudgetRefusal where
  exitCode : ℕ := 64
  smallestClaim : ℚ
  cpuBudget : ℚ
  memoryBytes : ℚ
  memoryBudget : ℚ
  deriving DecidableEq, Repr

/-- **`checkResourceBudget`**: none is `ok`. -/
def checkResourceBudget (resources : Claim) (globalCfg : Config) (host : Host) :
    Option BudgetRefusal :=
  let cpuBudget := cpuBudgetCores host globalCfg
  let memoryBudget := max 0 (host.memoryBytes - globalCfg.memoryReserveBytes)
  let smallestClaim : ℚ :=
    match resources.minCpuCores with
    | some least => ⌈least⌉
    | none => resources.cpuCores
  let grantableBudget : ℚ := if resources.minCpuCores.isSome then ⌊cpuBudget⌋ else cpuBudget
  if globalCfg.schedulerMode = .active ∧
      (grantableBudget < smallestClaim ∨ memoryBudget < resources.memoryBytes) then
    some { smallestClaim, cpuBudget, memoryBytes := resources.memoryBytes, memoryBudget }
  else none

/-- **What validation promises of the settings** that the budget is made of. -/
structure Config.BudgetValid (cfg : Config) : Prop extends cfg.Valid where
  cpuAdmissionPercent : 0 < cfg.cpuAdmissionPercent
  cpuReserveCores : 0 ≤ cfg.cpuReserveCores
  memoryReserveBytes : 0 ≤ cfg.memoryReserveBytes
  maxLaneWeight : 1 ≤ cfg.maxLaneWeight

/-- **A ticket as `run.js` makes it**: its claim is resolved from numbers that are positive, where
they are given. -/
def Ticket.Submitted (t : Ticket) (cfg : Config) (claim : Claim) : Prop :=
  t.resources = claim.resources ∧ ∃ cpuCores minCpuCores memoryBytes : Option ℚ,
    claim = resolveTicketResources t.weight cpuCores minCpuCores memoryBytes
      cfg.defaultMemoryBytesPerWeight ∧ ∀ bytes ∈ memoryBytes, 0 ≤ bytes

/-! ### The idle host -/

/-- A fresh sample of a host on which nothing runs. -/
def idleSample (host : Host) : CpuSample := { hostBusyCores := some 0, cores := host.cpuCores }

/-- All of its memory is available. -/
def idleMemory (host : Host) : MemInfo :=
  { availableBytes := some host.memoryBytes, totalBytes := some host.memoryBytes }

/-- The ticket as the scheduler judges it. -/
def judgedTicket (cfg : Config) (host : Host) (t : Ticket) : Ticket :=
  clampQueuedWeight (capElasticClaim t cfg host) cfg (effectiveWeightCapacity cfg host.cpuCores)

/-- The decision for it on the idle host, with the gate open. -/
def idleDecision (history : History) (cfg : Config) (host : Host) (t : Ticket) (now : ℤ) :
    Decision :=
  decideAdmission history cfg (judgedTicket cfg host t) [] (some (idleSample host))
    (some (idleMemory host)) false (cooldownActive [] cfg now) now

/-- **The ticket can start on the idle host**: it is admitted, at its claim or at a smaller one, and
its weight fits. -/
structure CanStart (history : History) (cfg : Config) (host : Host) (t : Ticket) (now : ℤ) :
    Prop where
  admitted : (((evaluateElasticAdmission history cfg (judgedTicket cfg host t) []
    (some (idleSample host)) (some (idleMemory host)) (idleDecision history cfg host t now)
    now).map Prod.fst).getD (idleDecision history cfg host t now)).admits = true
  fits : (judgedTicket cfg host t).weight ≤ effectiveWeightCapacity cfg host.cpuCores

variable {history : History} {cfg : Config} {host : Host} {t : Ticket} {claim : Claim} {now : ℤ}

/-! ### The cores -/

theorem externalBusyOf_idle (host : Host) (cfg : Config) (now : ℤ) :
    externalBusyOf (idleSample host) 0 [] cfg now = 0 := by
  simp [externalBusyOf, nonPreemptibleBusy, idleSample]

/-- **The two budgets are one.** -/
theorem cpuBudget_idle (hcfg : cfg.BudgetValid) (hhost : 0 ≤ host.cpuCores) :
    cpuBudget (idleSample host) cfg = cpuBudgetCores host cfg := by
  have hshare : 0 ≤ double.round (cfg.cpuAdmissionPercent / 100) :=
    Format.round_nonneg (div_nonneg hcfg.cpuAdmissionPercent.le (by norm_num))
  have hpercent := Format.round_nonneg (f := double) (mul_nonneg hshare hhost)
  unfold cpuBudget cpuBudgetCores idleSample
  rw [max_min_distrib_left, max_eq_right hpercent, min_comm]

/-- A claim within the budget passes the CPU half. -/
theorem evaluateCpuAdmission_idle (hcfg : cfg.BudgetValid) (hhost : 0 ≤ host.cpuCores)
    (workload : Option ℕ) (candidate : Option CandidatePriority) {cpu : ℚ}
    (hcpu : cpu ≤ cpuBudgetCores host cfg) :
    (evaluateCpuAdmission history (some (idleSample host)) [] workload candidate cpu false false cfg
      now).admits = true ∧
    (evaluateCpuAdmission history (some (idleSample host)) [] workload candidate cpu false false cfg
      now).reason = .ok := by
  have hestimate := cpuEstimate_le history workload cpu cfg
  have hnonneg : 0 ≤ cpuBudgetCores host cfg := le_max_left _ _
  have hbudget : ¬ cpuBudget (idleSample host) cfg <
      projectBusy history (externalBusyOf (idleSample host) 0 [] cfg now) []
        (cpuEstimate history workload cpu cfg none) now cfg
        (some (cpuBudget (idleSample host) cfg)) candidate := by
    rw [cpuBudget_idle hcfg hhost, externalBusyOf_idle, not_lt]
    simp only [projectBusy, List.map_nil, List.sum_nil, zero_add]
    exact hestimate.trans (max_le hnonneg hcpu)
  have hfresh : ((some (idleSample host)).filter fun sample => !sample.stale) =
      some (idleSample host) := rfl
  have hbusy : (idleSample host).hostBusyCores = some 0 := rfl
  simp only [evaluateCpuAdmission, hfresh, hbusy, Option.bind_some, Option.map_some,
    List.isEmpty_nil, if_true, Bool.false_eq_true, if_false]
  rw [if_neg hbudget]
  exact ⟨rfl, rfl⟩

/-- **What passes the check at submission is within the budget** as it is judged. -/
theorem judgedTicket_le_budget (hactive : cfg.schedulerMode = .active)
    (hsubmitted : t.Submitted cfg claim) (hcheck : checkResourceBudget claim cfg host = none) :
    ∃ cpu, (judgedTicket cfg host t).resources.cpuCores = some cpu ∧
      cpu ≤ cpuBudgetCores host cfg := by
  obtain ⟨hresources, cpuCores, minCpuCores, memoryBytes, hclaim, -⟩ := hsubmitted
  obtain ⟨weight, hclamped⟩ := Poll.clampQueuedWeight_eq (capElasticClaim t cfg host) cfg
    (effectiveWeightCapacity cfg host.cpuCores)
  have hjudged : (judgedTicket cfg host t).resources = (capElasticClaim t cfg host).resources := by
    rw [judgedTicket, hclamped]
  rw [hjudged]
  unfold checkResourceBudget at hcheck
  simp only [hactive, true_and, ite_eq_right_iff, reduceCtorEq, imp_false, not_or, not_lt] at hcheck
  obtain ⟨hcores, -⟩ := hcheck
  have hcpu : t.resources.cpuCores = some claim.cpuCores := by rw [hresources]; rfl
  cases hleast : claim.minCpuCores with
  | none =>
    have hfixed : t.resources.minCpuCores = none := by rw [hresources]; exact hleast
    rw [(keepsClaim_capElasticClaim t cfg host).fixed hfixed]
    simp only [hleast, Option.isSome_none, Bool.false_eq_true, if_false] at hcores
    exact ⟨claim.cpuCores, hcpu, hcores⟩
  | some least =>
    have hmin : t.resources.minCpuCores = some least := by rw [hresources]; exact hleast
    simp only [hleast, Option.isSome_some, if_true, Int.cast_le] at hcores
    have hpos : 0 < least := by
      rw [hclaim] at hleast
      have := (Option.filter_eq_some_iff.1 hleast).2
      simp only [Bool.and_eq_true, decide_eq_true_eq] at this
      exact this.1
    have hone : (1 : ℤ) ≤ ⌊cpuBudgetCores host cfg⌋ := (Int.one_le_ceil_iff.2 hpos).trans hcores
    obtain ⟨cpu, hlowered, hbudget⟩ := @lowered_capElasticClaim _ _ t cfg host hactive hcpu hmin
    refine ⟨cpu, hlowered.cores, ?_⟩
    rcases hbudget with hfits | hbelow
    · exact hfits.trans (Int.floor_le _)
    · -- the floor of an accepted ticket is within the budget
      unfold elasticBelowFloor at hbelow
      rcases hlowered.floor with hfloor | hfloor
      · simp [hfloor, hactive] at hbelow
        omega
      · simp [hfloor] at hbelow

/-! ### The memory -/

theorem jsRound_jsRound (x : ℚ) : jsRound (jsRound x) = jsRound x := by
  unfold jsRound
  rw [Int.cast_inj, Int.floor_intCast_add]
  norm_num

/-- The bytes that admission judges are those that were resolved. -/
theorem ticketResources_memoryBytes (hsubmitted : t.Submitted cfg claim) :
    (ticketResources (judgedTicket cfg host t) cfg).memoryBytes = claim.memoryBytes ∧
      (0 ≤ cfg.defaultMemoryBytesPerWeight → 0 ≤ claim.memoryBytes) := by
  obtain ⟨hresources, cpuCores, minCpuCores, memoryBytes, rfl, hbytes⟩ := hsubmitted
  constructor
  · have hmemory : (judgedTicket cfg host t).resources.memoryBytes = t.resources.memoryBytes :=
      ((keepsClaim_capElasticClaim t cfg host).trans
        (keepsClaim_clampQueuedWeight _ cfg _)).memory
    simp only [ticketResources, resolveTicketResources, hmemory, hresources, Claim.resources,
      Option.getD_some, jsRound_jsRound]
  · exact resolveTicketResources_memoryBytes_nonneg _ _ _ hbytes

/-- **What passes the check at submission passes the memory half** where the reserve is there. -/
theorem evaluateMemoryAdmission_idle (hactive : cfg.schedulerMode = .active)
    (hcheck : checkResourceBudget claim cfg host = none) (hbytes : 0 ≤ claim.memoryBytes) :
    (evaluateMemoryAdmission (idleMemory host) [] claim.memoryBytes cfg now).admits = true ↔
      cfg.memoryReserveBytes ≤ host.memoryBytes := by
  unfold checkResourceBudget at hcheck
  simp only [hactive, true_and, ite_eq_right_iff, reduceCtorEq, imp_false, not_or, not_lt] at hcheck
  obtain ⟨-, hmemory⟩ := hcheck
  have hreservations : ¬ max 0 (host.memoryBytes - cfg.memoryReserveBytes) < claim.memoryBytes :=
    not_lt.2 hmemory
  simp only [evaluateMemoryAdmission, idleMemory, List.map_nil, List.sum_nil, sub_zero, zero_add,
    Option.any_some, hreservations, decide_false, Bool.false_eq_true, if_false]
  by_cases hreserve : cfg.memoryReserveBytes ≤ host.memoryBytes
  · rw [max_eq_right (by linarith)] at hmemory
    rw [if_neg (by linarith)]
    exact ⟨fun _ => hreserve, fun _ => rfl⟩
  · rw [if_pos (by linarith [not_le.1 hreserve])]
    exact ⟨nofun, fun h => absurd h hreserve⟩

/-! ### The weight -/

/-- **A clamped weight fits** where it did before, or where the capacity is at least one. -/
theorem judgedTicket_fits_iff (cfg : Config) (host : Host) (t : Ticket) :
    (judgedTicket cfg host t).weight ≤ effectiveWeightCapacity cfg host.cpuCores ↔
      t.weight ≤ effectiveWeightCapacity cfg host.cpuCores ∨
        (t.exclusive = false ∧ 1 ≤ effectiveWeightCapacity cfg host.cpuCores) := by
  obtain ⟨g, hg⟩ := onResources_capElasticClaim cfg host
  have hcap : capElasticClaim t cfg host = { t with resources := g t.resources } := hg t
  rw [judgedTicket, hcap]
  generalize effectiveWeightCapacity cfg host.cpuCores = capacity at *
  have hone : 1 ≤ queuedWeightLimit cfg.maxLaneWeight capacity := le_max_left _ _
  have hlimit : 1 ≤ capacity → queuedWeightLimit cfg.maxLaneWeight capacity ≤ capacity := by
    intro h
    have hfloor := Int.floor_le (capacity / 2)
    refine max_le h ((min_le_right _ _).trans ?_)
    linarith
  cases hexclusive : t.exclusive with
  | true => simp [clampQueuedWeight]
  | false =>
    simp only [clampQueuedWeight, Bool.not_false, Bool.true_and, decide_eq_true_eq, true_and]
    split_ifs with hheavy
    · exact ⟨fun h => .inr (hone.trans h), fun h => by
        rcases h with h | h
        · exact hheavy.le.trans h
        · exact hlimit h⟩
    · rw [not_lt] at hheavy
      exact ⟨.inl, fun h => by
        rcases h with h | h
        · exact h
        · exact hheavy.trans (hlimit h)⟩

/-! ### What is accepted can start -/

/-- **An accepted ticket can start on the idle host exactly where** its weight can fit and the host
has the memory of the reserve. -/
theorem canStart_iff (history : History) (cfg : Config) (host : Host) (t : Ticket) (claim : Claim)
    (now : ℤ) (hcfg : cfg.BudgetValid) (hactive : cfg.schedulerMode = .active)
    (hhost : 0 ≤ host.cpuCores) (hsubmitted : t.Submitted cfg claim)
    (hcheck : checkResourceBudget claim cfg host = none) :
    CanStart history cfg host t now ↔
      (t.weight ≤ effectiveWeightCapacity cfg host.cpuCores ∨
        (t.exclusive = false ∧ 1 ≤ effectiveWeightCapacity cfg host.cpuCores)) ∧
      cfg.memoryReserveBytes ≤ host.memoryBytes := by
  obtain ⟨hjudged, hnonneg⟩ := @ticketResources_memoryBytes cfg host t claim hsubmitted
  have hmemory := @evaluateMemoryAdmission_idle cfg host claim now hactive hcheck
    (hnonneg hcfg.memory)
  obtain ⟨cpu, hcores, hbudget⟩ := judgedTicket_le_budget hactive hsubmitted hcheck
  have hclaimed : (ticketResources (judgedTicket cfg host t) cfg).cpuCores = cpu := by
    simp [ticketResources, resolveTicketResources, hcores]
  obtain ⟨hcpu, hreason⟩ := @evaluateCpuAdmission_idle history cfg host now hcfg hhost
    (judgedTicket cfg host t).workload (candidatePriorityOf (judgedTicket cfg host t)) cpu hbudget
  have hadmits : (idleDecision history cfg host t now).admits = true ↔
      cfg.memoryReserveBytes ≤ host.memoryBytes := by
    rw [← hmemory]
    simp only [idleDecision, decideAdmission, hjudged, hclaimed, cooldownActive, List.any_nil, hcpu,
      Bool.true_and]
  -- What the cores do not deny is not tried at a smaller claim.
  have hretry : evaluateElasticAdmission history cfg (judgedTicket cfg host t) []
      (some (idleSample host)) (some (idleMemory host)) (idleDecision history cfg host t now) now =
      none := by
    have hok : (idleDecision history cfg host t now).cpuReason = .ok := by
      simp only [idleDecision, decideAdmission, hclaimed, cooldownActive, List.any_nil, hreason]
    simp [evaluateElasticAdmission, isCpuOnlyDenial, hok]
  constructor
  · intro h
    have hadmitted := h.admitted
    rw [hretry] at hadmitted
    exact ⟨(judgedTicket_fits_iff cfg host t).1 h.fits, hadmits.1 hadmitted⟩
  · rintro ⟨hweight, hreserve⟩
    refine ⟨?_, (judgedTicket_fits_iff cfg host t).2 hweight⟩
    rw [hretry]
    exact hadmits.2 hreserve

/-- Settings with a capacity of a half. -/
def halfCapacity : Config := { capacity := some (1 / 2) }

/-- A host of eight cores. -/
def eightCores : Host := { cpuCores := 8, memoryBytes := 17179869184 }

/-- What a ticket of weight one claims, if its lane says no more. -/
def plainClaim : Claim := { cpuCores := 1, memoryBytes := 1073741824 }

/-- The ticket. -/
def plainTicket : Ticket := { id := 1, resources := plainClaim.resources }

theorem budgetValid_of_capacity {capacity : Option ℚ} (h : ∀ c ∈ capacity, 0 < c) :
    Config.BudgetValid { capacity } :=
  { capacity := h
    memory := by norm_num
    cpuAdmissionPercent := by norm_num
    cpuReserveCores := by norm_num
    memoryReserveBytes := by norm_num
    maxLaneWeight := by norm_num }

theorem submitted_plainTicket (capacity : Option ℚ) :
    plainTicket.Submitted { capacity } plainClaim := by
  refine ⟨rfl, none, none, none, ?_, nofun⟩
  change plainClaim = resolveTicketResources plainTicket.weight none none none 1073741824
  decide +kernel

/-- With the capacity that is made from the cores the ticket can start. -/
theorem canStart_plainTicket :
    CanStart (fun _ _ => none) {} eightCores plainTicket 0 ↔
      (plainTicket.weight ≤ effectiveWeightCapacity {} eightCores.cpuCores ∨
        (plainTicket.exclusive = false ∧ 1 ≤ effectiveWeightCapacity {} eightCores.cpuCores)) ∧
      ({} : Config).memoryReserveBytes ≤ eightCores.memoryBytes :=
  canStart_iff (fun _ _ => none) {} eightCores plainTicket plainClaim 0
    (budgetValid_of_capacity nofun) rfl (by decide +kernel) (submitted_plainTicket none)
    (by decide +kernel)

/-- **A ticket is accepted that can never start**: no weight is clamped below one. -/
theorem submission_accepts_a_weight_that_never_fits :
    halfCapacity.BudgetValid ∧ halfCapacity.schedulerMode = .active ∧
      plainTicket.Submitted halfCapacity plainClaim ∧
      checkResourceBudget plainClaim halfCapacity eightCores = none ∧
      ∀ history now, ¬ CanStart history halfCapacity eightCores plainTicket now := by
  refine ⟨budgetValid_of_capacity (by simp), rfl, submitted_plainTicket _, by decide +kernel, ?_⟩
  intro history now h
  exact absurd h.fits (by decide +kernel)

end Scheduler
end LaneBroker
