/-
# What the CPU projection is sound for

The load outside every lease is what the host is busy with less what the leases were seen to use,
and the projection adds the leases back at what they are charged.  So nothing of the host's load is
lost if no lease is charged less than was subtracted for it (`observed_le_leaseDemand`), cold,
unsettled or settled, and then the host's load itself is within the budget, up to the share of the
leases that yield to the candidate (`admitted_within_budget`).
-/

import LaneBroker.Scheduler.Admission
import Mathlib.Algebra.Order.Field.Basic

namespace LaneBroker
namespace Scheduler

open LaneBroker.Basis

section Demand

variable {history : History} {lease : Lease} {now : ℤ} {cfg : Config} {budget : ℚ}

/-- **A lease that yields to the candidate**: `outranked`, where a candidate is weighed at all. -/
def yieldsTo (candidate : Option CandidatePriority) (cfg : Config) (lease : Lease) : Bool :=
  candidate.any fun candidate => 0 < cfg.preemptibleNiceMin && outranked lease candidate cfg

/-- The cold estimate of a lease's own grant. -/
def Lease.coldEstimate (lease : Lease) : ℚ :=
  coldStartEstimate ((leaseCpuCores lease).getD lease.weight)

/-- **The field `leaseCharges` of a decision**: what every lease is charged. -/
def leaseCharges (history : History) (heldLeases : List Lease) (now : ℤ) (cfg : Config)
    (budget : Option ℚ) : List (TicketId × ℚ) :=
  heldLeases.map fun l => (l.id, leaseDemand history l now cfg budget)

theorem Lease.coldEstimate_nonneg (lease : Lease) : 0 ≤ lease.coldEstimate := le_max_left 0 _

/-- An estimate is not negative. -/
theorem cpuEstimate_nonneg (hbudget : 0 ≤ budget) (workload : Option ℕ) (declared : ℚ) :
    0 ≤ cpuEstimate history workload declared cfg (some budget) := by
  have hcold : 0 ≤ coldStartEstimate declared := le_max_left 0 _
  have hleast : ∀ p90, 0 ≤ max minEstimateCores p90 := fun p90 =>
    le_max_of_le_left (by norm_num [minEstimateCores])
  unfold cpuEstimate
  dsimp only
  split_ifs with henabled
  · exact hcold
  · cases workload.bind fun w => history w (coldStartEstimate declared) with
    | none => exact hcold
    | some p90 =>
      show 0 ≤ if _ then raiseEstimate p90 budget else clampEstimate p90 _
      split_ifs with hraise
      · exact le_min hbudget (hleast p90)
      · exact le_min hcold (hleast p90)

/-- The charge is at most the claim, where nothing is held. -/
theorem cpuEstimate_le (history : History) (workload : Option ℕ) (declared : ℚ) (cfg : Config) :
    cpuEstimate history workload declared cfg none ≤ max 0 declared := by
  unfold cpuEstimate
  dsimp only
  split_ifs
  · exact le_refl (max 0 declared)
  · cases workload.bind fun w => history w (coldStartEstimate declared) with
    | none => exact le_refl (max 0 declared)
    | some p90 => exact min_le_left (max 0 declared) _

/-- **What a lease is charged**: an estimate up to its own grant where it was not seen lately, and
otherwise what it was seen to use, or more, up to its own grant. -/
theorem leaseDemand_cases (history : History) (lease : Lease) (now : ℤ) (cfg : Config) (budget : ℚ) :
    (freshObservedCores lease now = none ∧ leaseDemand history lease now cfg (some budget) =
      min (cpuEstimate history lease.workload lease.coldEstimate cfg (some budget))
        lease.coldEstimate) ∨
    ∃ observed allowance, freshObservedCores lease now = some observed ∧
      leaseDemand history lease now cfg (some budget) =
        max observed (min allowance lease.coldEstimate) := by
  unfold leaseDemand
  dsimp only
  cases hobserved : freshObservedCores lease now with
  | none => exact .inl ⟨rfl, rfl⟩
  | some observed =>
    refine .inr ?_
    simp only
    split_ifs
    · exact ⟨observed, _, rfl, rfl⟩
    · exact ⟨observed, _, rfl, rfl⟩
    · exact ⟨observed, _, rfl, rfl⟩
    · exact ⟨observed, _, rfl, congrArg _ (min_comm _ _)⟩

/-- **No lease is charged less than what is subtracted for it**: cold, unsettled or settled. -/
theorem observed_le_leaseDemand (hbudget : 0 ≤ budget) :
    (freshObservedCores lease now).getD 0 ≤ leaseDemand history lease now cfg (some budget) := by
  rcases leaseDemand_cases history lease now cfg budget with
    ⟨hnone, hdemand⟩ | ⟨observed, allowance, hsome, hdemand⟩
  · rw [hnone, hdemand]
    exact le_min (cpuEstimate_nonneg hbudget _ _) lease.coldEstimate_nonneg
  · rw [hsome, hdemand]
    exact le_max_left observed _

/-- **No lease is charged more than what it uses and its own grant, the larger of the two.** -/
theorem leaseDemand_le : leaseDemand history lease now cfg (some budget) ≤
    max ((freshObservedCores lease now).getD 0) lease.coldEstimate := by
  rcases leaseDemand_cases history lease now cfg budget with
    ⟨hnone, hdemand⟩ | ⟨observed, allowance, hsome, hdemand⟩
  · rw [hdemand]
    exact le_max_of_le_right (min_le_right _ _)
  · rw [hsome, hdemand]
    exact max_le_max_left observed (min_le_right allowance _)

/-- **A lease that yields is charged its demand without the share.** -/
theorem leaseCharge_eq (candidate : Option CandidatePriority) (demand : ℚ) :
    leaseCharge lease demand candidate cfg =
      demand - if yieldsTo candidate cfg lease then cfg.preemptibleShare * demand else 0 := by
  cases candidate with
  | none => simp [leaseCharge, yieldsTo]
  | some candidate =>
    by_cases hweighed : 0 < cfg.preemptibleNiceMin
    · cases hbehind : outranked lease candidate cfg with
      | true =>
        simp only [leaseCharge, yieldsTo, hweighed, hbehind, decide_true, Bool.not_true,
          Bool.false_eq_true, if_false, if_true, Option.any_some, Bool.and_self]
        ring
      | false => simp [leaseCharge, yieldsTo, hweighed, hbehind]
    · simp [leaseCharge, yieldsTo, hweighed]

end Demand

section Projection

variable {history : History} {now : ℤ} {cfg : Config} {heldLeases : List Lease} {budget : ℚ}
  {candidate : Option CandidatePriority}

/-- The charges of the leases are their demands, without the share of those that yield. -/
theorem sum_leaseCharge (demand : Lease → ℚ) :
    (heldLeases.map fun l => leaseCharge l (demand l) candidate cfg).sum =
      (heldLeases.map demand).sum -
        cfg.preemptibleShare * ((heldLeases.filter (yieldsTo candidate cfg)).map demand).sum := by
  induction heldLeases with
  | nil => simp
  | cons l heldLeases ih =>
    rw [List.map_cons, List.sum_cons, ih, leaseCharge_eq, List.map_cons, List.sum_cons,
      List.filter_cons]
    split_ifs with hyields
    · rw [List.map_cons, List.sum_cons]
      ring
    · ring

/-- Together the leases are charged at least what is subtracted for them. -/
theorem sum_observed_le (hbudget : 0 ≤ budget) :
    (heldLeases.map fun l => (freshObservedCores l now).getD 0).sum ≤
      (heldLeases.map fun l => leaseDemand history l now cfg (some budget)).sum := by
  induction heldLeases with
  | nil => exact le_refl 0
  | cons l heldLeases ih =>
    simp only [List.map_cons, List.sum_cons]
    have hl : (freshObservedCores l now).getD 0 ≤ leaseDemand history l now cfg (some budget) :=
      observed_le_leaseDemand hbudget
    linarith

/-- **The host's own load is within the projection**, up to the share of the leases that yield. -/
theorem busy_le_projectBusy (cpuSample : CpuSample) (hostBusyCores estimate : ℚ)
    (hbudget : 0 ≤ budget) :
    nonPreemptibleBusy cpuSample hostBusyCores cfg + estimate - cfg.preemptibleShare *
        ((heldLeases.filter (yieldsTo candidate cfg)).map fun l =>
          leaseDemand history l now cfg (some budget)).sum ≤
      projectBusy history (externalBusyOf cpuSample hostBusyCores heldLeases cfg now) heldLeases
        estimate now cfg (some budget) candidate := by
  have hexternal : nonPreemptibleBusy cpuSample hostBusyCores cfg -
      (heldLeases.map fun l => (freshObservedCores l now).getD 0).sum ≤
        externalBusyOf cpuSample hostBusyCores heldLeases cfg now := le_max_right _ _
  have hobserved : (heldLeases.map fun l => (freshObservedCores l now).getD 0).sum ≤
      (heldLeases.map fun l => leaseDemand history l now cfg (some budget)).sum :=
    sum_observed_le hbudget
  unfold projectBusy
  rw [sum_leaseCharge fun l => leaseDemand history l now cfg (some budget)]
  linarith

theorem cpuBudget_nonneg {cpuSample : CpuSample} (hpercent : 0 < cfg.cpuAdmissionPercent)
    (hcores : 0 ≤ cpuSample.cores) : 0 ≤ cpuBudget cpuSample cfg := by
  have hshare : 0 ≤ double.round (cfg.cpuAdmissionPercent / 100) :=
    Format.round_nonneg (by positivity)
  exact le_min (Format.round_nonneg (mul_nonneg hshare hcores)) (le_max_left 0 _)

/-- What an admission with a sample is. -/
theorem evaluateCpuAdmission_ok {cpuSample : Option CpuSample} {workload : Option ℕ}
    {candidateCpuCores : ℚ} {gateClosed cooldownBlocked : Bool}
    (h : (evaluateCpuAdmission history cpuSample heldLeases workload candidate candidateCpuCores
      gateClosed cooldownBlocked cfg now).reason = .ok) :
    ∃ sample hostBusyCores load, cpuSample = some sample ∧
      sample.hostBusyCores = some hostBusyCores ∧
      (evaluateCpuAdmission history cpuSample heldLeases workload candidate candidateCpuCores
        gateClosed cooldownBlocked cfg now).load = some load ∧
      load.budget = cpuBudget sample cfg ∧
      load.candidateEstimate = cpuEstimate history workload candidateCpuCores cfg
        (if heldLeases.isEmpty then none else some load.budget) ∧
      load.projectedBusy = projectBusy history
        (externalBusyOf sample hostBusyCores heldLeases cfg now) heldLeases load.candidateEstimate
        now cfg (some load.budget) candidate ∧
      load.projectedBusy ≤ load.budget := by
  unfold evaluateCpuAdmission at h ⊢
  split at h
  · split_ifs at h
  · rename_i sample hostBusyCores hsample
    obtain ⟨sample', hfresh, hbusy⟩ := Option.bind_eq_some_iff.1 hsample
    obtain ⟨busy, hnumber, heq⟩ := Option.map_eq_some_iff.1 hbusy
    obtain ⟨rfl, rfl⟩ := Prod.mk.inj heq
    simp only at h ⊢
    generalize hestimate : cpuEstimate history workload candidateCpuCores cfg
      (if heldLeases.isEmpty then none else some (cpuBudget sample' cfg)) = estimate at h ⊢
    split_ifs at h with hclosed hcooldown hover
    rw [if_neg hclosed, if_neg hcooldown, if_neg hover]
    exact ⟨sample', busy, _, (Option.filter_eq_some_iff.1 hfresh).1, hnumber, rfl, rfl,
      hestimate.symm, rfl, not_lt.1 hover⟩

/-- **What is admitted fits the host's own load.** -/
theorem admitted_within_budget {cpuSample : Option CpuSample} {workload : Option ℕ}
    {candidateCpuCores : ℚ} {gateClosed cooldownBlocked : Bool}
    (hpercent : 0 < cfg.cpuAdmissionPercent) (hcores : ∀ sample ∈ cpuSample, 0 ≤ sample.cores)
    (h : (evaluateCpuAdmission history cpuSample heldLeases workload candidate candidateCpuCores
      gateClosed cooldownBlocked cfg now).reason = .ok) :
    ∃ sample hostBusyCores load, cpuSample = some sample ∧
      sample.hostBusyCores = some hostBusyCores ∧
      (evaluateCpuAdmission history cpuSample heldLeases workload candidate candidateCpuCores
        gateClosed cooldownBlocked cfg now).load = some load ∧
      load.budget = cpuBudget sample cfg ∧
      load.candidateEstimate = cpuEstimate history workload candidateCpuCores cfg
        (if heldLeases.isEmpty then none else some load.budget) ∧
      nonPreemptibleBusy sample hostBusyCores cfg + load.candidateEstimate - cfg.preemptibleShare *
          ((heldLeases.filter (yieldsTo candidate cfg)).map fun l =>
            leaseDemand history l now cfg (some load.budget)).sum ≤ load.budget ∧
      ∀ l ∈ heldLeases,
        (l.id, leaseDemand history l now cfg (some load.budget)) ∈
          leaseCharges history heldLeases now cfg (some load.budget) ∧
        (freshObservedCores l now).getD 0 ≤ leaseDemand history l now cfg (some load.budget) ∧
        leaseDemand history l now cfg (some load.budget) ≤
          max ((freshObservedCores l now).getD 0) l.coldEstimate := by
  obtain ⟨sample, hostBusyCores, load, hsample, hbusy, hload, hbudget, hestimate, hprojected,
    hfits⟩ := evaluateCpuAdmission_ok h
  have hnonneg : 0 ≤ load.budget := by
    rw [hbudget]
    exact cpuBudget_nonneg hpercent (hcores sample (by rw [hsample]; rfl))
  refine ⟨sample, hostBusyCores, load, hsample, hbusy, hload, hbudget, hestimate, ?_,
    fun l hl => ⟨?_, ?_, ?_⟩⟩
  · calc _ ≤ load.projectedBusy := by
          rw [hprojected]
          exact busy_le_projectBusy sample hostBusyCores load.candidateEstimate hnonneg
      _ ≤ load.budget := hfits
  · exact List.mem_map_of_mem hl
  · exact observed_le_leaseDemand hnonneg
  · exact leaseDemand_le

/-- A lease that was not seen yet, and a settled one that yields. -/
def mixedLeases : List Lease :=
  [{ id := 1, key := 1, weight := 2 },
    { id := 2, key := 2, weight := 4, nice := some 5, priorityAdmitted := some .low,
      admittedAt := some 0, observedAt := some 290000, observedCpuCores := some 1,
      observedCpuHistory := [(280000, 1), (290000, 1)] }]

/-- A claim of three cores beside them. -/
def mixedDecision : CpuDecision :=
  evaluateCpuAdmission (fun _ _ => none) (some { hostBusyCores := some 5, cores := 16 }) mixedLeases
    none (some { nice := 0, tier := .high }) 3 false false {} 300000

theorem admitted_within_budget_mixed : ∃ load, mixedDecision.load = some load ∧
    ∀ l ∈ mixedLeases, (freshObservedCores l 300000).getD 0 ≤
      leaseDemand (fun _ _ => none) l 300000 {} (some load.budget) := by
  have hreason : mixedDecision.reason = .ok := by decide +kernel
  obtain ⟨_, _, load, -, -, hload, -, -, -, hcharged⟩ :=
    admitted_within_budget (by norm_num) (by simp) hreason
  exact ⟨load, hload, fun l hl => (hcharged l hl).2.1⟩

end Projection

end Scheduler
end LaneBroker
