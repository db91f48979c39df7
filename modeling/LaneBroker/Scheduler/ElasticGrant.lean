/-
# What an elastic ticket is granted

An elastic ticket declares cores and a floor.  `capElasticClaim` lowers the claim to the budget,
`capSimClaim` a sim's to what the caps leave, and `evaluateElasticAdmission` tries whole cores below
that.  Each of the three keeps the floor, rounded up, as a lower bound (`Lowered`), so whichever of
them came last, and whichever exemption lets the ticket start, the grant is between the two.
-/

import LaneBroker.Scheduler.Booked

namespace LaneBroker
namespace Scheduler

open LaneBroker.Basis

/-! ### A claim that is lowered -/

/-- **What is left of an elastic claim**: cores between the floor and the declaration, and the floor
itself unless the cores have come down to it. -/
structure Lowered (declared least : ℚ) (r : Resources) (cpu : ℚ) : Prop where
  cores : r.cpuCores = some cpu
  enough : min (⌈least⌉ : ℚ) declared ≤ cpu
  below : cpu ≤ declared
  floor : r.minCpuCores = some least ∨ r.minCpuCores = none

variable {declared least cpu : ℚ}

theorem lowered_declared {r : Resources} (hcpu : r.cpuCores = some declared)
    (hleast : r.minCpuCores = some least) : Lowered declared least r declared :=
  ⟨hcpu, min_le_right _ _, le_rfl, .inl hleast⟩

/-- A cap above the floor leaves a lowered claim. -/
theorem Lowered.capped {t : Ticket} (h : Lowered declared least t.resources cpu) {cap : ℤ}
    (hcap : (cap : ℚ) ≤ cpu) (hceil : ⌈least⌉ ≤ cap) :
    Lowered declared least (t.capped least cap).resources cap := by
  refine ⟨rfl, (min_le_left _ _).trans (by exact_mod_cast hceil), hcap.trans h.below, ?_⟩
  simp only [Ticket.capped]
  split_ifs
  · exact .inl rfl
  · exact .inr rfl

/-- **The cap of the budget** lowers the claim; it leaves one over the budget only to a ticket whose
floor is over it too. -/
theorem lowered_capElasticClaim {t : Ticket} {cfg : Config} {host : Host}
    (hactive : cfg.schedulerMode = .active) (hcpu : t.resources.cpuCores = some declared)
    (hleast : t.resources.minCpuCores = some least) :
    ∃ cpu, Lowered declared least (capElasticClaim t cfg host).resources cpu ∧
      (cpu ≤ ⌊cpuBudgetCores host cfg⌋ ∨
        elasticBelowFloor (capElasticClaim t cfg host) cfg host = true) := by
  have hdeclared := lowered_declared hcpu hleast
  unfold capElasticClaim
  simp only [hleast, hactive, ne_eq, not_true_eq_false, if_false, hcpu, Option.all_some,
    decide_eq_true_eq]
  split_ifs with hfits hsmall
  · exact ⟨declared, hdeclared, .inl hfits⟩
  · refine ⟨declared, hdeclared, .inr ?_⟩
    simp only [elasticBelowFloor, hleast, hactive, ne_eq, not_true_eq_false, if_false]
    exact hsmall
  · simp only [Bool.or_eq_true, decide_eq_true_eq, not_or, not_lt] at hsmall
    exact ⟨_, hdeclared.capped (not_le.1 hfits).le hsmall.2, .inl le_rfl⟩

/-- **The caps of the sims** lower the claim to their ceiling, or leave it. -/
theorem lowered_capSimClaim {t : Ticket} (h : Lowered declared least t.resources cpu)
    (classes : ClassPolicy) (booked : Booking) (host : Host) (cfg : Config) :
    capSimClaim t classes booked host cfg = t ∨
      Lowered declared least (capSimClaim t classes booked host cfg).resources
        ⌊simCoreCeiling classes booked host cfg⌋ := by
  unfold capSimClaim
  cases hmin : t.resources.minCpuCores with
  | none => exact .inl rfl
  | some least' =>
    obtain rfl : least' = least := by
      rcases h.floor with hfloor | hfloor
      · rw [hfloor] at hmin
        exact (Option.some.inj hmin).symm
      · rw [hfloor] at hmin
        cases hmin
    simp only [h.cores, Option.all_some, decide_eq_true_eq]
    split_ifs with hclass hfits hsmall
    · exact .inl rfl
    · exact .inl rfl
    · exact .inl rfl
    · exact .inr (h.capped (not_le.1 hfits).le (not_lt.1 hsmall))

/-- What the caps leave to a sim is within the budget: a difference that is rounded does not pass a
double. -/
theorem simCoreCeiling_le_budget {classes : ClassPolicy} {booked : Booking} (host : Host)
    (cfg : Config) (hreserve : 0 ≤ classes.caps.reserveCores) (hbooked : 0 ≤ booked.cores) :
    simCoreCeiling classes booked host cfg ≤ cpuBudgetCores host cfg := by
  have hless : ∀ p q : ℚ, p ≤ cpuBudgetCores host cfg → 0 ≤ q →
      double.sub p q ≤ cpuBudgetCores host cfg := fun p q hp hq => by
    have hround := (round_exclusiveBudget host cfg).1
    exact (Format.round_mono (by decide) ((sub_le_self p hq).trans hp)).trans_eq hround
  exact hless _ _ ((min_le_right _ _).trans (hless _ _ le_rfl hreserve)) hbooked

/-- A grant that no cap refuses is within the ceiling. -/
theorem le_simCoreCeiling {classes : ClassPolicy} {booked : Booking} {grant : ℚ × ℚ} {host : Host}
    {cfg : Config} (h : simCapReason classes booked grant host cfg = none) :
    grant.1 ≤ simCoreCeiling classes booked host cfg := by
  unfold simCapReason at h
  split_ifs at h with hcount hcores hmemory hreserve
  exact not_lt.1 hreserve

theorem elasticBelowFloor_congr {t u : Ticket} (h : t.resources = u.resources) (cfg : Config)
    (host : Host) : elasticBelowFloor t cfg host = elasticBelowFloor u cfg host := by
  unfold elasticBelowFloor
  rw [h]

/-! ### The ticket as it is judged -/

/-- **What an elastic ticket may be granted**: no less than its floor, and no more than it declared,
than the whole cores of the budget and, for a sim under active caps, than they leave. -/
structure GrantBounds (p : Poll) (declared least granted : ℚ) : Prop where
  least : min (⌈least⌉ : ℚ) declared ≤ granted
  declared : granted ≤ declared
  budget : granted ≤ ⌊cpuBudgetCores p.host p.cfg⌋
  sims : p.submitted.laneClass = .sim → p.classes.valid = true → p.classes.mode = .active →
    granted ≤ simCoreCeiling p.classes p.booked p.host p.cfg

/-- Leases whose claims are not negative book nothing negative. -/
theorem booked_cores_nonneg {held : List Lease} {cfg : Config}
    (h : ∀ l ∈ held, 0 ≤ (leaseResources l cfg).cpuCores) : 0 ≤ (bookedSims held cfg).cores := by
  rw [bookedSims_eq]
  refine Format.sum_nonneg fun cores hcores => ?_
  obtain ⟨b, hb, rfl⟩ := List.mem_map.1 hcores
  obtain ⟨l, hl, rfl⟩ := List.mem_map.1 hb
  exact h l (List.mem_of_mem_filter hl)

/-- **The ticket that is judged is lowered**, and within the budget unless its floor is over it. -/
theorem Poll.lowered_ticket {p : Poll} (hactive : p.cfg.schedulerMode = .active)
    (hcpu : p.submitted.resources.cpuCores = some declared)
    (hleast : p.submitted.resources.minCpuCores = some least)
    (hreserve : 0 ≤ p.classes.caps.reserveCores)
    (hheld : ∀ l ∈ p.held, 0 ≤ (leaseResources l p.cfg).cpuCores) :
    ∃ cpu, Lowered declared least p.ticket.resources cpu ∧
      (cpu ≤ ⌊cpuBudgetCores p.host p.cfg⌋ ∨ elasticBelowFloor p.ticket p.cfg p.host = true) := by
  obtain ⟨cpu, hlowered, hbudget⟩ := lowered_capElasticClaim hactive hcpu hleast
  obtain ⟨weight, hclamped⟩ := clampQueuedWeight_eq
    (capElasticClaim p.submitted p.cfg p.host) p.cfg p.weightCapacity
  have hresources : p.budgetCapped.resources =
      (capElasticClaim p.submitted p.cfg p.host).resources := by
    rw [budgetCapped, hclamped]
  rw [← hresources] at hlowered
  rw [← elasticBelowFloor_congr hresources] at hbudget
  unfold ticket
  split_ifs
  · rcases lowered_capSimClaim hlowered p.classes p.booked p.host p.cfg with hsame | hceiling
    · rw [hsame]
      exact ⟨cpu, hlowered, hbudget⟩
    · refine ⟨_, hceiling, .inl ?_⟩
      exact_mod_cast Int.floor_le_floor
        (simCoreCeiling_le_budget p.host p.cfg hreserve (booked_cores_nonneg hheld))
  · exact ⟨cpu, hlowered, hbudget⟩

/-- **The grant is the claim as it is judged, or a whole number of cores between it and the
floor.** -/
theorem Turn.grantedCpuCores_of_lowered {s : Turn}
    (h : Lowered declared least s.ticket.resources cpu) :
    min (⌈least⌉ : ℚ) declared ≤ s.grantedCpuCores ∧ s.grantedCpuCores ≤ cpu := by
  unfold grantedCpuCores
  cases helastic : s.elastic with
  | none =>
    have hfull : s.fullDecision.candidateCpuCores = cpu := by
      change s.ticket.resources.cpuCores.getD s.ticket.weight = cpu
      rw [h.cores, Option.getD_some]
    rw [Option.map_none, Option.getD_none, hfull]
    exact ⟨h.enough, le_rfl⟩
  | some grant =>
    obtain ⟨decision, granted⟩ := grant
    unfold elastic at helastic
    split_ifs at helastic
    obtain ⟨-, least', claim, hleast, rfl, hclaim, hbelow, -⟩ :=
      evaluateElasticAdmission_eq_some helastic
    rw [admissionTicket_resources] at hleast hbelow
    rw [h.cores, Option.getD_some] at hbelow
    obtain rfl : least' = least := by
      rcases h.floor with hfloor | hfloor
      · exact Option.some.inj (hleast.symm.trans hfloor)
      · rw [hfloor] at hleast
        cases hleast
    simp only [Option.map_some, Option.getD_some]
    exact ⟨(min_le_left _ _).trans (by exact_mod_cast hclaim), hbelow.le⟩

/-- **Every start of an elastic ticket is granted within its bounds**, on whichever path it
starts. -/
theorem elastic_grant_within (p : Poll) (grant : Grant) (declared least : ℚ)
    (h : p.decideTicket = .ok grant) (hactive : p.cfg.schedulerMode = .active)
    (hcoherent : p.Coherent) (hexclusive : p.submitted.exclusive = false)
    (hcpu : p.submitted.resources.cpuCores = some declared)
    (hleast : p.submitted.resources.minCpuCores = some least)
    (hreserve : 0 ≤ p.classes.caps.reserveCores)
    (hheld : ∀ l ∈ p.held, 0 ≤ (leaseResources l p.cfg).cpuCores) :
    ∃ granted, grant.lease.grantedCpuCores = some granted ∧
      GrantBounds p declared least granted := by
  obtain ⟨s, -, rfl, hplaced, hstarts, rfl⟩ := Poll.starts_of_decideTicket h
  have hholder : s.exclusiveHolder = false :=
    (Turn.exclusiveHolder_eq hstarts hplaced hcoherent).trans hexclusive
  obtain ⟨cpu, hlowered, hbudget⟩ := Poll.lowered_ticket hactive hcpu hleast hreserve hheld
  obtain ⟨hleastGranted, hgranted⟩ := Turn.grantedCpuCores_of_lowered hlowered
  have hfits : cpu ≤ ⌊cpuBudgetCores s.host s.cfg⌋ := by
    rcases hbudget with hfits | hfloor
    · exact hfits
    · rcases hstarts.aboveFloor with hexempt | habove
      · rw [hholder] at hexempt
        cases hexempt
      · rw [hfloor] at habove
        cases habove
  refine ⟨s.grantedCpuCores, ?_, hleastGranted, hgranted.trans hlowered.below,
    hgranted.trans hfits, ?_⟩
  · simp [Turn.grant, Turn.lease, hholder, hleast]
  · intro hsim hvalid hmode
    obtain ⟨resources, weight, hticket⟩ := s.ticket_eq_submitted
    have hcaps := hstarts.caps hmode
    have hclass : s.ticket.laneClass = .sim := by rw [hticket]; exact hsim
    unfold Turn.grantCapReason at hcaps
    rw [if_pos ⟨hclass, hvalid, by rw [hmode]; decide⟩] at hcaps
    have hceiling := le_simCoreCeiling hcaps
    rw [Turn.simGrant, hholder] at hceiling
    exact hceiling

/-- A ticket that declares nine cores and two and a half as its floor. -/
def wideTicket : Ticket :=
  { id := 1, resources := { cpuCores := some 9, minCpuCores := some (5 / 2) } }

/-- It is evaluated on a host where the budget is seven and a half and two cores are busy. -/
def busyHost : Poll where
  cfg := {}
  host := { cpuCores := 10, memoryBytes := 34359738368 }
  disk := { queue := [{ ticket := wideTicket }] }
  submitted := wideTicket
  now := 0
  cpuSample := some { hostBusyCores := some 2, cores := 10 }
  memInfo := some { availableBytes := some 34359738368, totalBytes := some 34359738368 }

/-- It starts with five cores. -/
theorem elastic_grant_within_busyHost : ∃ grant, busyHost.decideTicket = .ok grant ∧
    grant.lease.grantedCpuCores = some 5 ∧ GrantBounds busyHost 9 (5 / 2) 5 := by
  have hfive : (busyHost.decideTicket.toOption.bind fun grant => grant.lease.grantedCpuCores) =
      some 5 := by
    decide +kernel
  cases hdecide : busyHost.decideTicket with
  | error denial => simp [hdecide, Except.toOption] at hfive
  | ok grant =>
    have hgranted : grant.lease.grantedCpuCores = some 5 := by
      simpa [hdecide, Except.toOption] using hfive
    obtain ⟨granted, hsome, hbounds⟩ := elastic_grant_within busyHost grant 9 (5 / 2) hdecide rfl
      (by simp [Poll.Coherent, busyHost, SameTicket]) rfl rfl rfl le_rfl
      (by simp [Poll.held, busyHost])
    obtain rfl := Option.some.inj (hsome.symm.trans hgranted)
    exact ⟨grant, rfl, hgranted, hbounds⟩

end Scheduler
end LaneBroker
