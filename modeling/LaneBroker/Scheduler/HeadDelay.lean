/-
# What a start past the head leaves to it

A safe backfill, and an express start past a head that has waited `expressHeadMaxWaitMs`, have
to pass `cannotDelayHead`.  The proof that this is enough has to hold for every later order of
releases: whatever of the held leases is left, a head that would be free beside it is free
beside it and the new lease (`SparesHead`).  The weights do that for the sum, where it is not
rounded (`WeighsEvenly`), and `apart` for the conflicts; on the key of the head it compares the
new lease alone with the ceiling of the head, so a lease of that key is no delay exactly where
there is room for it beside those that are held and the head (`sparesHead_iff`).  Such a start
was judged beside the claim of the head (`BesideHead`).

An express start past a head that was found futile is not asked whether it delays it, however
long the head has waited (`PastFutile`).
-/

import LaneBroker.Scheduler.Held
import LaneBroker.Scheduler.Projection

namespace LaneBroker
namespace Scheduler

open LaneBroker.Basis LaneBroker.Basis.Barrier

/-- The ticket is on the key of the head and fills its ceiling, or names its key. -/
theorem apart_iff {headTicket t : Ticket} : apart headTicket t = true ↔
    blockedBy [keyHolder t.key] headTicket = none ∧
      blockedBy [keyHolder headTicket.key] t = none := by
  simp [apart]

namespace Turn

variable {s : Turn}

/-! ### The head beside some leases -/

/-- **Nothing that is held keeps the head waiting**: no conflict and no lease too many on its key,
no exclusive lease, and there is weight for it. -/
structure HeadFree (s : Turn) (held : List Lease) : Prop where
  conflict : blockedBy held s.headTicket = none
  exclusive : exclusiveDeny s.headTicket s.headTicket held = none
  fits : s.headTicket.exclusive = true ∨
    double.add (double.sum (held.map Lease.weight)) s.headTicket.weight ≤ s.weightCapacity

instance (s : Turn) (held : List Lease) : Decidable (s.HeadFree held) :=
  decidable_of_iff (_ ∧ _ ∧ _) ⟨fun h => ⟨h.1, h.2.1, h.2.2⟩, fun h => ⟨h.1, h.2, h.3⟩⟩

/-- **The start cannot delay the head**: whatever is left of the leases that were held, a head that
is free beside it is free beside it and the new lease, in whatever order they are listed. -/
def SparesHead (s : Turn) : Prop :=
  ∀ rest, rest.Subperm s.held → s.HeadFree rest →
    ∀ held, held.Perm (rest ++ [s.lease]) → s.HeadFree held

/-- **The weights add up without a lost bit**: they are multiples of one power of two, beside which a
double can hold the capacity. -/
def WeighsEvenly (s : Turn) : Prop :=
  ∃ k, double.least ≤ k ∧ s.weightCapacity < 2 ^ (k + double.bits) ∧
    (∀ l ∈ s.held, Format.Multiple k l.weight) ∧ Format.Multiple k s.headTicket.weight ∧
      Format.Multiple k s.ticket.weight

/-- **There is room on the head's key** for the leases on it, the ticket and the head. -/
def RoomOnKey (s : Turn) : Prop :=
  s.ticket.key = s.headTicket.key →
    s.held.countP (fun l => l.key == s.headTicket.key) + 1 < ceilingOf s.headTicket.maxConcurrent

instance (s : Turn) : Decidable s.RoomOnKey := inferInstanceAs (Decidable (_ → _))

/-- **The ticket starts past the head**: as a safe backfill, or as an express start past a head that
has waited `expressHeadMaxWaitMs`.  What is lifted starts in another way. -/
def PastHead (s : Turn) : Prop :=
  s.lifted = false ∧ (s.safeBackfill = true ∨
    s.expressAdmit = true ∧ (s.cfg.expressHeadMaxWaitMs : ℤ) < s.headWaitedMs)

instance (s : Turn) : Decidable s.PastHead := inferInstanceAs (Decidable (_ ∧ _))

/-- **An express start past a head that was found futile** and that stands unprotected. -/
def PastFutile (s : Turn) : Prop :=
  s.expressAdmit = true ∧ futileFresh s.resourceRecord s.cfg s.now = true

instance (s : Turn) : Decidable s.PastFutile := inferInstanceAs (Decidable (_ ∧ _))

theorem PastHead.passed (h : s.PastHead) (hfutile : ¬ s.PastFutile) :
    s.headPolling = false ∧ s.cannotDelayHead s.ticket = true ∧ s.reservesHead = true := by
  rcases h.2 with hsafe | ⟨hexpress, hwaited⟩
  · obtain ⟨-, hpolling, -, hdelay⟩ := safeBackfill_iff.1 hsafe
    exact ⟨hpolling, hdelay, by simp [reservesHead, hsafe]⟩
  · have hfresh : futileFresh s.resourceRecord s.cfg s.now = false := by
      rw [← Bool.not_eq_true]
      exact fun hfresh => hfutile ⟨hexpress, hfresh⟩
    have hprotected : s.expressHeadProtected = true := by
      simp [expressHeadProtected, hwaited, hfresh]
    have heligible : s.expressEligible = true := by
      simp only [expressAdmit, Bool.and_eq_true] at hexpress
      exact hexpress.1.1
    simp only [expressEligible, hprotected, Bool.and_eq_true, Bool.not_eq_true', Bool.not_true,
      Bool.false_or] at heligible
    obtain ⟨⟨⟨⟨⟨⟨⟨⟨⟨-, -⟩, hpolling⟩, -⟩, -⟩, -⟩, -⟩, -⟩, hdelay⟩, -⟩ := heligible
    exact ⟨hpolling, hdelay, by simp [reservesHead, hexpress, hprotected]⟩

theorem exclusiveHolder_of_not_polling (h : s.headPolling = false) : s.exclusiveHolder = false := by
  rw [headPolling, Bool.beq_comm] at h
  rw [exclusiveHolder, isExclusiveHead, h, Bool.and_false]

/-- What is read of the lease of a start behind the head. -/
theorem lease_of_not_polling (h : s.headPolling = false) :
    s.lease.key = s.ticket.key ∧ s.lease.weight = s.ticket.weight ∧ s.lease.exclusive = false := by
  simp [lease, exclusiveHolder_of_not_polling h]

/-- No lease is exclusive, and neither is the head. -/
theorem noExclusive_of_not_polling (hdeny : exclusiveDeny s.headTicket s.ticket s.held = none)
    (h : s.headPolling = false) :
    (∀ l ∈ s.held, l.exclusive = false) ∧ s.headTicket.exclusive = false := by
  refine ⟨(exclusiveDeny_eq_none hdeny).1, ?_⟩
  have hid : s.ticket.id ≠ s.headTicket.id := by simpa [headPolling] using h
  unfold exclusiveDeny at hdeny
  split_ifs at hdeny with _ hhead
  simpa using hhead

theorem exclusiveDeny_self (hhead : s.headTicket.exclusive = false) {held : List Lease} :
    exclusiveDeny s.headTicket s.headTicket held = none ↔ ∀ l ∈ held, l.exclusive = false := by
  unfold exclusiveDeny
  rw [hhead]
  cases hany : held.any Lease.exclusive with
  | true =>
    obtain ⟨l, hl, hexclusive⟩ := List.any_eq_true.1 hany
    simp only [if_true, reduceCtorEq, false_iff, not_forall]
    exact ⟨l, hl, by simp [hexclusive]⟩
  | false =>
    simp only [Bool.false_eq_true, if_false, Bool.not_false, if_true, true_iff]
    simpa using hany

/-- Beside leases that weigh evenly the head fits where it does by the sum. -/
theorem head_fits_iff {k : ℤ} (hk : double.least ≤ k)
    (hcapacity : s.weightCapacity < 2 ^ (k + double.bits)) {held : List Lease}
    (hheld : ∀ l ∈ held, 0 ≤ l.weight ∧ Format.Multiple k l.weight)
    (hhead : 0 ≤ s.headTicket.weight ∧ Format.Multiple k s.headTicket.weight) :
    double.add (double.sum (held.map Lease.weight)) s.headTicket.weight ≤ s.weightCapacity ↔
      (held.map Lease.weight).sum + s.headTicket.weight ≤ s.weightCapacity := by
  refine Format.add_sum_le_iff (by decide) hk (fun w hw => ?_) hcapacity
  rcases List.mem_append.1 hw with hw | hw
  · obtain ⟨l, hl, rfl⟩ := List.mem_map.1 hw
    exact hheld l hl
  · rw [List.mem_singleton.1 hw]
    exact hhead

/-- Of the leases that are held, no part weighs more. -/
theorem sum_weight_le {rest : List Lease} (hrest : rest.Subperm s.held)
    (hweights : ∀ l ∈ s.held, 0 ≤ l.weight) :
    (rest.map Lease.weight).sum ≤ (s.held.map Lease.weight).sum := by
  have hweight : (rest.map Lease.weight).Subperm (s.held.map Lease.weight) := by
    obtain ⟨part, hperm, hsub⟩ := hrest
    exact ⟨_, hperm.map _, hsub.map _⟩
  refine sum_le_of_subperm hweight fun w hw => ?_
  obtain ⟨l, hl, rfl⟩ := List.mem_map.1 hw
  exact hweights l hl

/-! ### What the proof is worth -/

/-- **A start that passed `cannotDelayHead` spares the head exactly where** it is on another key, or
where there is room on the key for all of them. -/
theorem sparesHead_iff (hdeny : exclusiveDeny s.headTicket s.ticket s.held = none)
    (hpolling : s.headPolling = false) (hdelay : s.cannotDelayHead s.ticket = true)
    (hweights : ∀ l ∈ s.held, 0 ≤ l.weight) (hweight : 0 ≤ s.ticket.weight)
    (hheadWeight : 0 ≤ s.headTicket.weight) (hevenly : s.WeighsEvenly) :
    s.SparesHead ↔ s.RoomOnKey := by
  obtain ⟨-, -, hapart, hdouble⟩ := cannotDelayHead_iff.1 hdelay
  obtain ⟨k, hk, hcapacity, hmultiples, hheadMultiple, hmultiple⟩ := hevenly
  have hsums : ∀ held : List Lease, (∀ l ∈ held, 0 ≤ l.weight ∧ Format.Multiple k l.weight) →
      (double.add (double.sum (held.map Lease.weight)) s.headTicket.weight ≤ s.weightCapacity ↔
        (held.map Lease.weight).sum + s.headTicket.weight ≤ s.weightCapacity) :=
    fun held hheld => head_fits_iff hk hcapacity hheld ⟨hheadWeight, hheadMultiple⟩
  have hfits : (s.held.map Lease.weight).sum + s.headTicket.weight + s.ticket.weight ≤
      s.weightCapacity := by
    rw [runningWeight, ← Format.sum_concat,
      Format.add_sum_le_iff (by decide) hk (fun w hw => ?_) hcapacity, List.sum_append,
      List.sum_singleton] at hdouble
    · exact hdouble
    · simp only [List.mem_append, List.mem_singleton, List.mem_map] at hw
      rcases hw with (⟨l, hl, rfl⟩ | rfl) | rfl
      · exact ⟨hweights l hl, hmultiples l hl⟩
      · exact ⟨hheadWeight, hheadMultiple⟩
      · exact ⟨hweight, hmultiple⟩
  obtain ⟨hconflict, -⟩ := blockedBy_eq_none_iff.1 (apart_iff.1 hapart).1
  obtain ⟨hkey, hleaseWeight, hleaseExclusive⟩ := lease_of_not_polling hpolling
  obtain ⟨hheld, hhead⟩ := noExclusive_of_not_polling hdeny hpolling
  constructor
  · -- the leases of the key, up to one below the ceiling, are a counterexample where there are such
    intro hspares hsame
    by_contra hfull
    set sameKey := s.held.filter fun l => l.key == s.headTicket.key with hsameKey
    set ceiling := ceilingOf s.headTicket.maxConcurrent with hceiling
    have hpos : 0 < ceiling := ceilingOf_pos _
    have hcount : ceiling - 1 ≤ sameKey.length := by
      rw [hsameKey, ← List.countP_eq_length_filter]
      omega
    have hlength : (sameKey.take (ceiling - 1)).length = ceiling - 1 := by
      rw [List.length_take]
      omega
    have hall : ∀ l ∈ sameKey.take (ceiling - 1), l.key = s.headTicket.key := fun l hl =>
      beq_iff_eq.1 (List.mem_filter.1 (List.mem_of_mem_take hl)).2
    have hrest : (sameKey.take (ceiling - 1)).Subperm s.held :=
      ((List.take_sublist _ _).trans List.filter_sublist).subperm
    have hfree : s.HeadFree (sameKey.take (ceiling - 1)) := by
      refine ⟨blockedBy_eq_none_iff.2 ⟨fun l hl hne => absurd (hall l hl) hne, ?_⟩, ?_, .inr ?_⟩
      · exact lt_of_le_of_lt List.countP_le_length (by omega)
      · exact (exclusiveDeny_self hhead).2 fun l hl => hheld l (hrest.subset hl)
      · rw [hsums _ fun l hl => ⟨hweights l (hrest.subset hl), hmultiples l (hrest.subset hl)⟩]
        have hpart := sum_weight_le hrest hweights
        linarith
    have hblocked := (blockedBy_eq_none_iff.1
      (hspares _ hrest hfree _ (List.Perm.refl _)).conflict).2
    rw [List.countP_append, List.countP_eq_length.2 fun l hl => beq_iff_eq.2 (hall l hl), hlength,
      List.countP_singleton, hkey, hsame, beq_self_eq_true, if_pos rfl] at hblocked
    omega
  · intro hroom rest hrest hfree held hperm
    obtain ⟨hold, hbelow⟩ := blockedBy_eq_none_iff.1 hfree.conflict
    refine ⟨blockedBy_eq_none_iff.2 ⟨fun l hl hne => ?_, ?_⟩, ?_, .inr ?_⟩
    · rcases List.mem_append.1 (hperm.subset hl) with hl | hl
      · exact hold l hl hne
      · rw [List.mem_singleton] at hl
        subst hl
        rw [hkey] at hne ⊢
        exact hconflict (keyHolder s.ticket.key) (List.mem_singleton_self _) hne
    · rw [hperm.countP_eq, List.countP_append, List.countP_singleton, hkey]
      by_cases hsame : s.ticket.key = s.headTicket.key
      · have hless : rest.countP (fun l => l.key == s.headTicket.key) ≤
            s.held.countP fun l => l.key == s.headTicket.key := hrest.countP_le _
        have hbelow' := hroom hsame
        rw [if_pos (beq_iff_eq.2 hsame)]
        omega
      · rw [if_neg (by simpa using hsame)]
        exact hbelow
    · refine (exclusiveDeny_self hhead).2 fun l hl => ?_
      rcases List.mem_append.1 (hperm.subset hl) with hl | hl
      · exact hheld l (hrest.subset hl)
      · rw [List.mem_singleton.1 hl, hleaseExclusive]
    · rw [hsums held fun l hl => ?_]
      · have hpart := sum_weight_le hrest hweights
        rw [(hperm.map Lease.weight).sum_eq, List.map_append, List.sum_append, List.map_singleton,
          List.sum_singleton, hleaseWeight]
        linarith
      · rcases List.mem_append.1 (hperm.subset hl) with hl | hl
        · exact ⟨hweights l (hrest.subset hl), hmultiples l (hrest.subset hl)⟩
        · rw [List.mem_singleton.1 hl, hleaseWeight]
          exact ⟨hweight, hmultiple⟩

/-! ### What it is judged beside -/

/-- **The claim of the head as a held lease**: no more than the cores it declares, and what its
history says of them, without a discount. -/
def headDemand (s : Turn) (budget : ℚ) : ℚ :=
  let claim := coldStartEstimate (s.headTicket.resources.cpuCores.getD s.headTicket.weight)
  min (cpuEstimate s.history s.headTicket.workload claim s.cfg (some budget)) claim

/-- **The claim of the ticket was admitted beside the claim of the head**: it fits the CPU budget with
the charges of the held leases and of the head, which is charged its demand, and both fit the
memory, where it was read. -/
structure BesideHead (s : Turn) : Prop where
  admits : s.cpuDecision.admits = true
  cpu : ∃ load, s.cpuDecision.load = some load ∧
    projectBusy s.history load.externalBusy (s.held ++ [headReservationOf s.headTicket])
        (cpuEstimate s.history s.ticket.workload s.grantedCpuCores s.cfg (some load.budget))
        s.later s.cfg (some load.budget) (candidatePriorityOf s.admissionTicket) ≤ load.budget ∧
      leaseCharge (headReservationOf s.headTicket)
        (leaseDemand s.history (headReservationOf s.headTicket) s.later s.cfg (some load.budget))
        (candidatePriorityOf s.admissionTicket) s.cfg = s.headDemand load.budget
  memory : ∀ info ∈ s.memInfo,
    (evaluateMemoryAdmission info (s.held ++ [headReservationOf s.headTicket])
      (ticketResources s.ticket s.cfg).memoryBytes s.cfg s.later).admits = true

/-- The head's claim is charged like a lease that was not seen yet. -/
theorem leaseCharge_headReservation (budget : ℚ) (candidate : Option CandidatePriority) :
    leaseCharge (headReservationOf s.headTicket)
      (leaseDemand s.history (headReservationOf s.headTicket) s.later s.cfg (some budget)) candidate
      s.cfg = s.headDemand budget := by
  have hyields : yieldsTo candidate s.cfg (headReservationOf s.headTicket) = false := by
    cases candidate <;> simp [yieldsTo, outranked, headReservationOf]
  rw [leaseCharge_eq, hyields, if_neg Bool.false_ne_true, sub_zero]
  rfl

/-- The decision that counts is one about the claim that is granted. -/
theorem cpuDecision_eq (s : Turn) : ∃ t gateClosed blocked,
    s.cpuDecision = decideAdmission s.history s.cfg t s.admissionHeld s.cpuSample s.memInfo
      gateClosed blocked s.later ∧
    (ticketResources t s.cfg).cpuCores = s.grantedCpuCores ∧
    (ticketResources t s.cfg).memoryBytes = (ticketResources s.ticket s.cfg).memoryBytes ∧
    t.workload = s.ticket.workload ∧
    candidatePriorityOf t = candidatePriorityOf s.admissionTicket := by
  cases helastic : s.elastic with
  | none =>
    refine ⟨s.admissionTicket, s.cpuGateClosed, cooldownActive s.admissionHeld s.cfg s.later, ?_,
      ?_, rfl, rfl, rfl⟩
    · rw [cpuDecision, helastic]
      rfl
    · rw [grantedCpuCores, helastic]
      rfl
  | some grant =>
    obtain ⟨decision, granted⟩ := grant
    have hgrant := helastic
    unfold elastic at hgrant
    split_ifs at hgrant
    obtain ⟨-, -, claim, -, rfl, -, -, -, hdecision⟩ := evaluateElasticAdmission_eq_some hgrant
    refine ⟨s.admissionTicket.resized claim, s.fullDecision.cpuGateClosed,
      s.fullDecision.cooldownBlocked, ?_, ?_, rfl, rfl, rfl⟩
    · rw [cpuDecision, helastic]
      exact hdecision
    · rw [grantedCpuCores, helastic]
      rfl

/-- **What is admitted beside a lease** fits the budget with the charges of the leases. -/
theorem load_of_admits {history : History} {cpuSample : Option CpuSample} {heldLeases : List Lease}
    {workload : Option ℕ} {candidate : Option CandidatePriority} {candidateCpuCores : ℚ}
    {gateClosed cooldownBlocked : Bool} {cfg : Config} {now : ℤ}
    (hheld : heldLeases.isEmpty = false)
    (h : (evaluateCpuAdmission history cpuSample heldLeases workload candidate candidateCpuCores
      gateClosed cooldownBlocked cfg now).admits = true) :
    ∃ load, (evaluateCpuAdmission history cpuSample heldLeases workload candidate candidateCpuCores
        gateClosed cooldownBlocked cfg now).load = some load ∧
      projectBusy history load.externalBusy heldLeases
        (cpuEstimate history workload candidateCpuCores cfg (some load.budget)) now cfg
        (some load.budget) candidate ≤ load.budget := by
  unfold evaluateCpuAdmission at h ⊢
  rw [hheld] at h ⊢
  split at h
  · cases h
  · simp only [Bool.false_eq_true, if_false] at h ⊢
    split_ifs at h ⊢ with hclosed hcooldown hover
    exact ⟨_, rfl, not_lt.1 hover⟩

/-- **A claim that is admitted with the head's claim reserved is admitted beside it.** -/
theorem besideHead_of_admits (hreserves : s.reservesHead = true)
    (hadmits : s.cpuDecision.admits = true) : s.BesideHead := by
  obtain ⟨t, gateClosed, blocked, hdecision, hcores, hmemory, hworkload, hcandidate⟩ :=
    s.cpuDecision_eq
  have hheld : s.admissionHeld = s.held ++ [headReservationOf s.headTicket] := if_pos hreserves
  have hboth := hadmits
  rw [hdecision] at hboth
  obtain ⟨hcpu, hmem⟩ := Bool.and_eq_true_iff.1 hboth
  obtain ⟨load, hload, hfits⟩ := load_of_admits (by simp [hheld]) hcpu
  rw [hheld, hcandidate, hworkload, hcores] at hfits
  refine ⟨hadmits, ⟨load, by rw [hdecision]; exact hload, hfits,
    leaseCharge_headReservation _ _⟩, fun info hinfo => ?_⟩
  rw [hinfo, hheld, hmemory] at hmem
  exact hmem

/-- **In active mode a start past the head was admitted beside it.** -/
theorem besideHead_of_pastHead (hstarts : s.Starts) (hpast : s.PastHead) (hfutile : ¬ s.PastFutile)
    (hmode : s.cfg.schedulerMode = .active) : s.BesideHead := by
  obtain ⟨hpolling, -, hreserves⟩ := hpast.passed hfutile
  have hidle : s.idleExempt = false := by simp [idleExempt, hpolling]
  have hholder := exclusiveHolder_of_not_polling hpolling
  refine besideHead_of_admits hreserves ?_
  simpa [hidle, hpast.1, hholder] using hstarts.admitted hmode

end Turn

/-! ### Runs -/

/-- **A start past the head spares it**, in every state that runs reach: a safe backfill, and an
express start past a head that has waited its time and was not found futile, where there is room on
the key of the head and the weights add up without a lost bit; and in active mode it was admitted
beside the claim of the head. -/
theorem start_sparesHead {cfg : Config} {host : Host} {y : Yard} {t : Ticket} {reads : Poll}
    {io : CommitCall → Answer} {s : Turn} {lease : Lease} {d' : Disk} (hcfg : cfg.Valid)
    (h : Reached cfg host y) (hcopy : y.copies t.id = some t)
    (hturn : (Yard.pollOf cfg host y t reads).turn = .ok s)
    (hstarted : (Yard.pollOf cfg host y t reads).tryStart io y.disk =
      (.returned (.started lease), d'))
    (hpast : s.PastHead) (hfutile : ¬ s.PastFutile) :
    (s.RoomOnKey → s.WeighsEvenly → s.SparesHead) ∧
      (s.cfg.schedulerMode = .active → s.BesideHead) := by
  obtain ⟨grant, hgrant⟩ := Poll.decideTicket_of_started hstarted
  obtain ⟨s', hturn', hpoll, hplaced, hstarts, -⟩ := Poll.starts_of_decideTicket hgrant
  obtain rfl := Except.ok.inj (hturn.symm.trans hturn')
  obtain ⟨hsubmitted, -, -, hheld⟩ := Turn.of_pollOf hpoll
  have hvalid : s.submitted.Valid := hsubmitted ▸ (h.sound.copy t.id t hcopy).2
  have hweights : ∀ l ∈ s.held, 0 ≤ l.weight := by
    rw [hheld]
    exact (h.bounded hcfg).nonneg
  obtain ⟨hpolling, hdelay, -⟩ := hpast.passed hfutile
  have hhead := Turn.headTicket_weight_nonneg h.sound hpoll hplaced
  exact ⟨fun hroom hevenly => (Turn.sparesHead_iff hstarts.exclusive hpolling hdelay hweights
    (s.ticket_weight_nonneg hvalid.1) hhead hevenly).2 hroom,
    Turn.besideHead_of_pastHead hstarts hpast hfutile⟩

/-- **A start behind a run that is written out.** -/
theorem exists_start_behind (cfg : Config) (host : Host) (before : List Act) (t : Ticket)
    (reads : Poll) (q : Turn → Bool)
    (h : ((yard cfg host).exec {} before).any (fun y =>
      decide (y.copies t.id = some t) &&
        (Yard.pollOf cfg host y t reads).turn.toOption.any fun s =>
          decide (((Yard.pollOf cfg host y t reads).tryStart (fun _ => .ok) y.disk).1 =
            .returned (.started s.lease)) && q s) = true) :
    ∃ (y : Yard) (s : Turn) (d' : Disk), Reached cfg host y ∧ y.copies t.id = some t ∧
      (Yard.pollOf cfg host y t reads).turn = .ok s ∧
      (Yard.pollOf cfg host y t reads).tryStart (fun _ => .ok) y.disk =
        (.returned (.started s.lease), d') ∧ q s = true := by
  obtain ⟨y, hy, hrun⟩ := (Option.any_eq_true _ _).1 h
  obtain ⟨hcopy, hany⟩ := Bool.and_eq_true_iff.1 hrun
  obtain ⟨s, hs, hq⟩ := (Option.any_eq_true _ _).1 hany
  obtain ⟨hstarted, hq⟩ := Bool.and_eq_true_iff.1 hq
  have hturn : (Yard.pollOf cfg host y t reads).turn = .ok s := by
    cases hturn : (Yard.pollOf cfg host y t reads).turn with
    | error denial => simp [hturn, Except.toOption] at hs
    | ok s' =>
      rw [hturn] at hs
      rw [Option.some.inj hs]
  exact ⟨y, s, _, Machine.reach_of_exec before (.start ⟨rfl, rfl, rfl, rfl⟩)
    (Machine.along_of_forall (fun _ _ => trivial) _ _) hy, of_decide_eq_true hcopy, hturn,
    Prod.ext (of_decide_eq_true hstarted) rfl, hq⟩

/-- A ticket of a lane that may run twice, in the queue since the beginning. -/
def twice (id : TicketId) : Ticket :=
  { id, seq := id, key := 1, maxConcurrent := some 2, prioOriginAt := some 0 }

/-- A short ticket of another lane. -/
def elsewhere : Ticket := { id := 3, seq := 3, key := 3 }

/-- A short ticket of a lane that may not run beside the first one. -/
def excluded : Ticket := { id := 3, seq := 3, key := 2, conflicts := [1] }

/-- A ticket that no host of this size can run, and that may not run beside the other lane. -/
def tooLarge : Ticket :=
  { id := 2, seq := 2, key := 1, conflicts := [2], resources := { cpuCores := some 20 },
    prioOriginAt := some 0 }

/-- A reading of an idle host, where the ticket is expected to run for a second. -/
def shortAt (now : ℤ) : Poll :=
  { idleAt now with expressEstimate := some 1000 }

/-- A ticket of the lane runs, and another one has waited for its time. -/
def oneRuns : List Act :=
  [.enqueue (twice 1) { ticket := twice 1 } 0, .poll 1 (shortAt 0) fun _ => .ok,
    .enqueue (twice 2) { ticket := twice 2 } 0]

/-- The ticket that is too large is evaluated once it has waited for its time. -/
def futileWaits : List Act :=
  [.enqueue tooLarge { ticket := tooLarge } 0, .enqueue excluded { ticket := excluded } 1,
    .poll 2 (shortAt 1000000) fun _ => .ok]

theorem start_sparesHead_elsewhere : ∃ s : Turn, s.SparesHead ∧ s.BesideHead := by
  obtain ⟨y, s, d', hreached, hcopy, hturn, hstarted, hq⟩ :=
    exists_start_behind {} aloneInQueue.host
      (oneRuns ++ [.enqueue elsewhere { ticket := elsewhere } 1]) elsewhere (shortAt 1000000)
      (fun s => decide (s.PastHead ∧ ¬ s.PastFutile ∧ s.RoomOnKey ∧
        s.cfg.schedulerMode = .active ∧ s.weightCapacity < 100 ∧
        ∀ w ∈ s.ticket.weight :: s.headTicket.weight :: s.held.map Lease.weight, w = 1))
      (by decide +kernel)
  obtain ⟨hpast, hfutile, hroom, hmode, hcapacity, hones⟩ := of_decide_eq_true hq
  have h := start_sparesHead config_valid_default hreached hcopy hturn hstarted hpast hfutile
  have hone : ∀ w ∈ s.ticket.weight :: s.headTicket.weight :: s.held.map Lease.weight,
      Format.Multiple 0 w := fun w hw => ⟨1, by simpa using hones w hw⟩
  have hevenly : s.WeighsEvenly := by
    refine ⟨0, by decide, hcapacity.trans (by norm_num [double]), fun l hl => hone _ ?_,
      hone _ ?_, hone _ ?_⟩
    · exact List.mem_cons_of_mem _ (List.mem_cons_of_mem _ (List.mem_map_of_mem hl))
    · exact List.mem_cons_of_mem _ List.mem_cons_self
    · exact List.mem_cons_self
  exact ⟨s, h.1 hroom hevenly, h.2 hmode⟩

/-- A ticket of a weight of its own, in the queue since the beginning. -/
def weighing (id : TicketId) (weight : ℚ) : Ticket :=
  { id, seq := id, key := id, weight, prioOriginAt := some 0 }

/-- A ticket of 2.2 runs, and another one has waited for its time. -/
def unevenly : List Act :=
  [.enqueue (weighing 1 doubles.1) { ticket := weighing 1 doubles.1 } 0,
    .poll 1 (shortAt 0) fun _ => .ok,
    .enqueue (weighing 2 doubles.1) { ticket := weighing 2 doubles.1 } 0,
    .enqueue (weighing 3 doubles.2) { ticket := weighing 3 doubles.2 } 1]

/-- **Not every start past the head spares it**: the second ticket of a lane that may run twice
takes the place of the head, which may run beside the first; a ticket that the head conflicts
with starts past a head that was found futile; and 2.2, 2.2 and 2.6 are rounded down to the capacity
when the head is counted before the ticket, and up when it is counted behind it. -/
theorem start_delays_head :
    (∃ (y : Yard) (s : Turn) (d' : Disk), Reached {} aloneInQueue.host y ∧
      y.copies 3 = some (twice 3) ∧
      (Yard.pollOf {} aloneInQueue.host y (twice 3) (shortAt 1000000)).turn = .ok s ∧
      (Yard.pollOf {} aloneInQueue.host y (twice 3) (shortAt 1000000)).tryStart (fun _ => .ok)
        y.disk = (.returned (.started s.lease), d') ∧
      s.PastHead ∧ ¬ s.PastFutile ∧ ¬ s.SparesHead) ∧
    (∃ (y : Yard) (s : Turn) (d' : Disk), Reached {} aloneInQueue.host y ∧
      y.copies 3 = some excluded ∧
      (Yard.pollOf {} aloneInQueue.host y excluded (shortAt 1001000)).turn = .ok s ∧
      (Yard.pollOf {} aloneInQueue.host y excluded (shortAt 1001000)).tryStart (fun _ => .ok)
        y.disk = (.returned (.started s.lease), d') ∧
      s.PastHead ∧ s.PastFutile ∧ ¬ s.SparesHead) ∧
    ∃ (y : Yard) (s : Turn) (d' : Disk), Reached capacitySeven aloneInQueue.host y ∧
      y.copies 3 = some (weighing 3 doubles.2) ∧
      (Yard.pollOf capacitySeven aloneInQueue.host y (weighing 3 doubles.2) (shortAt 1000000)).turn =
        .ok s ∧
      (Yard.pollOf capacitySeven aloneInQueue.host y (weighing 3 doubles.2)
        (shortAt 1000000)).tryStart (fun _ => .ok) y.disk = (.returned (.started s.lease), d') ∧
      s.PastHead ∧ ¬ s.PastFutile ∧ s.RoomOnKey ∧ ¬ s.SparesHead := by
  refine ⟨?_, ?_, ?_⟩
  · obtain ⟨y, s, d', hreached, hcopy, hturn, hstarted, hq⟩ :=
      exists_start_behind {} aloneInQueue.host
        (oneRuns ++ [.enqueue (twice 3) { ticket := twice 3 } 1]) (twice 3) (shortAt 1000000)
        (fun s => decide (s.PastHead ∧ ¬ s.PastFutile ∧ s.HeadFree s.held ∧
          ¬ s.HeadFree (s.held ++ [s.lease]))) (by decide +kernel)
    obtain ⟨hpast, hfutile, hfree, hblocked⟩ := of_decide_eq_true hq
    exact ⟨y, s, d', hreached, hcopy, hturn, hstarted, hpast, hfutile, fun hspares =>
      hblocked (hspares _ (List.Subperm.refl _) hfree _ (List.Perm.refl _))⟩
  · obtain ⟨y, s, d', hreached, hcopy, hturn, hstarted, hq⟩ :=
      exists_start_behind {} aloneInQueue.host futileWaits excluded (shortAt 1001000)
        (fun s => decide (s.PastHead ∧ s.PastFutile ∧ s.HeadFree [] ∧ ¬ s.HeadFree [s.lease]))
        (by decide +kernel)
    obtain ⟨hpast, hfutile, hfree, hblocked⟩ := of_decide_eq_true hq
    exact ⟨y, s, d', hreached, hcopy, hturn, hstarted, hpast, hfutile, fun hspares =>
      hblocked (hspares [] (List.nil_sublist _).subperm hfree _ (List.Perm.refl _))⟩
  · obtain ⟨y, s, d', hreached, hcopy, hturn, hstarted, hq⟩ :=
      exists_start_behind capacitySeven aloneInQueue.host unevenly (weighing 3 doubles.2)
        (shortAt 1000000)
        (fun s => decide (s.PastHead ∧ ¬ s.PastFutile ∧ s.RoomOnKey ∧ s.HeadFree s.held ∧
          ¬ s.HeadFree (s.held ++ [s.lease]))) (by decide +kernel)
    obtain ⟨hpast, hfutile, hroom, hfree, hblocked⟩ := of_decide_eq_true hq
    exact ⟨y, s, d', hreached, hcopy, hturn, hstarted, hpast, hfutile, hroom, fun hspares =>
      hblocked (hspares _ (List.Subperm.refl _) hfree _ (List.Perm.refl _))⟩

end Scheduler
end LaneBroker
