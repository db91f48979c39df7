/-
# What the sims have booked

A sim is judged at its grant, and later decisions charge its lease for what they read of it.  The
two are the same cores and, for all but an exclusive sim, the same bytes
(`Turn.leaseBooking_lease`); so the held sims stay within the caps, as long as what they book adds
up without a lost bit (`CapsEven`).  Cores that do not are rounded down to the cap and lie above it.
An exclusive sim is judged at the bytes of the whole budget, and its lease is read with these bytes
rounded: where the budget is no whole number of bytes and the cap lies between the budget and the
rounded budget, the sim passes and what it has booked is over the cap (`sims_book_more`).
-/

import LaneBroker.Scheduler.Held

namespace LaneBroker
namespace Scheduler

open LaneBroker.Basis LaneBroker.Basis.Barrier

/-! ### Claims that are not negative -/

/-- No claim is negative. -/
structure Resources.Nonneg (r : Resources) : Prop where
  cpu : ∀ cpu ∈ r.cpuCores, 0 ≤ cpu
  least : ∀ least ∈ r.minCpuCores, 0 ≤ least
  memory : ∀ memory ∈ r.memoryBytes, 0 ≤ memory

theorem Ticket.Valid.nonneg {t : Ticket} (h : t.Valid) : t.resources.Nonneg := by
  obtain ⟨-, hcpu, hleast, hmemory, -⟩ := h
  refine ⟨fun cpu hmem => ?_, fun least hmem => ?_, fun memory hmem => ?_⟩
  · rw [Option.mem_def.1 hmem] at hcpu
    simpa using hcpu
  · rw [Option.mem_def.1 hmem] at hleast
    simpa using hleast
  · rw [Option.mem_def.1 hmem] at hmemory
    simpa using hmemory

/-- A cap that is not negative leaves no negative claim. -/
theorem Ticket.capped_nonneg {t : Ticket} {least cap : ℚ} (h : t.resources.Nonneg)
    (hleast : t.resources.minCpuCores = some least) (hcap : 0 ≤ cap) :
    (t.capped least cap).resources.Nonneg := by
  refine ⟨fun cpu hmem => ?_, fun least' hmem => ?_, h.memory⟩
  · obtain rfl := Option.some.inj hmem
    exact hcap
  · simp only [Ticket.capped] at hmem
    split_ifs at hmem
    · obtain rfl := Option.some.inj hmem
      exact h.least _ hleast
    · cases hmem

/-- What the caps keep of the claim: it stays not negative, the bytes stay, and without an elastic
floor all of it stays. -/
structure KeepsClaim (t u : Ticket) : Prop where
  nonneg : t.resources.Nonneg → u.resources.Nonneg
  memory : u.resources.memoryBytes = t.resources.memoryBytes
  fixed : t.resources.minCpuCores = none → u.resources = t.resources

theorem KeepsClaim.refl (t : Ticket) : KeepsClaim t t := ⟨fun h => h, rfl, fun _ => rfl⟩

theorem KeepsClaim.trans {t u v : Ticket} (h : KeepsClaim t u) (h' : KeepsClaim u v) :
    KeepsClaim t v :=
  ⟨fun ht => h'.nonneg (h.nonneg ht), h'.memory.trans h.memory, fun ht =>
    (h'.fixed (by rw [h.fixed ht, ht])).trans (h.fixed ht)⟩

theorem keepsClaim_capped {t : Ticket} {least cap : ℚ}
    (hleast : t.resources.minCpuCores = some least) (hcap : 0 ≤ least → 0 ≤ cap) :
    KeepsClaim t (t.capped least cap) :=
  ⟨fun h => t.capped_nonneg h hleast (hcap (h.least _ hleast)), rfl, fun hnone => by
    rw [hleast] at hnone
    cases hnone⟩

theorem keepsClaim_capElasticClaim (t : Ticket) (cfg : Config) (host : Host) :
    KeepsClaim t (capElasticClaim t cfg host) := by
  unfold capElasticClaim
  cases hleast : t.resources.minCpuCores with
  | none => exact .refl t
  | some least =>
    simp only
    split_ifs with hmode hfits hsmall
    · exact .refl t
    · exact .refl t
    · exact .refl t
    · refine keepsClaim_capped hleast fun _ => ?_
      simp only [Bool.or_eq_true, decide_eq_true_eq, not_or, not_lt] at hsmall
      exact_mod_cast le_trans zero_le_one hsmall.1

theorem keepsClaim_clampQueuedWeight (t : Ticket) (cfg : Config) (capacity : ℚ) :
    KeepsClaim t (clampQueuedWeight t cfg capacity) := by
  obtain ⟨weight, h⟩ := Poll.clampQueuedWeight_eq t cfg capacity
  rw [h]
  exact ⟨fun h => h, rfl, fun _ => rfl⟩

theorem keepsClaim_capSimClaim (t : Ticket) (classes : ClassPolicy) (booked : Booking) (host : Host)
    (cfg : Config) : KeepsClaim t (capSimClaim t classes booked host cfg) := by
  unfold capSimClaim
  cases hleast : t.resources.minCpuCores with
  | none => exact .refl t
  | some least =>
    simp only
    split_ifs with hclass hfits hsmall
    · exact .refl t
    · exact .refl t
    · exact .refl t
    · refine keepsClaim_capped hleast fun hnonneg => ?_
      rw [not_lt] at hsmall
      exact_mod_cast (Int.ceil_nonneg hnonneg).trans hsmall

namespace Turn

variable {s : Turn}

theorem keepsClaim_ticket (s : Turn) : KeepsClaim s.submitted s.ticket := by
  have hcapped : KeepsClaim s.submitted s.budgetCapped :=
    (keepsClaim_capElasticClaim s.submitted s.cfg s.host).trans
      (keepsClaim_clampQueuedWeight _ s.cfg s.weightCapacity)
  unfold Poll.ticket
  split_ifs
  · exact hcapped.trans (keepsClaim_capSimClaim _ _ _ _ _)
  · exact hcapped

/-! ### What is granted -/

theorem admissionTicket_resources (s : Turn) :
    s.admissionTicket.resources = s.ticket.resources := rfl

/-- The cores of a ticket without an elastic floor. -/
theorem grantedCpuCores_of_fixed (h : s.submitted.resources.minCpuCores = none) :
    s.grantedCpuCores = s.submitted.resources.cpuCores.getD s.ticket.weight := by
  have hresources := s.keepsClaim_ticket.fixed h
  have helastic : s.elastic = none := by
    unfold elastic
    split_ifs
    · rw [Option.eq_none_iff_forall_ne_some]
      rintro ⟨decision, granted⟩ hsome
      obtain ⟨-, least, claim, hleast, -⟩ := evaluateElasticAdmission_eq_some hsome
      rw [admissionTicket_resources, hresources, h] at hleast
      cases hleast
    · rfl
  unfold grantedCpuCores
  rw [helastic, Option.map_none, Option.getD_none]
  change (s.ticket.resources.cpuCores).getD s.ticket.weight = _
  rw [hresources]

theorem grantedCpuCores_nonneg (hvalid : s.submitted.Valid) : 0 ≤ s.grantedCpuCores := by
  have hnonneg := s.keepsClaim_ticket.nonneg hvalid.nonneg
  unfold grantedCpuCores
  cases helastic : s.elastic with
  | none =>
    change 0 ≤ (s.ticket.resources.cpuCores).getD s.ticket.weight
    cases hcpu : s.ticket.resources.cpuCores with
    | none => exact s.ticket_weight_nonneg hvalid.1
    | some cpu => exact hnonneg.cpu cpu hcpu
  | some grant =>
    obtain ⟨decision, granted⟩ := grant
    unfold elastic at helastic
    split_ifs at helastic
    obtain ⟨-, least, claim, hleast, rfl, hclaim, -⟩ := evaluateElasticAdmission_eq_some helastic
    have hleast' : 0 ≤ least := hnonneg.least least hleast
    simp only [Option.map_some, Option.getD_some]
    exact_mod_cast (Int.ceil_nonneg hleast').trans hclaim

/-! ### What is booked -/

/-- **A lease books what its sim was judged at**: the cores, and the bytes, which are rounded for an
exclusive one. -/
theorem leaseBooking_lease (hvalid : s.submitted.Valid)
    (hexclusive : s.exclusiveHolder = s.submitted.exclusive) :
    leaseBooking s.lease s.cfg =
      { cores := s.simGrant.1
        memoryBytes := if s.exclusiveHolder then jsRound s.simGrant.2 else s.simGrant.2
        count := 1 } := by
  cases hcase : s.exclusiveHolder with
  | true =>
    have hfixed : s.submitted.resources.minCpuCores = none :=
      hvalid.2.2.2.2 (hexclusive.symm.trans hcase)
    simp [leaseBooking, leaseResources, leaseCpuCores, lease, hcase, hfixed, simGrant,
      resolveTicketResources]
  | false =>
    have hmemory := s.keepsClaim_ticket.memory
    cases hleast : s.submitted.resources.minCpuCores with
    | none =>
      have hgranted := grantedCpuCores_of_fixed hleast
      simp [leaseBooking, leaseResources, leaseCpuCores, lease, hcase, hleast, simGrant,
        resolveTicketResources, ticketResources, hmemory, hgranted]
    | some least =>
      simp [leaseBooking, leaseResources, leaseCpuCores, lease, hcase, hleast, simGrant,
        resolveTicketResources, ticketResources, hmemory]

end Turn

/-- Nothing negative is booked. -/
def Booking.Nonneg (b : Booking) : Prop := 0 ≤ b.cores ∧ 0 ≤ b.memoryBytes

theorem jsRound_nonneg {x : ℚ} (h : 0 ≤ x) : 0 ≤ jsRound x := by
  unfold jsRound
  exact_mod_cast Int.floor_nonneg.2 (by linarith)

theorem exclusiveBudget_nonneg (host : Host) (cfg : Config) :
    0 ≤ (exclusiveBudget host cfg).1 ∧ 0 ≤ (exclusiveBudget host cfg).2 :=
  ⟨le_max_left _ _, le_max_left _ _⟩

/-- The budget is made of doubles. -/
theorem round_exclusiveBudget (host : Host) (cfg : Config) :
    double.round (exclusiveBudget host cfg).1 = (exclusiveBudget host cfg).1 ∧
      double.round (exclusiveBudget host cfg).2 = (exclusiveBudget host cfg).2 := by
  have hround : ∀ q, double.round (double.round q) = double.round q :=
    Format.round_round (by decide)
  have hzero : double.round 0 = 0 := by decide +kernel
  have hmono : Monotone double.round := fun p q h => Format.round_mono (by decide) h
  constructor
  · rw [exclusiveBudget, cpuBudgetCores, hmono.map_max, hmono.map_min, hzero, Format.sub, hround,
      hround]
  · rw [exclusiveBudget, hmono.map_max, hzero, Format.sub, hround]

theorem resolveTicketResources_memoryBytes_nonneg (weight : ℚ) (cpu least : Option ℚ)
    {memory : Option ℚ} {perWeight : ℚ} (hmemory : ∀ bytes ∈ memory, 0 ≤ bytes)
    (hper : 0 ≤ perWeight) :
    0 ≤ (resolveTicketResources weight cpu least memory perWeight).memoryBytes := by
  refine jsRound_nonneg ?_
  cases memory with
  | none => exact mul_nonneg (le_trans zero_le_one (le_max_left _ _)) hper
  | some bytes => exact hmemory bytes rfl

theorem Turn.leaseBooking_nonneg {s : Turn} (hcfg : s.cfg.Valid) (hvalid : s.submitted.Valid)
    (hexclusive : s.exclusiveHolder = s.submitted.exclusive) :
    (leaseBooking s.lease s.cfg).Nonneg := by
  rw [Turn.leaseBooking_lease hvalid hexclusive]
  obtain ⟨hcores, hbytes⟩ := exclusiveBudget_nonneg s.host s.cfg
  have hnonneg := s.keepsClaim_ticket.nonneg hvalid.nonneg
  cases hcase : s.exclusiveHolder with
  | true =>
    simp only [Turn.simGrant, hcase, if_true]
    exact ⟨hcores, jsRound_nonneg hbytes⟩
  | false =>
    simp only [Turn.simGrant, hcase, Bool.false_eq_true, if_false]
    refine ⟨Turn.grantedCpuCores_nonneg hvalid, ?_⟩
    exact resolveTicketResources_memoryBytes_nonneg s.ticket.weight s.ticket.resources.cpuCores none
      hnonneg.memory hcfg.memory

/-- What the sims among some leases book. -/
def simBookings (held : List Lease) (cfg : Config) : List Booking :=
  (held.filter fun l => l.laneClass = .sim).map fun l => leaseBooking l cfg

/-- **What is booked in all**, nothing rounded. -/
def Booking.total (bookings : List Booking) : Booking :=
  { cores := (bookings.map Booking.cores).sum
    memoryBytes := (bookings.map Booking.memoryBytes).sum
    count := bookings.length }

/-- **Within the caps**: what is booked is no more than they allow. -/
structure WithinCaps (classes : ClassPolicy) (host : Host) (cfg : Config) (booked : Booking) :
    Prop where
  cores : booked.cores ≤ classes.caps.capCores
  reserve : booked.cores ≤ cpuBudgetCores host cfg - classes.caps.reserveCores
  memory : booked.memoryBytes ≤ classes.caps.capMemoryBytes
  count : booked.count ≤ classes.caps.maxTickets

section Sums

variable {cfg : Config} {host : Host} {classes : ClassPolicy} {held held' : List Lease}

/-- What is booked is a sum over the sims, in the order in which they are listed. -/
theorem bookedSims_eq (held : List Lease) (cfg : Config) :
    bookedSims held cfg =
      { cores := double.sum ((simBookings held cfg).map Booking.cores)
        memoryBytes := double.sum ((simBookings held cfg).map Booking.memoryBytes)
        count := (simBookings held cfg).length } := by
  induction held using List.reverseRecOn with
  | nil => rfl
  | append_singleton held l ih =>
    have hlast : bookedSims (held ++ [l]) cfg = if l.laneClass = .sim then
        (bookedSims held cfg).add (leaseBooking l cfg) else bookedSims held cfg := by
      rw [bookedSims, List.foldl_append]
      rfl
    rw [hlast, ih]
    by_cases hsim : l.laneClass = .sim
    · simp [simBookings, hsim, Booking.add, Format.sum_concat, leaseBooking]
    · simp [simBookings, hsim]

/-- No more is booked. -/
structure Booking.LE (a b : Booking) : Prop where
  cores : a.cores ≤ b.cores
  memory : a.memoryBytes ≤ b.memoryBytes
  count : a.count ≤ b.count

theorem WithinCaps.mono {a b : Booking} (h : WithinCaps classes host cfg b) (hle : a.LE b) :
    WithinCaps classes host cfg a :=
  ⟨hle.cores.trans h.cores, hle.cores.trans h.reserve, hle.memory.trans h.memory,
    hle.count.trans h.count⟩

/-- **Of fewer leases less is booked.** -/
theorem total_le (hfewer : (held'.map Lease.core).Subperm (held.map Lease.core))
    (hnonneg : ∀ l ∈ held, (leaseBooking l cfg).Nonneg) :
    (Booking.total (simBookings held' cfg)).LE (Booking.total (simBookings held cfg)) := by
  have hsims : ∀ ls : List Lease, simBookings ls cfg = simBookings (ls.map Lease.core) cfg := by
    intro ls
    rw [simBookings, simBookings, List.filter_map, List.map_map]
    rfl
  have hsub : (simBookings held' cfg).Subperm (simBookings held cfg) := by
    rw [hsims held', hsims held]
    obtain ⟨cores, hperm, hsub⟩ := hfewer
    exact ⟨_, (hperm.filter _).map _, (hsub.filter _).map _⟩
  have hmem : ∀ b ∈ simBookings held cfg, b.Nonneg := by
    intro b hb
    obtain ⟨l, hl, rfl⟩ := List.mem_map.1 hb
    exact hnonneg l (List.mem_of_mem_filter hl)
  have hlength := hsub.length_le
  obtain ⟨bookings, hperm, hsub⟩ := hsub
  refine ⟨sum_le_of_subperm ⟨_, hperm.map _, hsub.map _⟩ fun c hc => ?_,
    sum_le_of_subperm ⟨_, hperm.map _, hsub.map _⟩ fun c hc => ?_, hlength⟩
  · obtain ⟨b, hb, rfl⟩ := List.mem_map.1 hc
    exact (hmem b hb).1
  · obtain ⟨b, hb, rfl⟩ := List.mem_map.1 hc
    exact (hmem b hb).2

/-- With no sim among the leases nothing is booked. -/
theorem simBookings_of_no_sim (h : ∀ l ∈ held, l.laneClass ≠ .sim) : simBookings held cfg = [] := by
  rw [simBookings, List.filter_eq_nil_iff.2 fun l hl => by simp [h l hl], List.map_nil]

theorem simBookings_concat (held : List Lease) (l : Lease) (cfg : Config) :
    simBookings (held ++ [l]) cfg =
      simBookings held cfg ++ if l.laneClass = .sim then [leaseBooking l cfg] else [] := by
  by_cases hsim : l.laneClass = .sim
  · simp [simBookings, hsim]
  · simp [simBookings, hsim]

end Sums

/-! ### What adds up without a lost bit -/

/-- **The caps leave room for every bit** of multiples of a power of two: a double holds the caps
beside them, and the reserve is taken off the budget without being rounded up. -/
structure CapsEven (k : ℤ) (cfg : Config) (host : Host) : Prop where
  least : double.least ≤ k
  whole : k ≤ 0
  cores : (resolveClasses cfg).caps.capCores < 2 ^ (k + double.bits)
  memory : (resolveClasses cfg).caps.capMemoryBytes < 2 ^ (0 + double.bits : ℤ)
  reserve : double.sub (cpuBudgetCores host cfg) (resolveClasses cfg).caps.reserveCores ≤
    cpuBudgetCores host cfg - (resolveClasses cfg).caps.reserveCores

/-- **A booking of such multiples**, of whole bytes and not negative. -/
structure Booking.Even (k : ℤ) (b : Booking) : Prop where
  nonneg : b.Nonneg
  cores : Format.Multiple k b.cores
  memory : Format.Multiple 0 b.memoryBytes

section Even

variable {k : ℤ} {cfg : Config} {host : Host} {t u : Ticket}

theorem multiple_intCast (hk : k ≤ 0) (n : ℤ) : Format.Multiple k n :=
  Format.Multiple.finer ⟨n, by simp⟩ hk

theorem multiple_jsRound (x : ℚ) : Format.Multiple 0 (jsRound x) := multiple_intCast le_rfl _

/-- The cores a ticket declares are such a multiple. -/
def Ticket.Even (k : ℤ) (t : Ticket) : Prop :=
  Format.Multiple k (t.resources.cpuCores.getD t.weight)

theorem even_capped (hk : k ≤ 0) (t : Ticket) (least : ℚ) (cap : ℤ) : (t.capped least cap).Even k :=
  multiple_intCast hk cap

theorem Ticket.Even.capElasticClaim (h : t.Even k) (hk : k ≤ 0) (cfg : Config) (host : Host) :
    (capElasticClaim t cfg host).Even k := by
  unfold Scheduler.capElasticClaim
  cases t.resources.minCpuCores with
  | none => exact h
  | some least =>
    simp only
    split_ifs
    · exact h
    · exact h
    · exact h
    · exact even_capped hk t least _

theorem Ticket.Even.capSimClaim (h : t.Even k) (hk : k ≤ 0) (classes : ClassPolicy)
    (booked : Booking) (host : Host) (cfg : Config) :
    (capSimClaim t classes booked host cfg).Even k := by
  unfold Scheduler.capSimClaim
  cases t.resources.minCpuCores with
  | none => exact h
  | some least =>
    simp only
    split_ifs
    · exact h
    · exact h
    · exact h
    · exact even_capped hk t least _

theorem Ticket.Even.clampQueuedWeight (h : t.Even k) (hk : k ≤ 0) (cfg : Config) (capacity : ℚ) :
    (clampQueuedWeight t cfg capacity).Even k := by
  simp only [Scheduler.clampQueuedWeight]
  split_ifs
  · unfold Ticket.Even
    cases hcpu : t.resources.cpuCores with
    | some cpu => simpa [Ticket.Even, hcpu] using h
    | none =>
      have hlimit : queuedWeightLimit cfg.maxLaneWeight capacity =
          ((max 1 (min (cfg.maxLaneWeight : ℤ) ⌊capacity / 2⌋) : ℤ) : ℚ) := by
        rw [queuedWeightLimit]
        push_cast
        rfl
      rw [Option.getD_none, hlimit]
      exact multiple_intCast hk _
  · exact h

/-- **What is granted is such a multiple** where what was declared is. -/
theorem Turn.multiple_grantedCpuCores {s : Turn} (h : s.submitted.Even k) (hk : k ≤ 0) :
    Format.Multiple k s.grantedCpuCores := by
  have hticket : s.ticket.Even k := by
    have hcapped : s.budgetCapped.Even k := (h.capElasticClaim hk _ _).clampQueuedWeight hk _ _
    unfold Poll.ticket
    split_ifs
    · exact hcapped.capSimClaim hk _ _ _ _
    · exact hcapped
  unfold grantedCpuCores
  cases helastic : s.elastic with
  | none => exact hticket
  | some grant =>
    obtain ⟨decision, granted⟩ := grant
    unfold elastic at helastic
    split_ifs at helastic
    obtain ⟨-, least, claim, -, rfl, -, -, -⟩ := evaluateElasticAdmission_eq_some helastic
    exact multiple_intCast hk claim

/-- **A lease of a sim that is not exclusive books evenly.** -/
theorem Turn.even_leaseBooking {s : Turn} (hcfg : s.cfg.Valid) (hvalid : s.submitted.Valid)
    (hexclusive : s.exclusiveHolder = s.submitted.exclusive) (hnot : s.exclusiveHolder = false)
    (h : s.submitted.Even k) (hk : k ≤ 0) : (leaseBooking s.lease s.cfg).Even k := by
  have hbooking := Turn.leaseBooking_lease hvalid hexclusive
  refine ⟨Turn.leaseBooking_nonneg hcfg hvalid hexclusive, ?_, multiple_jsRound _⟩
  rw [hbooking, Turn.simGrant, hnot]
  exact Turn.multiple_grantedCpuCores h hk

/-- **Even bookings that stay within the caps are not rounded.** -/
theorem sum_even {bookings : List Booking} (hcaps : CapsEven k cfg host)
    (heven : ∀ b ∈ bookings, b.Even k)
    (hcores : (Booking.total bookings).cores ≤ (resolveClasses cfg).caps.capCores)
    (hmemory : (Booking.total bookings).memoryBytes ≤ (resolveClasses cfg).caps.capMemoryBytes) :
    double.sum (bookings.map Booking.cores) = (Booking.total bookings).cores ∧
      double.sum (bookings.map Booking.memoryBytes) = (Booking.total bookings).memoryBytes := by
  have hcore : ∀ c ∈ bookings.map Booking.cores, 0 ≤ c ∧ Format.Multiple k c := by
    intro c hc
    obtain ⟨b, hb, rfl⟩ := List.mem_map.1 hc
    exact ⟨(heven b hb).nonneg.1, (heven b hb).cores⟩
  have hbyte : ∀ c ∈ bookings.map Booking.memoryBytes, 0 ≤ c ∧ Format.Multiple 0 c := by
    intro c hc
    obtain ⟨b, hb, rfl⟩ := List.mem_map.1 hc
    exact ⟨(heven b hb).nonneg.2, (heven b hb).memory⟩
  constructor
  · rcases Format.sum_multiples (by decide) hcaps.least hcore with ⟨heq, -⟩ | ⟨-, hover⟩
    · exact heq
    · exact absurd (hover.trans hcores) (not_le.2 hcaps.cores)
  · rcases Format.sum_multiples (f := double) (by decide) (by decide) hbyte with ⟨heq, -⟩ | ⟨-, hover⟩
    · exact heq
    · exact absurd (hover.trans hmemory) (not_le.2 hcaps.memory)

theorem even_total {bookings : List Booking} (h : ∀ b ∈ bookings, b.Even k) :
    (Booking.total bookings).Even k := by
  refine ⟨⟨List.sum_nonneg fun c hc => ?_, List.sum_nonneg fun c hc => ?_⟩,
    Format.Multiple.sum fun c hc => ?_, Format.Multiple.sum fun c hc => ?_⟩
  · obtain ⟨b, hb, rfl⟩ := List.mem_map.1 hc
    exact (h b hb).nonneg.1
  · obtain ⟨b, hb, rfl⟩ := List.mem_map.1 hc
    exact (h b hb).nonneg.2
  · obtain ⟨b, hb, rfl⟩ := List.mem_map.1 hc
    exact (h b hb).cores
  · obtain ⟨b, hb, rfl⟩ := List.mem_map.1 hc
    exact (h b hb).memory

/-- **A grant that no cap refuses stays within the caps** beside what is booked, with every bit. -/
theorem withinCaps_of_granted {booked : Booking} {grant : ℚ × ℚ} (hcaps : CapsEven k cfg host)
    (hbooked : booked.Even k) (hgrant : 0 ≤ grant.1 ∧ Format.Multiple k grant.1)
    (hbytes : 0 ≤ grant.2 ∧ Format.Multiple 0 grant.2)
    (hwithin : booked.cores = 0 ∨ WithinCaps (resolveClasses cfg) host cfg booked)
    (h : simCapReason (resolveClasses cfg) booked grant host cfg = none) :
    WithinCaps (resolveClasses cfg) host cfg
      { cores := booked.cores + grant.1
        memoryBytes := booked.memoryBytes + grant.2
        count := booked.count + 1 } := by
  unfold simCapReason at h
  split_ifs at h with hcount hcores hmemory hceiling
  rw [not_le] at hcount
  rw [not_lt] at hcores hmemory hceiling
  have hsum : booked.cores + grant.1 ≤ (resolveClasses cfg).caps.capCores :=
    (Format.add_le_iff (by decide) hcaps.least ⟨hbooked.nonneg.1, hbooked.cores⟩ hgrant
      hcaps.cores).1 hcores
  refine ⟨hsum, le_trans ?_ hcaps.reserve, ?_, hcount⟩
  · unfold simCoreCeiling at hceiling
    set left := double.sub (cpuBudgetCores host cfg) (resolveClasses cfg).caps.reserveCores
    have hround : double.round left = left := Format.round_round (by decide) _
    rcases le_total (resolveClasses cfg).caps.capCores left with hle | hle
    · exact hsum.trans hle
    · rw [min_eq_right hle] at hceiling
      rcases hwithin with hzero | hwithin
      · rw [hzero, Format.sub, sub_zero, hround] at hceiling
        rwa [hzero, zero_add]
      · -- what is booked is a double, so it is not above the rounded difference either
        obtain ⟨n, hn⟩ := hbooked.cores
        have hself : double.round booked.cores = booked.cores := by
          refine Format.round_multiple hn hcaps.least ?_
          rw [abs_of_nonneg hbooked.nonneg.1]
          exact hwithin.cores.trans_lt hcaps.cores
        have hbelow : booked.cores ≤ left := by
          rw [← hself]
          exact Format.round_mono (by decide) hwithin.reserve
        exact Format.add_le_of_le_sub hround hcaps.least (hle.trans_lt hcaps.cores)
          hbooked.nonneg.1 hbooked.cores hbelow hceiling
  · exact (Format.add_le_iff (f := double) (by decide) (by decide)
      ⟨hbooked.nonneg.2, hbooked.memory⟩ hbytes hcaps.memory).1 hmemory

end Even

/-! ### The caps along a run -/

/-- **The bytes of the whole budget do not round over the cap** while they are under it. -/
def RoundsWithin (cfg : Config) (host : Host) : Prop :=
  (exclusiveBudget host cfg).2 ≤ (resolveClasses cfg).caps.capMemoryBytes →
    jsRound (exclusiveBudget host cfg).2 ≤ (resolveClasses cfg).caps.capMemoryBytes

/-- **The condition on a step**: of a sim that is evaluated, the bytes of the budget do not round
over the cap if it is exclusive, and otherwise the cores it declares are a multiple of the power of
two. -/
def SimFits (k : ℤ) (cfg : Config) (host : Host) (s : Yard) (a : Act) : Prop :=
  ∀ t reads io, a = .poll t.id reads io → s.copies t.id = some t → t.laneClass = .sim →
    if t.exclusive then RoundsWithin cfg host else t.Even k

/-- **An exclusive sim is within the caps**, with its bytes rounded. -/
theorem withinCaps_alone {k : ℤ} {cfg : Config} {host : Host} {grant : ℚ × ℚ}
    (hcaps : CapsEven k cfg host) (hround : RoundsWithin cfg host)
    (hgrant : grant = exclusiveBudget host cfg)
    (h : simCapReason (resolveClasses cfg) {} grant host cfg = none) :
    WithinCaps (resolveClasses cfg) host cfg (Booking.total (simBookings [] cfg ++
      [{ cores := grant.1, memoryBytes := jsRound grant.2, count := 1 }])) := by
  obtain ⟨hcpu, hmem⟩ := round_exclusiveBudget host cfg
  rw [← hgrant] at hcpu hmem
  unfold simCapReason at h
  simp only [Format.add, zero_add, hcpu, hmem] at h
  split_ifs at h with hcount hcores hmemory hceiling
  rw [not_le] at hcount
  rw [not_lt] at hcores hmemory hceiling
  have hreserve : grant.1 ≤ cpuBudgetCores host cfg - (resolveClasses cfg).caps.reserveCores := by
    refine le_trans ?_ hcaps.reserve
    unfold simCoreCeiling at hceiling
    rw [Format.sub, sub_zero] at hceiling
    calc grant.1 ≤ _ := hceiling
      _ ≤ double.round _ := Format.round_mono (by decide) (min_le_right _ _)
      _ = _ := Format.round_round (by decide) _
  have hbytes : jsRound grant.2 ≤ (resolveClasses cfg).caps.capMemoryBytes := by
    rw [hgrant] at hmemory ⊢
    exact hround hmemory
  refine ⟨?_, ?_, ?_, ?_⟩
  · simpa [Booking.total, simBookings] using hcores
  · simpa [Booking.total, simBookings] using hreserve
  · simpa [Booking.total, simBookings] using hbytes
  · simpa [Booking.total, simBookings] using Nat.succ_le_of_lt hcount

/-- **What the held sims book**: evenly, but for an exclusive one, which is alone, and within the
caps, if a sim is held. -/
structure SimsFit (k : ℤ) (cfg : Config) (host : Host) (held : List Lease) : Prop where
  nonneg : ∀ l ∈ held, (leaseBooking l cfg).Nonneg
  even : ∀ l ∈ held, l.laneClass = .sim → l.exclusive = false → (leaseBooking l cfg).Even k
  alone : ∀ l ∈ held, l.exclusive = true → held.length ≤ 1
  rounded : ∀ l ∈ held, l.laneClass = .sim → l.exclusive = true →
    double.round (leaseBooking l cfg).cores = (leaseBooking l cfg).cores ∧
      Format.Multiple 0 (leaseBooking l cfg).memoryBytes
  within : (∃ l ∈ held, l.laneClass = .sim) →
    WithinCaps (resolveClasses cfg) host cfg (Booking.total (simBookings held cfg))

section Caps

variable {k : ℤ} {cfg : Config} {host : Host} {held held' : List Lease}

theorem SimsFit.fewer (h : SimsFit k cfg host held)
    (hfewer : (held'.map Lease.core).Subperm (held.map Lease.core)) :
    SimsFit k cfg host held' := by
  have hmem := exists_core_of_subperm hfewer
  have hbooking : ∀ {l l' : Lease}, l.core = l'.core → leaseBooking l cfg = leaseBooking l' cfg :=
    fun hcore => Lease.eq_of_core hcore (fun l => leaseBooking l cfg) fun _ => rfl
  refine ⟨fun l' hl' => ?_, fun l' hl' hsim hnot => ?_, fun l' hl' hexclusive => ?_,
    fun l' hl' hsim hexclusive => ?_, fun ⟨l', hl', hsim⟩ => ?_⟩
  · obtain ⟨l, hl, hcore⟩ := hmem l' hl'
    rw [← hbooking hcore]
    exact h.nonneg l hl
  · obtain ⟨l, hl, hcore⟩ := hmem l' hl'
    rw [← Lease.eq_of_core hcore Lease.laneClass fun _ => rfl] at hsim
    rw [← Lease.eq_of_core hcore Lease.exclusive fun _ => rfl] at hnot
    rw [← hbooking hcore]
    exact h.even l hl hsim hnot
  · obtain ⟨l, hl, hcore⟩ := hmem l' hl'
    have hlength := hfewer.length_le
    rw [List.length_map, List.length_map] at hlength
    rw [← Lease.eq_of_core hcore Lease.exclusive fun _ => rfl] at hexclusive
    exact hlength.trans (h.alone l hl hexclusive)
  · obtain ⟨l, hl, hcore⟩ := hmem l' hl'
    rw [← Lease.eq_of_core hcore Lease.laneClass fun _ => rfl] at hsim
    rw [← Lease.eq_of_core hcore Lease.exclusive fun _ => rfl] at hexclusive
    rw [← hbooking hcore]
    exact h.rounded l hl hsim hexclusive
  · obtain ⟨l, hl, hcore⟩ := hmem l' hl'
    rw [← Lease.eq_of_core hcore Lease.laneClass fun _ => rfl] at hsim
    exact (h.within ⟨l, hl, hsim⟩).mono (total_le hfewer h.nonneg)

/-- **What is booked is what the sims book in all**, not rounded. -/
theorem SimsFit.bookedSims_eq_total (h : SimsFit k cfg host held) (hcaps : CapsEven k cfg host) :
    bookedSims held cfg = Booking.total (simBookings held cfg) := by
  rw [bookedSims_eq]
  by_cases hexclusive : ∃ l ∈ held, l.exclusive = true
  · obtain ⟨l, hl, hexclusive⟩ := hexclusive
    obtain ⟨l', rfl⟩ := List.length_eq_one_iff.1
      (le_antisymm (h.alone l hl hexclusive) (List.length_pos_of_mem hl))
    rw [List.mem_singleton.1 hl] at hexclusive
    by_cases hsim : l'.laneClass = .sim
    · have hmem : l' ∈ [l'] := List.mem_singleton_self l'
      obtain ⟨hcores, n, hn⟩ := h.rounded l' hmem hsim hexclusive
      have hwithin := h.within ⟨l', hmem, hsim⟩
      simp only [simBookings, hsim, List.filter_cons, decide_true, if_true, List.filter_nil,
        List.map_cons, List.map_nil, Booking.total, Format.sum_singleton, List.sum_singleton]
        at hwithin ⊢
      rw [hcores, Format.round_multiple hn (by decide) ?_]
      rw [abs_of_nonneg (h.nonneg l' hmem).2]
      exact hwithin.memory.trans_lt hcaps.memory
    · simp [simBookings, hsim, Booking.total]
  · push Not at hexclusive
    by_cases hsims : ∃ l ∈ held, l.laneClass = .sim
    · have heven : ∀ b ∈ simBookings held cfg, b.Even k := by
        intro b hb
        obtain ⟨l, hl, rfl⟩ := List.mem_map.1 hb
        obtain ⟨hl, hsim⟩ := List.mem_filter.1 hl
        exact h.even l hl (of_decide_eq_true hsim) (by simpa using hexclusive l hl)
      obtain ⟨hcores, hmemory⟩ :=
        sum_even hcaps heven (h.within hsims).cores (h.within hsims).memory
      rw [hcores, hmemory, Booking.total]
    · push Not at hsims
      rw [simBookings_of_no_sim hsims]
      rfl

/-- **A start keeps the sims within the caps**: what the caps were asked for is what the lease
books. -/
theorem SimsFit.begins {u : Turn} (h : SimsFit k u.cfg u.host u.held)
    (hcaps : CapsEven k u.cfg u.host) (hcfg : u.cfg.Valid)
    (hmode : u.classes.mode = .active) (hvalid : u.classes.valid = true) (hstarts : u.Starts)
    (hplaced : u.Placed) (hcoherent : u.Coherent) (hticket : u.submitted.Valid)
    (hfits : u.submitted.laneClass = .sim →
      if u.submitted.exclusive then RoundsWithin u.cfg u.host else u.submitted.Even k) :
    SimsFit k u.cfg u.host ((u.held.filter fun l => l.id != u.lease.id) ++ [u.lease]) := by
  have hholder := Turn.exclusiveHolder_eq hstarts hplaced hcoherent
  obtain ⟨hnoExclusive, halone⟩ := Turn.exclusiveDeny_eq_none hstarts.exclusive
  have hsub : (u.held.filter fun l => l.id != u.lease.id).Sublist u.held := List.filter_sublist
  have hrest := h.fewer (hsub.map Lease.core).subperm
  obtain ⟨resources, weight, hsubmitted⟩ := u.ticket_eq_submitted
  have hclass : u.lease.laneClass = u.submitted.laneClass := by
    simp only [Turn.lease, hsubmitted]
    split_ifs <;> rfl
  have hleaseExclusive : u.lease.exclusive = u.exclusiveHolder := by
    cases hcase : u.exclusiveHolder <;> simp [Turn.lease, hcase]
  have hnil : u.exclusiveHolder = true → u.held.filter (fun l => l.id != u.lease.id) = [] :=
    fun hcase => List.sublist_nil.1 (halone hcase ▸ hsub)
  refine ⟨fun l hl => ?_, fun l hl hsim hnot => ?_, fun l hl hexclusive => ?_,
    fun l hl hsim hexclusive => ?_, fun hsims => ?_⟩
  · rcases List.mem_append.1 hl with hl | hl
    · exact hrest.nonneg l hl
    · rw [List.mem_singleton.1 hl]
      exact Turn.leaseBooking_nonneg hcfg hticket hholder
  · rcases List.mem_append.1 hl with hl | hl
    · exact hrest.even l hl hsim hnot
    · obtain rfl := List.mem_singleton.1 hl
      rw [hleaseExclusive] at hnot
      have hfits' := hfits (hclass.symm.trans hsim)
      rw [← hholder, hnot] at hfits'
      exact Turn.even_leaseBooking hcfg hticket hholder hnot hfits' hcaps.whole
  · rcases List.mem_append.1 hl with hl | hl
    · exact absurd (hnoExclusive l (hsub.subset hl)) (by simp [hexclusive])
    · rw [List.mem_singleton.1 hl, hleaseExclusive] at hexclusive
      rw [hnil hexclusive]
      rfl
  · rcases List.mem_append.1 hl with hl | hl
    · exact hrest.rounded l hl hsim hexclusive
    · rw [List.mem_singleton.1 hl, hleaseExclusive] at hexclusive
      rw [List.mem_singleton.1 hl, Turn.leaseBooking_lease hticket hholder, Turn.simGrant,
        hexclusive]
      exact ⟨(round_exclusiveBudget u.host u.cfg).1, multiple_jsRound _⟩
  · rw [simBookings_concat]
    by_cases hsim : u.submitted.laneClass = .sim
    · have hgranted : simCapReason (resolveClasses u.cfg) u.booked u.simGrant u.host u.cfg =
          none := by
        have hreason := hstarts.caps hmode
        rw [Turn.grantCapReason, if_pos ⟨by rw [hsubmitted]; exact hsim, hvalid, by simp [hmode]⟩]
          at hreason
        exact hreason
      have hbooked : u.booked = Booking.total (simBookings u.held u.cfg) :=
        h.bookedSims_eq_total hcaps
      have hbooking := Turn.leaseBooking_lease hticket hholder
      have hfits' := hfits hsim
      rw [if_pos (hclass.trans hsim)]
      cases hcase : u.exclusiveHolder with
      | false =>
        rw [← hholder, hcase] at hfits'
        rw [hbooked] at hgranted
        have heven : ∀ b ∈ simBookings u.held u.cfg, b.Even k := by
          intro b hb
          obtain ⟨l, hl, rfl⟩ := List.mem_map.1 hb
          obtain ⟨hl, hsim⟩ := List.mem_filter.1 hl
          exact h.even l hl (of_decide_eq_true hsim) (hnoExclusive l hl)
        have hlease := Turn.even_leaseBooking hcfg hticket hholder hcase hfits' hcaps.whole
        rw [hbooking, hcase] at hlease
        have hwithin : (Booking.total (simBookings u.held u.cfg)).cores = 0 ∨
            WithinCaps (resolveClasses u.cfg) u.host u.cfg
              (Booking.total (simBookings u.held u.cfg)) := by
          by_cases hsims : ∃ l ∈ u.held, l.laneClass = .sim
          · exact .inr (h.within hsims)
          · push Not at hsims
            rw [simBookings_of_no_sim hsims]
            exact .inl rfl
        have hless := total_le (hsub.map Lease.core).subperm h.nonneg
        refine (withinCaps_of_granted hcaps (even_total heven) ⟨hlease.nonneg.1, hlease.cores⟩
          ⟨hlease.nonneg.2, hlease.memory⟩ hwithin hgranted).mono ⟨?_, ?_, ?_⟩
        · simpa [Booking.total, hbooking, hcase] using hless.cores
        · simpa [Booking.total, hbooking, hcase] using hless.memory
        · simpa [Booking.total] using hless.count
      | true =>
        -- nothing is held beside it, so the rounded bytes are all there is
        rw [← hholder, hcase, if_pos rfl] at hfits'
        rw [hnil hcase, hbooking, hcase]
        have hempty : u.booked = {} := by
          rw [Poll.booked, halone hcase]
          rfl
        rw [hempty] at hgranted
        exact withinCaps_alone hcaps hfits' (by rw [Turn.simGrant, hcase, if_pos rfl]) hgranted
    · obtain ⟨l, hl, hl'⟩ := hsims
      have hother : ∃ l ∈ u.held.filter (fun l => l.id != u.lease.id), l.laneClass = .sim := by
        rcases List.mem_append.1 hl with hl | hl
        · exact ⟨l, hl, hl'⟩
        · rw [List.mem_singleton.1 hl, hclass] at hl'
          exact absurd hl' hsim
      rw [if_neg (by rw [hclass]; exact hsim), List.append_nil]
      exact hrest.within hother

end Caps

/-- **The held sims stay within the caps** in every run in which the evaluated sims declare multiples
of one power of two beside which a double can hold the caps, and no exclusive sim is evaluated while
the bytes of the whole budget round over the cap: they book no more cores, bytes and places than the
caps allow, leave the tests their reserve, and what is booked is not rounded. -/
theorem sims_within_caps {k : ℤ} {cfg : Config} {host : Host} {s : Yard} (hcfg : cfg.Valid)
    (hmode : (resolveClasses cfg).mode = .active) (hvalid : (resolveClasses cfg).valid = true)
    (hcaps : CapsEven k cfg host) (h : (yard cfg host).Reach (SimFits k cfg host) s) :
    bookedSims s.held cfg = Booking.total (simBookings s.held cfg) ∧
      (bookedSims s.held cfg = {} ∨
        WithinCaps (resolveClasses cfg) host cfg (bookedSims s.held cfg)) := by
  have hboth : Sound s ∧ SimsFit k cfg host s.held := by
    refine h.invariant (P := fun s => Sound s ∧ SimsFit k cfg host s.held)
      (fun s hs => ⟨sound_start hs, ?_⟩) fun s a s' hs hok hnext => ⟨sound_step hs.1 hnext, ?_⟩
    · rw [Yard.held, hs.2.1]
      refine ⟨by simp, by simp, by simp, by simp, ?_⟩
      rintro ⟨l, hl, -⟩
      exact absurd hl List.not_mem_nil
    · rcases lease_step hs.1 hnext with hfewer | ⟨t, reads, io, grant, rfl, hstarted⟩
      · exact hs.2.fewer hfewer.held
      · have hbegins := hstarted.begins hs.1 hcfg
        rw [hstarted.held hbegins.isRunning]
        obtain ⟨u, hpoll, hplaced, hstarts, hcoherent, rfl⟩ := hstarted.turn hs.1
        obtain ⟨hsubmitted, hu⟩ := Turn.of_pollOf hpoll
        have hclasses : u.classes = resolveClasses cfg := by rw [Poll.classes, hu.1]
        have hfits := hok t reads io rfl hstarted.copy
        have hfit := hs.2
        rw [← hu.1, ← hu.2.1, ← hu.2.2] at hfit ⊢
        rw [← hu.1, ← hu.2.1, ← hsubmitted] at hfits
        rw [← hu.1, ← hu.2.1] at hcaps
        exact hfit.begins hcaps (hu.1.symm ▸ hcfg) (hclasses ▸ hmode) (hclasses ▸ hvalid) hstarts
          hplaced hcoherent (hsubmitted ▸ (hs.1.copy t.id t hstarted.copy).2) hfits
  have htotal := hboth.2.bookedSims_eq_total hcaps
  refine ⟨htotal, ?_⟩
  rw [htotal]
  by_cases hsim : ∃ l ∈ s.held, l.laneClass = .sim
  · exact .inr (hboth.2.within hsim)
  · push Not at hsim
    rw [simBookings_of_no_sim hsim]
    exact .inl rfl

/-- Caps in force for sims. -/
def simCaps : ClassesBlock :=
  { mode := .active, capCores := 6, maxTickets := 2, capMemoryBytes := 8589934592 }

/-- An elastic sim comes in, and starts at the cores the caps leave it. -/
def elasticSimStart : List Act :=
  let sim : Ticket :=
    { id := 1, laneClass := .sim, resources := { cpuCores := some 7, minCpuCores := some 2 } }
  [.enqueue sim { ticket := sim } 0, .poll 1 aloneInQueue fun _ => .ok]

/-- They hold the caps beside whole numbers of cores. -/
theorem capsEven_simCaps : CapsEven 0 { classes := some simCaps } aloneInQueue.host where
  least := by decide
  whole := le_rfl
  cores := by decide +kernel
  memory := by decide +kernel
  reserve := by decide +kernel

theorem elasticSimStart_reached : ∃ s,
    (yard { classes := some simCaps } aloneInQueue.host).Reach
      (SimFits 0 { classes := some simCaps } aloneInQueue.host) s ∧
    decide ((bookedSims s.held { classes := some simCaps }).cores = 6) = true := by
  refine (yard { classes := some simCaps } aloneInQueue.host).exists_reach_of_exec {}
    elasticSimStart _ ⟨rfl, rfl, rfl, rfl⟩
    (Machine.along_of_check (fun s a => match a with
      | .poll id _ _ => (s.copies id).all fun t =>
        !t.exclusive && decide (t.resources.cpuCores.getD t.weight = 7)
      | _ => true) (fun s a hcheck t reads io ha ht _ => ?_) _ (by decide +kernel))
    (by decide +kernel)
  subst ha
  simp only [ht, Option.all_some, Bool.and_eq_true, Bool.not_eq_true', decide_eq_true_eq] at hcheck
  rw [hcheck.1]
  exact ⟨7, by simp [hcheck.2]⟩

theorem sims_within_caps_elasticSimStart : ∃ s : Yard,
    (bookedSims s.held { classes := some simCaps }).cores = 6 ∧
    (bookedSims s.held { classes := some simCaps } = {} ∨
      WithinCaps (resolveClasses { classes := some simCaps }) aloneInQueue.host
        { classes := some simCaps } (bookedSims s.held { classes := some simCaps })) := by
  obtain ⟨s, hs, hcores⟩ := elasticSimStart_reached
  exact ⟨s, of_decide_eq_true hcores, (sims_within_caps ⟨fun _ h => (by cases h), by decide +kernel⟩
    rfl rfl capsEven_simCaps hs).2⟩

/-- The memory reserve is no whole number of bytes, and the cap is all that it leaves. -/
def fractionalReserve : Config :=
  { memoryReserveBytes := 2147483648 + 1 / 2
    classes := some
      { mode := .active, capCores := 6 + 3 / 2, maxTickets := 2
        capMemoryBytes := 32212254719 + 1 / 2 } }

/-- An exclusive sim comes in, and starts. -/
def exclusiveSimStart : List Act :=
  let sim : Ticket := { id := 1, laneClass := .sim, exclusive := true }
  [.enqueue sim { ticket := sim } 0, .poll 1 aloneInQueue fun _ => .ok]

/-- Caps of 1.2 cores. -/
def tightCaps : Config :=
  { classes := some
      { mode := .active, capCores := 5404319552844595 / 2 ^ 52, maxTickets := 3
        capMemoryBytes := 32212254720 } }

/-- Sims of 0.1, 0.4 and 0.7 cores come in one after another, and start. -/
def tightSimStarts : List Act :=
  [(1, 3602879701896397 / 2 ^ 55), (2, 3602879701896397 / 2 ^ 53),
    (3, 3152519739159347 / 2 ^ 52)].flatMap fun (id, cpuCores) =>
    let sim : Ticket :=
      { id, seq := id, key := id, laneClass := .sim, resources := { cpuCores := some cpuCores } }
    [.enqueue sim { ticket := sim } 0, .poll id (idleAt (id * 1000000)) fun _ => .ok]

/-- **Sims book more than the caps allow**: an exclusive one is judged at the bytes of the budget, and
its lease is read with these bytes rounded up; and the cores of three others are rounded down to the
cap. -/
theorem sims_book_more :
    (∃ (cfg : Config) (host : Host) (s : Yard), cfg.Valid ∧
      (resolveClasses cfg).mode = .active ∧ (resolveClasses cfg).valid = true ∧
      Reached cfg host s ∧
      (resolveClasses cfg).caps.capMemoryBytes < (bookedSims s.held cfg).memoryBytes) ∧
    ∃ (cfg : Config) (host : Host) (s : Yard), cfg.Valid ∧
      (resolveClasses cfg).mode = .active ∧ (resolveClasses cfg).valid = true ∧
      Reached cfg host s ∧
      (resolveClasses cfg).caps.capCores < (Booking.total (simBookings s.held cfg)).cores := by
  constructor
  · obtain ⟨s, hs, hmore⟩ :=
      (yard fractionalReserve aloneInQueue.host).exists_reach_of_exec {} exclusiveSimStart
        (fun s => decide ((resolveClasses fractionalReserve).caps.capMemoryBytes <
          (bookedSims s.held fractionalReserve).memoryBytes))
        ⟨rfl, rfl, rfl, rfl⟩ (Machine.along_of_forall (fun _ _ => trivial) _ _) (by decide +kernel)
    exact ⟨_, _, s, ⟨fun _ h => (by cases h), by decide +kernel⟩, rfl, rfl, hs,
      of_decide_eq_true hmore⟩
  · obtain ⟨s, hs, hmore⟩ :=
      (yard tightCaps aloneInQueue.host).exists_reach_of_exec {} tightSimStarts
        (fun s => decide ((resolveClasses tightCaps).caps.capCores <
          (Booking.total (simBookings s.held tightCaps)).cores))
        ⟨rfl, rfl, rfl, rfl⟩ (Machine.along_of_forall (fun _ _ => trivial) _ _) (by decide +kernel)
    exact ⟨_, _, s, ⟨fun _ h => (by cases h), by decide +kernel⟩, rfl, rfl, hs,
      of_decide_eq_true hmore⟩

end Scheduler
end LaneBroker
