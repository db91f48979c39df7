/-
# What is held

What holds of the held leases in every state that runs reach: their weights fit the capacity, no key
is held more often than it may be, and an exclusive lease is the only one (`held_bounded`); the
pushes of one caller that run belong to one git process (`pushHolds_spec`).

A start is looked at once (`Turn.Begins`): what it has passed, said of its lease and of the leases
held before.  The other steps make the held leases fewer.

The weights are added as doubles are, in the order in which the leases are listed.  So they fit the
capacity in some order (`WeightsFit`), and their sum does where no bit of it is lost; a sum that was
rounded down to the capacity lies above it (`held_overweight`).
-/

import LaneBroker.Scheduler.Runs

namespace LaneBroker
namespace Scheduler

open LaneBroker.Basis LaneBroker.Basis.Barrier

/-! ### A start and its lease -/

/-- **What is true of the lease of a start**, beside the leases held before. -/
structure Begins (cfg : Config) (host : Host) (held : List Lease) (t : Ticket) (lease : Lease) :
    Prop where
  id : lease.id = t.id
  isRunning : lease.state = .running
  key : lease.key = t.key
  maxConcurrent : lease.maxConcurrent = t.maxConcurrent
  pushGate : lease.pushGate = t.pushGate
  exclusive : lease.exclusive = t.exclusive
  /-- It is alone, with all of the weight, or its weight fits. -/
  fits : (lease.exclusive = true ∧ held = [] ∧
      lease.weight = effectiveWeightCapacity cfg host.cpuCores) ∨
    (lease.exclusive = false ∧ double.add (double.sum (held.map Lease.weight)) lease.weight ≤
      effectiveWeightCapacity cfg host.cpuCores)
  weight : 0 ≤ lease.weight
  /-- No exclusive lease is held. -/
  noExclusive : ∀ l ∈ held, l.exclusive = false
  room : (held.filter fun l => l.key == lease.key).length < ceilingOf lease.maxConcurrent

namespace Turn

variable {s : Turn}

/-- The ticket that is judged is blocked where its record is. -/
theorem blockedBy_ticket {u : Ticket} (h : SameTicket u s.budgetCapped) (held : List Lease) :
    blockedBy held s.ticket = blockedBy held u := by
  obtain ⟨resources, hticket⟩ := s.toPoll.ticket_eq
  rw [h.blockedBy_eq, hticket]
  exact blockedBy_congr held rfl rfl rfl

theorem Starts.notBlocked (h : s.Starts) (hplaced : s.Placed) (hcoherent : s.Coherent) :
    blockedBy s.held s.ticket = none := by
  rcases h.way hplaced with ⟨hu, hid, hblocked, -⟩ | ⟨-, hblocked, -, -⟩
  · rw [blockedBy_ticket (hplaced.sameTicket hcoherent hu hid), hblocked]
  · exact hblocked

/-- **An exclusive ticket starts as the head.** -/
theorem Starts.head_of_exclusive (h : s.Starts) (hplaced : s.Placed) (hcoherent : s.Coherent)
    (hexclusive : s.submitted.exclusive = true) : s.headTicket.id = s.ticket.id := by
  obtain ⟨resources, weight, hticket⟩ := s.ticket_eq_submitted
  obtain ⟨resources', weight', hcapped⟩ := s.toPoll.budgetCapped_eq
  rcases h.way hplaced with ⟨hu, hid, -, hwhere⟩ | ⟨-, -, hnot, -⟩
  · rcases hwhere with hhead | ⟨hnot, -⟩
    · rw [hplaced.head] at hhead
      rw [Option.some.inj (Option.some.inj hhead), hid]
    · have hsame := (hplaced.sameTicket hcoherent hu hid).exclusive
      rw [hnot, hcapped] at hsame
      exact absurd (hsame.trans hexclusive) Bool.false_ne_true
  · rw [hticket] at hnot
    exact absurd (hnot.symm.trans hexclusive) Bool.false_ne_true

theorem exclusiveHolder_eq (h : s.Starts) (hplaced : s.Placed) (hcoherent : s.Coherent) :
    s.exclusiveHolder = s.submitted.exclusive := by
  have hsame : s.headTicket.id = s.ticket.id → s.headTicket.exclusive = s.submitted.exclusive := by
    intro hid
    obtain ⟨resources', weight', hcapped⟩ := s.toPoll.budgetCapped_eq
    have hsame := (hplaced.sameTicket hcoherent hplaced.headTicket_mem hid).exclusive
    rw [hsame, hcapped]
  unfold exclusiveHolder isExclusiveHead
  by_cases hid : s.headTicket.id = s.ticket.id
  · rw [hsame hid, hid, beq_self_eq_true, Bool.and_true]
  · rw [beq_eq_false_iff_ne.2 hid, Bool.and_false]
    cases hexclusive : s.submitted.exclusive with
    | false => rfl
    | true => exact absurd (h.head_of_exclusive hplaced hcoherent hexclusive) hid

theorem exclusiveDeny_eq_none {headTicket ticket : Ticket} {held : List Lease}
    (h : exclusiveDeny headTicket ticket held = none) :
    (∀ l ∈ held, l.exclusive = false) ∧ (isExclusiveHead headTicket ticket = true → held = []) := by
  unfold exclusiveDeny at h
  split_ifs at h with hheld hhead hother hdrained
  · simp only [Bool.not_eq_true, List.any_eq_false] at hheld
    refine ⟨hheld, fun hholder => ?_⟩
    simp only [Bool.not_eq_true'] at hhead
    rw [isExclusiveHead, hhead, Bool.false_and] at hholder
    cases hholder
  · simp only [Bool.not_eq_true, List.any_eq_false] at hheld
    refine ⟨hheld, fun _ => ?_⟩
    simpa using hdrained

/-- What is read of a ticket weighs what it weighs, or the limit. -/
theorem weight_clampQueuedWeight (t : Ticket) (cfg : Config) (host : Host) (capacity : ℚ) :
    (clampQueuedWeight (capElasticClaim t cfg host) cfg capacity).weight = t.weight ∨
      (clampQueuedWeight (capElasticClaim t cfg host) cfg capacity).weight =
        queuedWeightLimit cfg.maxLaneWeight capacity := by
  obtain ⟨g, hg⟩ := onResources_capElasticClaim cfg host
  have hcap : capElasticClaim t cfg host = { t with resources := g t.resources } := hg t
  simp only [clampQueuedWeight, hcap]
  split_ifs
  · exact .inr rfl
  · exact .inl rfl

theorem queuedWeightLimit_nonneg (maxLaneWeight : ℕ) (capacity : ℚ) :
    0 ≤ queuedWeightLimit maxLaneWeight capacity :=
  le_trans zero_le_one (le_max_left _ _)

theorem ticket_weight (s : Turn) : s.ticket.weight = s.submitted.weight ∨
    s.ticket.weight = queuedWeightLimit s.cfg.maxLaneWeight s.weightCapacity := by
  obtain ⟨resources, hticket⟩ := s.toPoll.ticket_eq
  rw [hticket]
  exact weight_clampQueuedWeight _ _ _ _

theorem ticket_weight_nonneg (s : Turn) (h : 0 ≤ s.submitted.weight) : 0 ≤ s.ticket.weight := by
  rcases s.ticket_weight with hweight | hweight
  · rwa [hweight]
  · rw [hweight]
    exact queuedWeightLimit_nonneg _ _

/-- The head weighs no less than nothing. -/
theorem headTicket_weight_nonneg {cfg : Config} {host : Host} {y : Yard} {t : Ticket} {reads : Poll}
    (hy : Sound y) (hpoll : s.toPoll = Yard.pollOf cfg host y t reads) (hplaced : s.Placed) :
    0 ≤ s.headTicket.weight := by
  have hmem := mem_of_mem_firstRun (Poll.mem_firstRun_queue hplaced.headTicket_mem)
  rw [Poll.rawQueue_eq, List.mem_map] at hmem
  obtain ⟨r, hr, hseen⟩ := hmem
  rw [hpoll] at hr
  obtain ⟨u, hu, hsame⟩ := hy.record r (List.mem_append_left _ hr)
  have hrecord : r.ticket.weight = u.weight := hsame.eq _ fun _ => rfl
  rw [(Poll.seen_eq_some hseen).2]
  rcases weight_clampQueuedWeight r.ticket s.cfg s.host s.weightCapacity with hweight | hweight
  · rw [hweight, hrecord]
    exact (hy.copy _ u hu).2.1
  · rw [hweight]
    exact queuedWeightLimit_nonneg _ _

theorem effectiveWeightCapacity_nonneg {cfg : Config} (hcfg : cfg.Valid) (cpuCores : ℚ) :
    0 ≤ effectiveWeightCapacity cfg cpuCores := by
  unfold effectiveWeightCapacity
  cases hcapacity : cfg.capacity with
  | some capacity => exact (hcfg.capacity capacity hcapacity).le
  | none =>
    rw [Option.getD_none]
    exact le_trans zero_le_one (le_max_left _ _)

/-- **A start and its lease.** -/
theorem Starts.begins (h : s.Starts) (hplaced : s.Placed) (hcoherent : s.Coherent)
    (hcfg : s.cfg.Valid) (hvalid : s.submitted.Valid) :
    Begins s.cfg s.host s.held s.submitted s.lease := by
  obtain ⟨resources, weight, hticket⟩ := s.ticket_eq_submitted
  obtain ⟨hnoExclusive, halone⟩ := exclusiveDeny_eq_none h.exclusive
  have hholder := exclusiveHolder_eq h hplaced hcoherent
  have hroom := sameKey_lt_of_blockedBy_eq_none (h.notBlocked hplaced hcoherent)
  have hweight := s.ticket_weight_nonneg hvalid.1
  cases hcase : s.exclusiveHolder with
  | true =>
    have hlease : s.lease.exclusive = true ∧ s.lease.weight = s.weightCapacity := by
      simp [lease, hcase]
    refine
      { id := s.lease_id.trans s.toPoll.ticket_id
        isRunning := by simp [lease, hcase]
        key := by simp [lease, hcase, hticket]
        maxConcurrent := by simp [lease, hcase, hticket]
        pushGate := by simp [lease, hcase, hticket]
        exclusive := by rw [hlease.1, ← hholder, hcase]
        fits := .inl ⟨hlease.1, halone hcase, hlease.2⟩
        weight := ?_
        noExclusive := hnoExclusive
        room := by simpa [lease, hcase] using hroom }
    rw [hlease.2]
    exact effectiveWeightCapacity_nonneg hcfg _
  | false =>
    have hlease : s.lease.exclusive = false ∧ s.lease.weight = s.ticket.weight := by
      simp [lease, hcase]
    have hfits : double.add s.runningWeight s.ticket.weight ≤ s.weightCapacity :=
      h.fits.resolve_left (by simp [hcase])
    exact
      { id := s.lease_id.trans s.toPoll.ticket_id
        isRunning := by simp [lease, hcase]
        key := by simp [lease, hcase, hticket]
        maxConcurrent := by simp [lease, hcase, hticket]
        pushGate := by simp [lease, hcase, hticket]
        exclusive := by rw [hlease.1, ← hholder, hcase]
        fits := .inr ⟨hlease.1, by rw [hlease.2]; exact hfits⟩
        weight := by rw [hlease.2]; exact hweight
        noExclusive := hnoExclusive
        room := by simpa [lease, hcase] using hroom }

end Turn

/-- What a start of a run is. -/
theorem Started.begins {cfg : Config} {host : Host} {s s' : Yard} {t : Ticket} {reads : Poll}
    {grant : Grant} (hs : Sound s) (hcfg : cfg.Valid) (h : Started cfg host s s' t reads grant) :
    Begins cfg host s.held t grant.lease := by
  obtain ⟨u, hpoll, hplaced, hstarts, hcoherent, rfl⟩ := h.turn hs
  obtain ⟨hsubmitted, hu⟩ := Turn.of_pollOf hpoll
  have hvalid : u.submitted.Valid := hsubmitted ▸ (hs.copy t.id t h.copy).2
  have hbegins := hstarts.begins hplaced hcoherent (hu.1 ▸ hcfg) hvalid
  rw [hu.1, hu.2.1, hu.2.2, hsubmitted] at hbegins
  exact hbegins

/-- The held leases behind a start. -/
theorem Started.held {cfg : Config} {host : Host} {s s' : Yard} {t : Ticket} {reads : Poll}
    {grant : Grant} (h : Started cfg host s s' t reads grant)
    (hrunning : grant.lease.state = .running) :
    s'.held = (s.held.filter fun l => l.id != grant.lease.id) ++ [grant.lease] := by
  have hheld : grant.lease.isHeld = true := by simp [Lease.isHeld, hrunning]
  rw [Yard.held, h.leases, Disk.leased, List.filter_append, List.filter_cons_of_pos hheld,
    List.filter_nil, List.filter_comm]
  rfl

/-! ### The bounds -/

/-- **As many leases on a key as their ceilings allow**: of those that ask for at most `n` beside
each other there are at most `n`. -/
def WithinCeilings (held : List Lease) : Prop :=
  ∀ key n, held.countP (fun l => l.key == key && decide (ceilingOf l.maxConcurrent ≤ n)) ≤ n

/-- **The bounds on what is held.** -/
structure Bounded (held : List Lease) : Prop where
  nonneg : ∀ l ∈ held, 0 ≤ l.weight
  ceilings : WithinCeilings held
  alone : ∀ l ∈ held, l.exclusive = true → held.length ≤ 1

section Bounds

variable {cfg : Config} {host : Host} {held held' : List Lease}

/-- A sum of what is not negative is no more of fewer. -/
theorem sum_le_of_subperm {xs ys : List ℚ} (h : xs.Subperm ys) (hys : ∀ y ∈ ys, 0 ≤ y) :
    xs.sum ≤ ys.sum := by
  obtain ⟨zs, hperm, hsub⟩ := h
  rw [← hperm.sum_eq]
  exact hsub.sum_le_sum hys

/-- **Fewer leases are bounded as well.** -/
theorem Bounded.fewer (h : Bounded held)
    (hfewer : (held'.map Lease.core).Subperm (held.map Lease.core)) : Bounded held' := by
  have hmem := exists_core_of_subperm hfewer
  refine ⟨fun l' hl' => ?_, fun key n => ?_, fun l' hl' hexclusive => ?_⟩
  · obtain ⟨l, hl, hcore⟩ := hmem l' hl'
    rw [← Lease.eq_of_core hcore Lease.weight fun _ => rfl]
    exact h.nonneg l hl
  · have hcount := hfewer.countP_le fun l =>
      l.key == key && decide (ceilingOf l.maxConcurrent ≤ n)
    rw [List.countP_map, List.countP_map] at hcount
    exact hcount.trans (h.ceilings key n)
  · obtain ⟨l, hl, hcore⟩ := hmem l' hl'
    have hlength := hfewer.length_le
    rw [List.length_map, List.length_map] at hlength
    rw [← Lease.eq_of_core hcore Lease.exclusive fun _ => rfl] at hexclusive
    exact hlength.trans (h.alone l hl hexclusive)

/-- **A start keeps the bounds.** -/
theorem Bounded.begins (h : Bounded held) {t : Ticket} {lease : Lease}
    (hbegins : Begins cfg host held t lease) :
    Bounded ((held.filter fun l => l.id != lease.id) ++ [lease]) := by
  have hsub : (held.filter fun l => l.id != lease.id).Sublist held := List.filter_sublist
  have hrest : Bounded (held.filter fun l => l.id != lease.id) :=
    h.fewer (hsub.map Lease.core).subperm
  refine ⟨fun l hl => ?_, fun key n => ?_, fun l hl hexclusive => ?_⟩
  · rcases List.mem_append.1 hl with hl | hl
    · exact hrest.nonneg l hl
    · exact List.mem_singleton.1 hl ▸ hbegins.weight
  · rw [List.countP_append, List.countP_singleton]
    have hold := hrest.ceilings key n
    by_cases hcase : lease.key = key ∧ ceilingOf lease.maxConcurrent ≤ n
    · obtain ⟨rfl, hle⟩ := hcase
      -- the leases of the key are fewer than the ceiling of the new one
      have hcount : (held.filter fun l => l.id != lease.id).countP
          (fun l => l.key == lease.key && decide (ceilingOf l.maxConcurrent ≤ n)) ≤
          held.countP fun l => l.key == lease.key :=
        (hsub.countP_le (p := _)).trans
          (List.countP_mono_left fun l _ hl => (Bool.and_eq_true_iff.1 hl).1)
      have hroom := hbegins.room
      rw [← List.countP_eq_length_filter] at hroom
      simp only [beq_self_eq_true, hle, decide_true, Bool.and_true, if_true]
      omega
    · have hnot : (lease.key == key && decide (ceilingOf lease.maxConcurrent ≤ n)) = false := by
        rw [Bool.and_eq_false_iff, beq_eq_false_iff_ne, decide_eq_false_iff_not]
        exact not_and_or.1 hcase
      simpa [hnot] using hold
  · have hnil : held = [] := by
      rcases List.mem_append.1 hl with hl | hl
      · exact absurd (hbegins.noExclusive l (hsub.subset hl)) (by simp [hexclusive])
      · rw [List.mem_singleton.1 hl] at hexclusive
        rcases hbegins.fits with ⟨-, hnil, -⟩ | ⟨hnot, -⟩
        · exact hnil
        · exact absurd (hnot.symm.trans hexclusive) Bool.false_ne_true
    simp [hnil]

theorem bounded_nil : Bounded [] := ⟨by simp, fun _ _ => Nat.zero_le _, by simp⟩

end Bounds

/-- **What is held is bounded in every state that runs reach.** -/
theorem Reached.bounded {cfg : Config} {host : Host} {s : Yard} (hcfg : cfg.Valid)
    (h : Reached cfg host s) : Bounded s.held := by
  have hboth : Sound s ∧ Bounded s.held := by
    refine h.invariant (P := fun s => Sound s ∧ Bounded s.held)
      (fun s hs => ⟨sound_start hs, ?_⟩) fun s a s' hs _ hnext => ⟨sound_step hs.1 hnext, ?_⟩
    · rw [Yard.held, hs.2.1]
      exact bounded_nil
    · rcases lease_step hs.1 hnext with hfewer | ⟨t, reads, io, grant, -, hstarted⟩
      · exact hs.2.fewer hfewer.held
      · have hbegins := hstarted.begins hs.1 hcfg
        rw [hstarted.held hbegins.isRunning]
        exact hs.2.begins hbegins
  exact hboth.2

/-- **The largest ceiling among the leases of a key bounds how many there are.** -/
theorem WithinCeilings.exists_le {held : List Lease} (h : WithinCeilings held) {l : Lease}
    (hl : l ∈ held) : ∃ l' ∈ held, l'.key = l.key ∧
      held.countP (fun other => other.key == l.key) ≤ ceilingOf l'.maxConcurrent := by
  by_contra hnone
  push Not at hnone
  have hpos : 0 < held.countP fun other => other.key == l.key :=
    List.countP_pos_iff.2 ⟨l, hl, beq_self_eq_true _⟩
  -- all ceilings are below the count, so the count is below itself
  have hall := h l.key (held.countP (fun other => other.key == l.key) - 1)
  have heq : held.countP (fun other => other.key == l.key &&
        decide (ceilingOf other.maxConcurrent ≤
          held.countP (fun other => other.key == l.key) - 1)) =
      held.countP fun other => other.key == l.key := by
    refine List.countP_congr fun other hother => ?_
    rw [Bool.and_eq_true, and_iff_left_iff_imp, decide_eq_true_eq]
    intro hkey
    have hlt := hnone other hother (beq_iff_eq.1 hkey)
    omega
  omega

/-- A start, or the write of a lease, is the work of a grant. -/
theorem exists_grant {p : Poll} {io : CommitCall → Answer}
    (h : (∃ lease, (p.tryStart io p.disk).1 = .returned (.started lease)) ∨
      (p.tryStart io p.disk).2.leases ≠ p.disk.leases) : ∃ grant, p.decideTicket = .ok grant := by
  rcases h with ⟨lease, hlease⟩ | hleases
  · exact Poll.decideTicket_of_started (Prod.ext hlease rfl : _ = (_, (p.tryStart io p.disk).2))
  · rcases (tryStart_work p io).2 with hsame | ⟨grant, hgrant, -, -⟩
    · exact absurd hsame hleases
    · exact ⟨grant, hgrant⟩

/-! ### The weights -/

/-- **The weights of some leases fit**: they add up to no more than the capacity in some order. -/
def WeightsFit (cfg : Config) (host : Host) (held : List Lease) : Prop :=
  ∃ order : List ℚ, order.Perm (held.map Lease.weight) ∧
    double.sum order ≤ effectiveWeightCapacity cfg host.cpuCores

section Weights

variable {cfg : Config} {host : Host} {held held' : List Lease}

/-- **The weights of fewer leases fit as well**, in the order in which they fitted. -/
theorem WeightsFit.fewer (h : WeightsFit cfg host held) (hnonneg : ∀ l ∈ held, 0 ≤ l.weight)
    (hfewer : (held'.map Lease.core).Subperm (held.map Lease.core)) :
    WeightsFit cfg host held' := by
  have hweights : (held'.map Lease.weight).Subperm (held.map Lease.weight) := by
    obtain ⟨cores, hperm, hsub⟩ := hfewer
    have hperm' := hperm.map Lease.weight
    have hsub' := hsub.map Lease.weight
    rw [List.map_map] at hperm' hsub'
    exact ⟨_, hperm', hsub'⟩
  obtain ⟨order, hperm, hfits⟩ := h
  obtain ⟨order', hperm', hsub⟩ := hweights.trans hperm.symm.subperm
  refine ⟨order', hperm', (Format.sum_le_of_sublist (by decide) hsub fun w hw => ?_).trans hfits⟩
  obtain ⟨l, hl, rfl⟩ := List.mem_map.1 (hperm.subset hw)
  exact hnonneg l hl

/-- **A start keeps the weights within the capacity**: they fit in the order in which they were
listed, the new one at the end. -/
theorem weightsFit_begins (hnonneg : ∀ l ∈ held, 0 ≤ l.weight)
    (hcapacity : double.round (effectiveWeightCapacity cfg host.cpuCores) =
      effectiveWeightCapacity cfg host.cpuCores)
    {t : Ticket} {lease : Lease} (hbegins : Begins cfg host held t lease) :
    WeightsFit cfg host ((held.filter fun l => l.id != lease.id) ++ [lease]) := by
  have hsub : (held.filter fun l => l.id != lease.id).Sublist held := List.filter_sublist
  refine ⟨_, List.Perm.refl _, ?_⟩
  rcases hbegins.fits with ⟨-, rfl, hweight⟩ | ⟨-, hfits⟩
  · simp [hweight, hcapacity]
  · rw [← Format.sum_concat] at hfits
    rw [List.map_append, List.map_singleton]
    refine (Format.sum_le_of_sublist (by decide)
      ((hsub.map Lease.weight).append (List.Sublist.refl _)) fun w hw => ?_).trans hfits
    rcases List.mem_append.1 hw with hw | hw
    · obtain ⟨l, hl, rfl⟩ := List.mem_map.1 hw
      exact hnonneg l hl
    · rw [List.mem_singleton.1 hw]
      exact hbegins.weight

/-- Where no bit is lost the weights that fit add up to no more than the capacity. -/
theorem WeightsFit.sum_le (h : WeightsFit cfg host held) (hnonneg : ∀ l ∈ held, 0 ≤ l.weight)
    {k : ℤ} (hk : double.least ≤ k)
    (hcapacity : effectiveWeightCapacity cfg host.cpuCores < 2 ^ (k + double.bits))
    (hmultiple : ∀ l ∈ held, Format.Multiple k l.weight) :
    (held.map Lease.weight).sum ≤ effectiveWeightCapacity cfg host.cpuCores := by
  obtain ⟨order, hperm, hfits⟩ := h
  rw [← hperm.sum_eq, ← Format.sum_le_iff (by decide) hk (fun w hw => ?_) hcapacity]
  · exact hfits
  · obtain ⟨l, hl, rfl⟩ := List.mem_map.1 (hperm.subset hw)
    exact ⟨hnonneg l hl, hmultiple l hl⟩

end Weights

/-- **The weights fit in every state that runs reach**, if the capacity is a double. -/
theorem Reached.weightsFit {cfg : Config} {host : Host} {s : Yard} (h : Reached cfg host s)
    (hcfg : cfg.Valid)
    (hcapacity : double.round (effectiveWeightCapacity cfg host.cpuCores) =
      effectiveWeightCapacity cfg host.cpuCores) : WeightsFit cfg host s.held := by
  have hall : Sound s ∧ Bounded s.held ∧ WeightsFit cfg host s.held := by
    refine h.invariant (P := fun s => Sound s ∧ Bounded s.held ∧ WeightsFit cfg host s.held)
      (fun s hs => ?_) fun s a s' hs _ hnext => ?_
    · have hheld : s.held = [] := by rw [Yard.held, hs.2.1]; rfl
      rw [hheld]
      exact ⟨sound_start hs, bounded_nil, [], List.Perm.refl _,
        Turn.effectiveWeightCapacity_nonneg hcfg _⟩
    · obtain ⟨hsound, hbounded, hfit⟩ := hs
      rcases lease_step hsound hnext with hfewer | ⟨t, reads, io, grant, -, hstarted⟩
      · exact ⟨sound_step hsound hnext, hbounded.fewer hfewer.held,
          hfit.fewer hbounded.nonneg hfewer.held⟩
      · have hbegins := hstarted.begins hsound hcfg
        rw [hstarted.held hbegins.isRunning]
        exact ⟨sound_step hsound hnext, hbounded.begins hbegins,
          weightsFit_begins hbounded.nonneg hcapacity hbegins⟩
  exact hall.2.2

/-- **The bounds on what is held**, in every state that runs reach: the weights fit the capacity, a
double, as doubles are added in some order, and exactly where they are multiples of one power of two
beside which a double can hold the capacity; no key is held more often than the largest ceiling among its
leases, an exclusive lease is the only one, and an exclusive ticket starts as the effective head
only. -/
theorem held_bounded {cfg : Config} {host : Host} {s : Yard} (hcfg : cfg.Valid)
    (hcapacity : double.round (effectiveWeightCapacity cfg host.cpuCores) =
      effectiveWeightCapacity cfg host.cpuCores)
    (h : Reached cfg host s) :
    (∃ order : List ℚ, order.Perm (s.held.map Lease.weight) ∧
        double.sum order ≤ effectiveWeightCapacity cfg host.cpuCores) ∧
      (∀ k, double.least ≤ k →
        effectiveWeightCapacity cfg host.cpuCores < 2 ^ (k + double.bits) →
        (∀ l ∈ s.held, Format.Multiple k l.weight) →
        (s.held.map Lease.weight).sum ≤ effectiveWeightCapacity cfg host.cpuCores) ∧
      (∀ l ∈ s.held, ∃ l' ∈ s.held, l'.key = l.key ∧
        s.held.countP (fun other => other.key == l.key) ≤ ceilingOf l'.maxConcurrent) ∧
      (∀ l ∈ s.held, l.exclusive = true → s.held = [l]) ∧
      ∀ (t : Ticket) (reads : Poll) (io : CommitCall → Answer), s.copies t.id = some t →
        t.exclusive = true →
        ((∃ lease, ((Yard.pollOf cfg host s t reads).tryStart io s.disk).1 =
            .returned (.started lease)) ∨
          ((Yard.pollOf cfg host s t reads).tryStart io s.disk).2.leases ≠ s.disk.leases) →
        ∃ head, (Yard.pollOf cfg host s t reads).queue.head? = some (some head) ∧
          head.id = t.id := by
  have hbounded := h.bounded hcfg
  have hfit := h.weightsFit hcfg hcapacity
  refine ⟨hfit, fun k hk hlt => hfit.sum_le hbounded.nonneg hk hlt,
    fun l hl => hbounded.ceilings.exists_le hl, fun l hl hexclusive => ?_,
    fun t reads io ht hexclusive hstarted => ?_⟩
  · have hlength := hbounded.alone l hl hexclusive
    obtain ⟨l', hl'⟩ := List.length_eq_one_iff.1
      (le_antisymm hlength (List.length_pos_of_mem hl))
    rw [hl', List.mem_singleton] at hl
    rw [hl', hl]
  · obtain ⟨grant, hgrant⟩ := exists_grant (p := Yard.pollOf cfg host s t reads) hstarted
    obtain ⟨u, -, hpoll, hplaced, hstarts, -⟩ := Poll.starts_of_decideTicket hgrant
    have hsubmitted := (Turn.of_pollOf hpoll).1
    have hcoherent : u.Coherent := hpoll ▸ h.sound.coherent ht
    refine ⟨u.headTicket, hpoll ▸ hplaced.head, ?_⟩
    rw [hstarts.head_of_exclusive hplaced hcoherent (hsubmitted ▸ hexclusive), u.toPoll.ticket_id,
      hsubmitted]

theorem config_valid_default : Config.Valid {} := ⟨fun _ h => (by cases h), by decide +kernel⟩

/-- The doubles nearest to 2.2 and to 2.6. -/
def doubles : ℚ × ℚ := (2476979795053773 / 2 ^ 50, 5854679515581645 / 2 ^ 51)

/-- A capacity of seven. -/
def capacitySeven : Config := { capacity := some 7 }

/-- A reading of a host where nothing else runs. -/
def idleAt (now : ℤ) : Poll :=
  { aloneInQueue with
    now
    later := now
    nowEff := now
    cpuSample := some { hostBusyCores := some 0, cores := 10 } }

/-- Three tickets of three lanes come in one after another, and start. -/
def threeStarts : List Act :=
  [(1, doubles.1), (2, doubles.1), (3, doubles.2)].flatMap fun (id, weight) =>
    let ticket : Ticket := { id, seq := id, key := id, weight }
    [.enqueue ticket { ticket } 0, .poll id (idleAt (id * 1000000)) fun _ => .ok]

theorem valid_capacitySeven : capacitySeven.Valid where
  capacity capacity h := by
    obtain rfl := Option.some.inj h
    norm_num
  memory := by decide +kernel

theorem threeStarts_reached : ∃ s, Reached capacitySeven aloneInQueue.host s ∧
    decide (s.held.length = 3 ∧ (∀ l ∈ s.held, double.round l.weight = l.weight) ∧
      7 < (s.held.map Lease.weight).sum) = true :=
  (yard capacitySeven aloneInQueue.host).exists_reach_of_exec {} threeStarts _
    ⟨rfl, rfl, rfl, rfl⟩ (Machine.along_of_forall (fun _ _ => trivial) _ _) (by decide +kernel)

theorem held_bounded_threeStarts : ∃ s : Yard, s.held.length = 3 ∧
    ∃ order : List ℚ, order.Perm (s.held.map Lease.weight) ∧
      double.sum order ≤ effectiveWeightCapacity capacitySeven aloneInQueue.host.cpuCores := by
  obtain ⟨s, hs, hsum⟩ := threeStarts_reached
  exact ⟨s, (of_decide_eq_true hsum).1,
    (held_bounded valid_capacitySeven (by decide +kernel) hs).1⟩

/-- **The held leases weigh more than the capacity**: 2.2, 2.2 and 2.6 are doubles that add up to 7
when they are rounded, and to more when they are not. -/
theorem held_overweight : ∃ (cfg : Config) (host : Host) (s : Yard), cfg.Valid ∧
    Reached cfg host s ∧ (∀ l ∈ s.held, double.round l.weight = l.weight) ∧
    effectiveWeightCapacity cfg host.cpuCores < (s.held.map Lease.weight).sum := by
  obtain ⟨s, hs, hsum⟩ := threeStarts_reached
  exact ⟨_, _, s, valid_capacitySeven, hs, (of_decide_eq_true hsum).2⟩

end Scheduler
end LaneBroker
