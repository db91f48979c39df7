/-
# Who may start past whom

Two barriers in front of a start.  A record that cannot be read holds back every ticket behind it,
on every way to a start (`denied_behind_unreadable`).  A readable head that is no sim holds back
every sim but a safe backfill (`simStart_iff`).

The second one comes with a promise about the claim of that backfill: its CPU is judged with the
claim of the head reserved, and no held lease is discounted, since the head would see these leases
in full.  The source withholds the discount by not naming the tier of the ticket, but the ticket it
withholds it from is the copy of the supervisor, which carries a tier of its own, the one that
`run.js` writes.  So the discount is given wherever that tier outranks a held lease.
-/

import LaneBroker.Scheduler.Starts

namespace LaneBroker
namespace Scheduler

open LaneBroker.Basis LaneBroker.Basis.Barrier

/-! ### Unreadable records -/

namespace Poll

/-- **No ticket starts from behind an unreadable record**: with one anywhere ahead of its place in
the queue directory a ticket is denied, whatever the settings, the store and the host are, and but
for the skip records nothing changes. -/
theorem denied_behind_unreadable (p : Poll) (io : CommitCall → Answer) {i j : ℕ} {r : QueueRecord}
    (hplace : p.disk.queue.findIdx? (isRecordOf p.submitted.id) = some i) (hahead : j < i)
    (hr : p.disk.queue[j]? = some r) (hunreadable : ¬ p.Readable r) :
    ∃ denial store, p.tryStart io p.disk = (.returned (.denied denial), { p.disk with store }) := by
  cases hdecide : p.decideTicket with
  | error denial => exact ⟨denial.1, denial.2, tryStart_of_error hdecide io p.disk⟩
  | ok grant =>
    obtain ⟨pre, r', post, hqueue, hid, -, hpre⟩ := readable_of_decideTicket hdecide
    obtain ⟨hlt, -, hbefore⟩ := List.findIdx?_eq_some_iff_getElem.1 hplace
    -- the record that was walked is not ahead of the first of its name
    have hle : i ≤ pre.length := by
      by_contra hgt
      refine hbefore pre.length (by omega) ?_
      simp [hqueue, isRecordOf, hid]
    have hmem : r ∈ pre := by
      rw [hqueue, List.getElem?_append_left (by omega)] at hr
      exact List.mem_of_getElem? hr
    exact absurd (hpre r hmem) hunreadable

/-- Two records, of which the first is damaged; the second ticket asks. -/
def damagedHead : Poll :=
  { cfg := {}
    host := { cpuCores := 10, memoryBytes := 34359738368 }
    disk := { queue := [{ ticket := { id := 1 }, readable := false }, { ticket := { id := 2 } }] }
    submitted := { id := 2 }
    now := 0 }

theorem denied_behind_unreadable_damagedHead : ∃ denial store,
    damagedHead.tryStart (fun _ => .ok) damagedHead.disk =
      (.returned (.denied denial), { damagedHead.disk with store }) :=
  denied_behind_unreadable damagedHead (fun _ => .ok) (i := 1) (j := 0)
    (r := { ticket := { id := 1 }, readable := false }) rfl (by decide) rfl
    fun h => Bool.false_ne_true h.1

end Poll

/-! ### Sims behind a test -/

namespace Turn

variable {s : Turn}

/-- The CPU budget of the sample, where there is one. -/
def sampleBudget (s : Turn) : Option ℚ :=
  ((s.cpuSample.filter fun sample => !sample.stale).bind fun sample =>
    sample.hostBusyCores.map fun _ => sample).map fun sample => cpuBudget sample s.cfg

/-- What a lease is charged for ahead of any discount. -/
def demandOf (s : Turn) (l : Lease) : ℚ := leaseDemand s.history l s.later s.cfg s.sampleBudget

/-- **No preemption discount**: every lease that admission counts is charged in full. -/
def ChargedInFull (s : Turn) : Prop :=
  ∀ l ∈ s.admissionHeld,
    leaseCharge l (s.demandOf l) (candidatePriorityOf s.admissionTicket) s.cfg = s.demandOf l

/-- **A safe backfill, as its comments describe it**: the setting is on, only readable records are
ahead, the head cannot be delayed, and in active mode the claim was admitted with the claim of the
head reserved and without a discount. -/
structure SafeBackfilled (s : Turn) : Prop where
  enabled : s.cfg.conflictSafeBackfill = true
  safe : s.safeBackfill = true
  notBypass : s.headBypass = false
  notLifted : s.lifted = false
  ahead : none ∉ s.queueAhead
  cannotDelay : s.cannotDelayHead s.ticket = true
  admitted : s.cfg.schedulerMode = .active → s.cpuDecision.admits = true
  reserved : s.admissionHeld = s.held ++ [headReservationOf s.headTicket]
  inFull : s.cfg.schedulerMode = .active → s.ChargedInFull

/-- **The copy of the supervisor outranks a held lease**: it says a tier, and at that tier, and at
the nice it will run at, the kernel runs a held lease behind it that is charged for something. -/
def Outranks (s : Turn) : Prop :=
  ∃ tier, s.submitted.priorityAdmitted = some tier ∧ 0 < s.cfg.preemptibleNiceMin ∧
    ∃ l ∈ s.held,
      outranked l
        { nice := effectiveNice
            (resolveLaneNice s.submitted (priorityOf s.record.priorityAdmitted) s.cfg) s.currentNice
          tier } s.cfg = true ∧
      s.cfg.preemptibleShare * s.demandOf l ≠ 0

theorem ticket_priorityAdmitted (s : Turn) :
    s.ticket.priorityAdmitted = s.submitted.priorityAdmitted := by
  obtain ⟨resources, h⟩ := s.toPoll.ticket_eq
  obtain ⟨resources', weight, h'⟩ := s.toPoll.budgetCapped_eq
  rw [h, h']

theorem budgetCapped_laneClass (s : Turn) : s.budgetCapped.laneClass = s.submitted.laneClass := by
  obtain ⟨resources, weight, h⟩ := s.toPoll.budgetCapped_eq
  rw [h]

theorem ticket_laneClass (s : Turn) : s.ticket.laneClass = s.submitted.laneClass := by
  obtain ⟨resources, h⟩ := s.toPoll.ticket_eq
  rw [h, ← budgetCapped_laneClass]

theorem startNice_eq (s : Turn) :
    s.startNice = effectiveNice
      (resolveLaneNice s.submitted (priorityOf s.record.priorityAdmitted) s.cfg) s.currentNice := by
  obtain ⟨resources, h⟩ := s.toPoll.ticket_eq
  obtain ⟨resources', weight, h'⟩ := s.toPoll.budgetCapped_eq
  unfold startNice admittedTier resolveLaneNice
  rw [h, h']

/-- When a charge is the whole demand. -/
theorem leaseCharge_eq_self_iff (l : Lease) (demand : ℚ) (candidate : CandidatePriority)
    (cfg : Config) :
    leaseCharge l demand (some candidate) cfg = demand ↔
      ¬ (0 < cfg.preemptibleNiceMin ∧ outranked l candidate cfg = true ∧
        cfg.preemptibleShare * demand ≠ 0) := by
  unfold leaseCharge
  by_cases hnice : 0 < cfg.preemptibleNiceMin
  · cases hrank : outranked l candidate cfg with
    | false => simp [hnice, hrank]
    | true =>
      simp only [hnice, decide_true, Bool.not_true, Bool.false_eq_true, if_false, hrank, if_true,
        true_and, not_not]
      constructor
      · intro h
        linarith
      · intro h
        linarith
  · simp [hnice]

theorem headReservationOf_not_outranked (headTicket : Ticket) (candidate : CandidatePriority)
    (cfg : Config) : outranked (headReservationOf headTicket) candidate cfg = false := by
  rw [outranked]
  rfl

/-- **Where the head's claim is reserved**, the leases are charged in full unless the copy of the
supervisor outranks one. -/
theorem chargedInFull_iff (hsafe : s.safeBackfill = true) : s.ChargedInFull ↔ ¬ s.Outranks := by
  have hreserves : s.reservesHead = true := by simp [reservesHead, hsafe]
  have hpolling : s.headPolling = false := (safeBackfill_iff.1 hsafe).2.1
  have htier : s.admissionTicket.priorityAdmitted = s.submitted.priorityAdmitted := by
    simp [admissionTicket, protectingHead, hreserves, hpolling, ticket_priorityAdmitted]
  have hnice : s.admissionTicket.nice = some s.startNice := rfl
  unfold ChargedInFull admissionHeld candidatePriorityOf Outranks
  rw [htier, hnice, ← startNice_eq]
  simp only [hreserves, if_true, List.forall_mem_append]
  cases s.submitted.priorityAdmitted with
  | none => simp [leaseCharge]
  | some tier =>
    simp only [leaseCharge_eq_self_iff, List.mem_singleton, forall_eq,
      headReservationOf_not_outranked, Bool.false_eq_true, false_and, and_false, not_false_eq_true,
      and_true, Option.some.injEq]
    constructor
    · rintro h ⟨_, rfl, hmin, l, hl, hrank⟩
      exact h l hl ⟨hmin, hrank⟩
    · rintro h l hl ⟨hmin, hrank⟩
      exact h ⟨tier, rfl, hmin, l, hl, hrank⟩

/-- **A sim that starts behind a test is a safe backfill.** -/
theorem safeBackfill_of_sim (hplaced : s.Placed) (hcoherent : s.Coherent) (hstarts : s.Starts)
    (hhead : s.headTicket.laneClass ≠ .sim) (hsim : s.submitted.laneClass = .sim) :
    s.safeBackfill = true := by
  have hbehind : s.simHoldsBack = true := by simp [simHoldsBack, hhead]
  have hclass : ∀ u ∈ firstRun s.queue, u.id = s.ticket.id → u.laneClass = .sim := by
    intro u hu hid
    rw [← hsim, ← budgetCapped_laneClass]
    exact (hplaced.sameTicket hcoherent hu hid).laneClass
  rcases hstarts.way hplaced with ⟨hu, hid, -, hwhere⟩ | ⟨-, -, -, hkind⟩
  · have hu' := hclass _ hu hid
    rcases hwhere with hfirst | ⟨-, hother⟩
    · rw [hplaced.head] at hfirst
      rw [← Option.some.inj (Option.some.inj hfirst)] at hu'
      exact absurd hu' hhead
    · exact absurd hu' (hother hbehind)
  · rcases hkind with hsafe | hnot
    · exact hsafe
    · simp [simBehindTest, hbehind, ticket_laneClass, hsim] at hnot

/-- Nothing but the backfill has brought it about. -/
theorem safeBackfilled_iff (hplaced : s.Placed) (hcoherent : s.Coherent) (hstarts : s.Starts)
    (hhead : s.headTicket.laneClass ≠ .sim) (hsim : s.submitted.laneClass = .sim) :
    s.SafeBackfilled ↔ (s.cfg.schedulerMode = .active → s.ChargedInFull) := by
  have hsafe := safeBackfill_of_sim hplaced hcoherent hstarts hhead hsim
  obtain ⟨hkind, hpolling, hahead, hdelay⟩ := safeBackfill_iff.1 hsafe
  have hrecord : s.record.laneClass = .sim := by
    have hmem := hplaced.record_mem_firstRun hahead
    rw [← hsim, ← budgetCapped_laneClass]
    exact (hplaced.sameTicket hcoherent hmem hplaced.record_id).laneClass
  have hlifted : s.lifted = false := by
    simp [lifted, floorAdmit, floorTrial, isFloorTicket, hrecord, bypassAdmit, bypassTrial,
      ticket_laneClass, hsim]
  have hbypass : s.headBypass = false := by
    simp [headBypass, expressAdmit, expressEligible, priorityYield, priorityYieldEligible, hsafe]
  refine ⟨fun h => h.inFull, fun h => ⟨?_, hsafe, hbypass, hlifted, readableAhead_iff.1 hahead,
    hdelay, ?_, ?_, h⟩⟩
  · rcases hkind with henabled | heligible
    · rw [safeBackfillEnabled, Bool.and_eq_true] at henabled
      exact henabled.2
    · simp only [simEligibleForSafeBackfill, Bool.and_eq_true] at heligible
      exact heligible.1.2
  · intro hmode
    have hidle : s.idleExempt = false := by simp [idleExempt, hpolling]
    have hholder : s.exclusiveHolder = false := by
      rw [headPolling, Bool.beq_comm] at hpolling
      rw [exclusiveHolder, isExclusiveHead, hpolling, Bool.and_false]
    simpa [hidle, hlifted, hholder] using hstarts.admitted hmode
  · simp [admissionHeld, reservesHead, hsafe]

end Turn

/-- **A sim that starts behind a readable test**: it is a safe backfill, with the claim of the head
reserved, and its own admission was without a discount exactly where the copy of the supervisor does
not outrank a held lease. -/
theorem simStart_iff {p : Poll} {s : Turn} {io : CommitCall → Answer} {d' : Disk} {lease : Lease}
    (hcoherent : p.Coherent) (hturn : p.turn = .ok s) (hhead : s.headTicket.laneClass ≠ .sim)
    (hsim : p.submitted.laneClass = .sim)
    (hstarted : p.tryStart io p.disk = (.returned (.started lease), d')) :
    s.SafeBackfilled ↔ (p.cfg.schedulerMode = .active → ¬ s.Outranks) := by
  obtain ⟨grant, hgrant⟩ := Poll.decideTicket_of_started hstarted
  obtain ⟨s', hturn', rfl, hplaced, hstarts, -⟩ := Poll.starts_of_decideTicket hgrant
  obtain rfl := Except.ok.inj (hturn.symm.trans hturn')
  have hsafe := Turn.safeBackfill_of_sim hplaced hcoherent hstarts hhead hsim
  rw [Turn.safeBackfilled_iff hplaced hcoherent hstarts hhead hsim, Turn.chargedInFull_iff hsafe]

/-- A turn is its poll, the head, and the place and the record of the ticket. -/
theorem Poll.turn_eq_of {s : Turn}
    (h : (s.toPoll.turn.toOption.map fun t => (t.headTicket, t.position, t.record)) =
      some (s.headTicket, s.position, s.record)) : s.toPoll.turn = .ok s := by
  cases hturn : s.toPoll.turn with
  | error denial => simp [hturn, Except.toOption] at h
  | ok t =>
    obtain ⟨hpoll, -⟩ := turn_eq_ok hturn
    simp only [hturn, Except.toOption, Option.map_some, Option.some.injEq, Prod.mk.injEq] at h
    obtain ⟨_, headTicket, position, record⟩ := t
    simp only at hpoll h
    obtain ⟨rfl, rfl, rfl⟩ := h
    subst hpoll
    rfl

/-- A test waits for a lease that it conflicts with, and a sim asks behind it.  The lease is one of
a low tier, the sim one of a high tier; with the lease charged in full there is no room for the
claims of both. -/
def highSim : Turn :=
  { cfg := {}
    host := { cpuCores := 10, memoryBytes := 34359738368 }
    disk :=
      { queue :=
          [{ ticket := { id := 1, key := 1, conflicts := [3], priorityAdmitted := some .high } },
            { ticket :=
                { id := 2, seq := 1, key := 2, laneClass := .sim, priorityAdmitted := some .high } }]
        leases :=
          [{ id := 3, key := 3, weight := 6, priorityAdmitted := some .low, nice := some 10 }] }
    submitted := { id := 2, key := 2, laneClass := .sim, priorityAdmitted := some .high }
    now := 0
    cpuSample := some { hostBusyCores := some 0, cores := 10 }
    headTicket := { id := 1, key := 1, conflicts := [3], priorityAdmitted := some .high }
    position := 1
    record := { id := 2, seq := 1, key := 2, laneClass := .sim, priorityAdmitted := some .high } }

theorem highSim_turn : highSim.toPoll.turn = .ok highSim := Poll.turn_eq_of (by decide +kernel)

theorem highSim_coherent : highSim.Coherent := by
  intro r hr hid
  simp only [highSim, List.mem_cons, List.not_mem_nil, or_false] at hr hid
  rcases hr with rfl | rfl
  · simp at hid
  · rfl

theorem highSim_started : ∃ d', highSim.tryStart (fun _ => .ok) highSim.disk =
    (.returned (.started highSim.lease), d') := by
  refine ⟨_, Prod.ext (?_ : _ = Ending.returned (Verdict.started highSim.lease)) rfl⟩
  decide +kernel

theorem simStart_iff_highSim :
    highSim.SafeBackfilled ↔ (highSim.cfg.schedulerMode = .active → ¬ highSim.Outranks) := by
  obtain ⟨d', hstarted⟩ := highSim_started
  exact simStart_iff highSim_coherent highSim_turn (by decide) rfl hstarted

/-- **It starts on a discount**: charged in full, the lease leaves no room for the head. -/
theorem highSim_outranks : highSim.Outranks := by
  refine ⟨.high, rfl, by decide, _, List.mem_filter.2 ⟨List.mem_singleton_self _, rfl⟩, rfl, ?_⟩
  decide +kernel

/-- **Not every sim behind a test starts without a discount.** -/
theorem not_forall_safeBackfilled :
    ∃ (s : Turn) (io : CommitCall → Answer) (d' : Disk) (lease : Lease),
    s.Coherent ∧ s.toPoll.turn = .ok s ∧ s.headTicket.laneClass ≠ .sim ∧
      s.submitted.laneClass = .sim ∧
      s.tryStart io s.disk = (.returned (.started lease), d') ∧ ¬ s.SafeBackfilled := by
  obtain ⟨d', hstarted⟩ := highSim_started
  refine ⟨highSim, _, d', _, highSim_coherent, highSim_turn, by decide, rfl, hstarted, fun h => ?_⟩
  have hsafe := h.safe
  exact (Turn.chargedInFull_iff hsafe).1 (h.inFull rfl) highSim_outranks

end Scheduler
end LaneBroker
