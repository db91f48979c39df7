/-
# Who may go instead of the head

The walks of `scheduler.js` over the queue (`selectCandidate`, `selectCapacityCandidate`,
`selectResourceCandidate`, `floorWinner`) and the exclusive rules of `exclusive.js`.  Each walk
ends at a record it cannot read, so what it returns stands ahead of every such record.
-/

import LaneBroker.Scheduler.Fairness

namespace LaneBroker
namespace Scheduler

open LaneBroker.Basis LaneBroker.Basis.Barrier

/-! ### Exclusive tickets -/

inductive ExclusiveReason
  | held
  | head
  | draining
  deriving DecidableEq, Repr

/-- `exclusiveDeny`, where the head is readable. -/
def exclusiveDeny (headTicket ticket : Ticket) (held : List Lease) : Option ExclusiveReason :=
  if held.any Lease.exclusive then some .held
  else if !headTicket.exclusive then none
  else if ticket.id ≠ headTicket.id then some .head
  else if !held.isEmpty then some .draining
  else none

/-- `isExclusiveHead`. -/
def isExclusiveHead (headTicket ticket : Ticket) : Bool :=
  headTicket.exclusive && headTicket.id == ticket.id

/-- A queue without some of the tickets behind its head: the head and every barrier stay. -/
def keepBehindHead (keep : Ticket → Bool) : List (Option Ticket) → List (Option Ticket)
  | [] => []
  | head :: rest => head :: rest.filter fun t => t.all keep

/-- `withoutBackfillExclusives`. -/
def withoutBackfillExclusives (queue : List (Option Ticket)) : List (Option Ticket) :=
  keepBehindHead (fun t => !t.exclusive) queue

/-! ### The walks -/

/-- **`selectCandidate`.** -/
def selectCandidate (held : List Lease) : List (Option Ticket) → Option Ticket
  | some t :: rest => if (blockedBy held t).isNone then some t else selectCandidate held rest
  | _ => none

/-- **`selectCapacityCandidate`.** -/
def selectCapacityCandidate (held : List Lease) (runningWeight capacity : ℚ) :
    List (Option Ticket) → Option Ticket
  | some t :: rest =>
    if (blockedBy held t).isSome then selectCapacityCandidate held runningWeight capacity rest
    else if double.add runningWeight t.weight ≤ capacity then some t
    else selectCapacityCandidate held runningWeight capacity rest
  | _ => none

/-- The head's claim as a held lease. -/
def headReservationOf (headTicket : Ticket) : Lease :=
  { id := headTicket.id
    key := headTicket.key
    weight := headTicket.weight
    resources := headTicket.resources
    workload := headTicket.workload }

/-- Neither ticket would hold up the other. -/
def apart (headTicket t : Ticket) : Bool :=
  (blockedBy [keyHolder t.key] headTicket).isNone && (blockedBy [keyHolder headTicket.key] t).isNone

/-- What `selectResourceCandidate` compares a ticket by, `none` for one that it skips. -/
def resourceClaim (history : History) (headTicket : Ticket) (held : List Lease)
    (runningWeight weightCapacity : ℚ) (record : ResourceRecord) (cfg : Config) (now : ℤ)
    (headReserved : Bool) (t : Ticket) : Option ℚ :=
  let view := if headReserved then held ++ [headReservationOf headTicket] else held
  let viewWeight :=
    if headReserved then double.add runningWeight headTicket.weight else runningWeight
  let budget := record.budget.getD 0
  let externalBusy := record.externalBusy.getD 0
  if (blockedBy held t).isSome then none
  else if weightCapacity < double.add viewWeight t.weight then none
  else if (if headReserved then !apart headTicket t
      else (blockedBy (held ++ [keyHolder t.key]) headTicket).isSome) then none
  else
    let claim := ticketCpuFloor history t cfg (some budget) held
      (some (budget - projectBusy history externalBusy view 0 now cfg (some budget) none))
    if budget < projectBusy history externalBusy view claim now cfg (some budget) none then none
    else if record.memInfo.any fun memInfo =>
        !(evaluateMemoryAdmission { availableBytes := some memInfo.1, totalBytes := some memInfo.2 }
          view (ticketResources t cfg).memoryBytes cfg now).admits then none
    else some claim

/-- The loop for the smallest claim. -/
def smallestClaim (claimOf : Ticket → Option ℚ) :
    Option (Ticket × ℚ) → List (Option Ticket) → Option (Ticket × ℚ)
  | best, some t :: rest =>
    match claimOf t with
    | none => smallestClaim claimOf best rest
    | some claim =>
      smallestClaim claimOf (if best.all fun b => claim < b.2 then some (t, claim) else best) rest
  | best, _ => best

/-- **`selectResourceCandidate`.** -/
def selectResourceCandidate (history : History) (queue : List (Option Ticket)) (held : List Lease)
    (runningWeight weightCapacity : ℚ) (record : ResourceRecord) (cfg : Config) (now : ℤ)
    (headReserved : Bool) : Option Ticket :=
  match queue with
  | some headTicket :: rest =>
    (smallestClaim (resourceClaim history headTicket held runningWeight weightCapacity record cfg
      now headReserved) none rest).map Prod.fst
  | _ => none

/-! ### The floor slot -/

/-- `isFloorTicket`. -/
def isFloorTicket (t : Ticket) : Bool :=
  t.pushGate.isSome && !t.remote && !t.localReason && t.laneClass ≠ .sim && !t.exclusive

/-- What `floorWinner` decides over, the same for every ticket. -/
structure FloorInputs where
  held : List Lease
  cpuSample : Option CpuSample
  memInfo : Option MemInfo
  gateClosed : Bool
  loadGateClosed : Bool
  weightCapacity : ℚ
  runningWeight : ℚ

section Floor

variable (history : History) (cfg : Config) (host : Host) (inputs : FloorInputs) (now : ℤ)

/-- `runnable`. -/
def runnable (t : Ticket) : Bool :=
  (blockedBy inputs.held t).isNone &&
    decide (double.add inputs.runningWeight t.weight ≤ inputs.weightCapacity) &&
    !elasticBelowFloor t cfg host

/-- `decide`. -/
def floorDecision (t : Ticket) (closed : Bool) : Decision :=
  decideAdmission history cfg t inputs.held inputs.cpuSample inputs.memInfo closed
    (cooldownActive inputs.held cfg now) now

/-- `withinOvershoot`. -/
def withinOvershoot (decision : Decision) : Bool :=
  decision.memoryReason = .ok && decision.cpuReason ≠ .cooldown &&
    (decision.admits || decision.load.any fun load =>
      load.projectedBusy - load.budget ≤ cfg.floorOvershootCores)

/-- `headStarts`. -/
def headStarts (head : Ticket) : Bool :=
  let headDecision := floorDecision history cfg inputs now head inputs.gateClosed
  runnable cfg host inputs head &&
    (headDecision.admits ||
      (evaluateElasticAdmission history cfg head inputs.held inputs.cpuSample inputs.memInfo
        headDecision now).isSome ||
      (inputs.held.isEmpty && headDecision.cpuReason = .projectedOverBudget &&
        withinOvershoot cfg headDecision))

/-- The last loop. -/
def floorWalk : List (Option Ticket) → Option Ticket
  | some t :: rest =>
    if t.exclusive then none
    else if isFloorTicket t && runnable cfg host inputs t &&
        withinOvershoot cfg (floorDecision history cfg inputs now t false) then some t
    else floorWalk rest
  | _ => none

/-- **`floorWinner`.** -/
def floorWinner (queue : List (Option Ticket)) : Option Ticket :=
  if inputs.memInfo.any MemInfo.critical ||
      (cfg.admissionLoadGate && inputs.loadGateClosed && !inputs.held.isEmpty) then none
  else
    match queue with
    | some head :: _ =>
      if headStarts history cfg host inputs now head then none
      else floorWalk history cfg host inputs now queue
    | _ => none

end Floor

/-! ### What a walk returns -/

section Walks

variable {held : List Lease} {queue : List (Option Ticket)} {t : Ticket}

theorem selectCandidate_eq (held : List Lease) (queue : List (Option Ticket)) :
    selectCandidate held queue = (firstRun queue).find? fun t => (blockedBy held t).isNone := by
  induction queue with
  | nil => rfl
  | cons record rest ih =>
    cases record with
    | none => rfl
    | some t =>
      simp only [selectCandidate, firstRun, List.find?_cons, ih]
      cases blockedBy held t <;> rfl

theorem selectCapacityCandidate_eq (held : List Lease) (runningWeight capacity : ℚ)
    (queue : List (Option Ticket)) :
    selectCapacityCandidate held runningWeight capacity queue = (firstRun queue).find? fun t =>
      (blockedBy held t).isNone && decide (double.add runningWeight t.weight ≤ capacity) := by
  induction queue with
  | nil => rfl
  | cons record rest ih =>
    cases record with
    | none => rfl
    | some t =>
      simp only [selectCapacityCandidate, firstRun, List.find?_cons, ih]
      cases blockedBy held t with
      | some l => simp
      | none => by_cases hfits : double.add runningWeight t.weight ≤ capacity <;> simp [hfits]

/-- The smallest claim is that of a ticket of the first run, or the one it began with. -/
theorem smallestClaim_eq_some {claimOf : Ticket → Option ℚ} {best : Option (Ticket × ℚ)}
    {found : Ticket × ℚ} (h : smallestClaim claimOf best queue = some found) :
    best = some found ∨ found.1 ∈ firstRun queue ∧ claimOf found.1 = some found.2 := by
  induction queue generalizing best with
  | nil => exact .inl h
  | cons record rest ih =>
    cases record with
    | none => exact .inl h
    | some t =>
      rw [smallestClaim] at h
      cases hclaim : claimOf t with
      | none =>
        simp only [hclaim] at h
        exact (ih h).imp_right fun hfound => ⟨List.mem_cons_of_mem _ hfound.1, hfound.2⟩
      | some claim =>
        simp only [hclaim] at h
        rcases ih h with hbest | hfound
        · split_ifs at hbest
          · obtain rfl := Option.some.inj hbest
            exact .inr ⟨List.mem_cons_self, hclaim⟩
          · exact .inl hbest
        · exact .inr ⟨List.mem_cons_of_mem _ hfound.1, hfound.2⟩

/-- What a claim needs. -/
theorem resourceClaim_eq_some {history : History} {headTicket : Ticket}
    {runningWeight weightCapacity : ℚ} {record : ResourceRecord} {cfg : Config} {now : ℤ}
    {headReserved : Bool} {claim : ℚ}
    (h : resourceClaim history headTicket held runningWeight weightCapacity record cfg now
      headReserved t = some claim) : blockedBy held t = none := by
  unfold resourceClaim at h
  cases hblocked : blockedBy held t with
  | none => rfl
  | some l => simp [hblocked] at h

theorem selectResourceCandidate_spec {history : History} {runningWeight weightCapacity : ℚ}
    {record : ResourceRecord} {cfg : Config} {now : ℤ} {headReserved : Bool}
    (h : selectResourceCandidate history queue held runningWeight weightCapacity record cfg now
      headReserved = some t) : t ∈ firstRun queue ∧ blockedBy held t = none := by
  unfold selectResourceCandidate at h
  split at h
  · obtain ⟨found, hfound, rfl⟩ := Option.map_eq_some_iff.1 h
    rcases smallestClaim_eq_some hfound with hbest | ⟨hmem, hclaim⟩
    · cases hbest
    · exact ⟨List.mem_cons_of_mem _ hmem, resourceClaim_eq_some hclaim⟩
  · cases h

theorem floorWalk_spec {history : History} {cfg : Config} {host : Host} {inputs : FloorInputs}
    {now : ℤ} (h : floorWalk history cfg host inputs now queue = some t) :
    t ∈ firstRun queue ∧ isFloorTicket t = true ∧ runnable cfg host inputs t = true := by
  induction queue with
  | nil => cases h
  | cons record rest ih =>
    cases record with
    | none => cases h
    | some u =>
      rw [floorWalk] at h
      split_ifs at h with hexclusive hwins
      · obtain rfl := Option.some.inj h
        simp only [Bool.and_eq_true] at hwins
        exact ⟨List.mem_cons_self, hwins.1.1, hwins.1.2⟩
      · exact ⟨List.mem_cons_of_mem _ (ih h).1, (ih h).2⟩

theorem floorWinner_spec {history : History} {cfg : Config} {host : Host} {inputs : FloorInputs}
    {now : ℤ} (h : floorWinner history cfg host inputs now queue = some t) :
    t ∈ firstRun queue ∧ isFloorTicket t = true ∧ runnable cfg host inputs t = true := by
  unfold floorWinner at h
  split_ifs at h
  split at h
  · split_ifs at h
    exact floorWalk_spec h
  · cases h

/-- A ticket that a thinned queue still shows stands in the first run of the queue. -/
theorem mem_firstRun_keepBehindHead {keep : Ticket → Bool}
    (h : t ∈ firstRun (keepBehindHead keep queue)) :
    t ∈ firstRun queue ∧ (queue.head? = some (some t) ∨ keep t = true) := by
  cases queue with
  | nil => cases h
  | cons head rest =>
    cases head with
    | none => cases h
    | some head =>
      rw [keepBehindHead, firstRun, List.mem_cons] at h
      rcases h with rfl | h
      · exact ⟨List.mem_cons_self, .inl rfl⟩
      · rw [firstRun_filter _ rfl, List.mem_filter] at h
        exact ⟨List.mem_cons_of_mem _ h.1, .inr h.2⟩

end Walks

end Scheduler
end LaneBroker
