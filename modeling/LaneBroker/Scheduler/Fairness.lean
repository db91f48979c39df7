/-
# What is remembered of a head that is passed

The skip records of `scheduler.js` and the two stores of `fairness.js` they are kept in: behind the
fence a record for each ticket, before it one file of each kind, for whoever was the head last.
Every write of a record may fail; whether it does is an argument here.

A store is read and written through the records of one ticket (`conflictOf`, `writeConflict`, ..):
what the single files say of another head is nothing to a reader.
-/

import LaneBroker.Scheduler.Admission
import LaneBroker.Scheduler.Priority

namespace LaneBroker
namespace Scheduler

/-! ### The records -/

/-- The phases of a head that conflicts. -/
inductive Phase
  | blocked
  | exhausted
  | resumed
  deriving DecidableEq, Repr

/-- How often the head was skipped while it conflicted, and since when it does. -/
structure ConflictRecord where
  count : ℕ
  blockedSince : Option ℤ
  loggedPhase : Option Phase
  deriving DecidableEq, Repr

/-- How often the head was skipped while it did not fit. -/
structure CapacityRecord where
  count : ℕ
  loggedPhase : Option Phase
  deriving DecidableEq, Repr

inductive FutileCause
  | memory
  | cpu
  | elasticBelowFloor
  deriving DecidableEq, Repr

/-- A verdict that nothing the lanes do lets the head start. -/
structure Futility where
  cause : FutileCause
  headCpu : ℚ
  sampledAt : ℤ
  deriving DecidableEq, Repr

/-- **The head was denied for want of cores or memory.** -/
structure ResourceRecord where
  count : ℕ := 0
  reserved : Bool := false
  reservationSeq : Option ℕ := none
  yields : ℕ := 0
  inScope : Bool := true
  behindConflict : Bool := false
  deniedAt : ℤ
  budget : Option ℚ
  externalBusy : Option ℚ
  /-- The bytes that were available, and the total. -/
  memInfo : Option (ℚ × ℚ) := none
  futile : Option Futility := none
  deriving DecidableEq, Repr

/-- The numbers a reader asks for are there. -/
def ResourceRecord.wellFormed (record : ResourceRecord) : Bool :=
  record.budget.isSome && record.externalBusy.isSome

/-- The records of one ticket. -/
structure Records where
  conflict : Option ConflictRecord := none
  capacity : Option CapacityRecord := none
  resource : Option ResourceRecord := none
  deriving DecidableEq, Repr

/-! ### The stores -/

/-- **The store**: the single files, each with the head it is about, or the records by ticket. -/
inductive Store
  | legacy (conflict : Option (TicketId × ConflictRecord))
    (capacity : Option (TicketId × CapacityRecord)) (resource : Option (TicketId × ResourceRecord))
  | perTicket (tickets : List (TicketId × Records))
  deriving DecidableEq, Repr

/-- The record of a file, if it is about this head. -/
def about {α : Type} (headId : TicketId) (file : Option (TicketId × α)) : Option α :=
  (file.filter fun entry => entry.1 == headId).map Prod.snd

/-- The records of a ticket. -/
def recordsOf (tickets : List (TicketId × Records)) (id : TicketId) : Records :=
  ((tickets.find? fun entry => entry.1 == id).map Prod.snd).getD {}

/-- The records of a ticket changed, or made. -/
def setRecords (tickets : List (TicketId × Records)) (id : TicketId) (f : Records → Records) :
    List (TicketId × Records) :=
  if tickets.any fun entry => entry.1 == id then
    tickets.map fun entry => if entry.1 = id then (id, f entry.2) else entry
  else tickets ++ [(id, f {})]

namespace Store

/-- `readSkipState`, of this head. -/
def conflictOf (headId : TicketId) : Store → Option ConflictRecord
  | legacy conflict _ _ => about headId conflict
  | perTicket tickets => (recordsOf tickets headId).conflict

/-- `readCapacitySkipState`, of this head. -/
def capacityOf (headId : TicketId) : Store → Option CapacityRecord
  | legacy _ capacity _ => about headId capacity
  | perTicket tickets => (recordsOf tickets headId).capacity

/-- `readResourceSkipState`, of this head. -/
def resourceOf (headId : TicketId) : Store → Option ResourceRecord
  | legacy _ _ resource => (about headId resource).filter ResourceRecord.wellFormed
  | perTicket tickets => (recordsOf tickets headId).resource.filter ResourceRecord.wellFormed

/-- `write('conflict', ..)`. -/
def writeConflict (headId : TicketId) (record : ConflictRecord) : Store → Store
  | legacy _ capacity resource => legacy (some (headId, record)) capacity resource
  | perTicket tickets =>
    perTicket (setRecords tickets headId fun records => { records with conflict := some record })

/-- `write('capacity', ..)`. -/
def writeCapacity (headId : TicketId) (record : CapacityRecord) : Store → Store
  | legacy conflict _ resource => legacy conflict (some (headId, record)) resource
  | perTicket tickets =>
    perTicket (setRecords tickets headId fun records => { records with capacity := some record })

/-- `write('resource', ..)`. -/
def writeResource (headId : TicketId) (record : ResourceRecord) : Store → Store
  | legacy conflict capacity _ => legacy conflict capacity (some (headId, record))
  | perTicket tickets =>
    perTicket (setRecords tickets headId fun records => { records with resource := some record })

/-- `dropResourceRecord`: the file goes, whoever it is about; behind the fence the record only goes
out of scope. -/
def dropResourceRecord (headId : TicketId) : Store → Store
  | legacy conflict capacity _ => legacy conflict capacity none
  | perTicket tickets =>
    match (recordsOf tickets headId).resource with
    | none => perTicket tickets
    | some rec =>
      perTicket (setRecords tickets headId fun records =>
        { records with resource := some { rec with behindConflict := false, inScope := false } })

/-- `depart`. -/
def depart (ticketId : TicketId) : Store → Store
  | legacy conflict capacity resource => legacy conflict capacity resource
  | perTicket tickets => perTicket (tickets.filter fun entry => entry.1 != ticketId)

/-- `prune`. -/
def prune (rawQueue : List (Option Ticket)) (provisional : List TicketId) : Store → Store
  | legacy conflict capacity resource => legacy conflict capacity resource
  | perTicket tickets =>
    if rawQueue.contains none then perTicket tickets
    else
      perTicket (tickets.filter fun entry =>
        (rawQueue.any (hasId entry.1)) || provisional.contains entry.1)

/-- The ticket holds a reservation. -/
def isReserved (records : Records) : Bool := records.resource.any fun rec => rec.reserved

/-- `releaseReservations`. -/
def releaseReservations : Store → Store
  | legacy conflict capacity resource => legacy conflict capacity resource
  | perTicket tickets =>
    perTicket (tickets.map fun entry =>
      if isReserved entry.2 then (entry.1, { entry.2 with resource := none }) else entry)

/-- `reservations`. -/
def reservations : Store → List Reservation
  | legacy _ _ _ => []
  | perTicket tickets =>
    tickets.filterMap fun entry =>
      (entry.2.resource.filter fun rec => rec.reserved).bind fun rec =>
        rec.reservationSeq.map fun seq => { id := entry.1, seq }

/-- `v2`. -/
def v2 : Store → Bool
  | legacy _ _ _ => false
  | perTicket _ => true

/-- A write that counts only if it does not fail. -/
def landed (fails : Bool) (written store : Store) : Store := if fails then store else written

end Store

/-! ### A head that conflicts -/

/-- How often this head was skipped. -/
def skipCountOf (record : Option ConflictRecord) : ℕ := (record.map ConflictRecord.count).getD 0

/-- Since when this head is blocked. -/
def blockedSinceOf (record : Option ConflictRecord) (now : ℤ) : ℤ :=
  (record.bind ConflictRecord.blockedSince).getD now

/-- The phase that `resolveHeadBlock` derives. -/
def headPhase (cfg : Config) (record : Option ConflictRecord) (now : ℤ) : Phase :=
  if skipCountOf record < cfg.conflictSkipLimit then .blocked
  else if now - blockedSinceOf record now < cfg.headBlockGraceMs then .exhausted
  else .resumed

/-- **`resolveHeadBlock`**: what is stored when it returns. -/
def resolveHeadBlock (cfg : Config) (store : Store) (headId : TicketId) (now : ℤ) (fails : Bool) :
    Store :=
  let record := store.conflictOf headId
  let phase := headPhase cfg record now
  if (record.bind ConflictRecord.blockedSince).isNone ∨
      record.bind ConflictRecord.loggedPhase ≠ some phase then
    .landed fails
      (store.writeConflict headId
        { count := skipCountOf record, blockedSince := some (blockedSinceOf record now),
          loggedPhase := some phase })
      store
  else store

/-- **`recordSkip`**: what it stores; a skip that cannot be stored is refused. -/
def recordSkip (store : Store) (headId : TicketId) (now : ℤ) : Store :=
  let prev := store.conflictOf headId
  store.writeConflict headId
    { count := skipCountOf prev + 1, blockedSince := some (blockedSinceOf prev now),
      loggedPhase := prev.bind ConflictRecord.loggedPhase }

/-! ### A head that does not fit -/

/-- How often this head was skipped. -/
def capacityCountOf (record : Option CapacityRecord) : ℕ := (record.map CapacityRecord.count).getD 0

/-- The phase that `resolveCapacityBlock` derives. -/
def capacityPhase (cfg : Config) (record : Option CapacityRecord) : Phase :=
  if capacityCountOf record < cfg.conflictSkipLimit then .blocked else .exhausted

/-- **`resolveCapacityBlock`**: what is stored when it returns. -/
def resolveCapacityBlock (cfg : Config) (store : Store) (headId : TicketId) (fails : Bool) :
    Store :=
  let record := store.capacityOf headId
  let phase := capacityPhase cfg record
  if record.bind CapacityRecord.loggedPhase ≠ some phase then
    .landed fails
      (store.writeCapacity headId { count := capacityCountOf record, loggedPhase := some phase })
      store
  else store

/-- **`recordCapacitySkip`**: what it stores; a skip that cannot be stored is refused. -/
def recordCapacitySkip (store : Store) (headId : TicketId) : Store :=
  let prev := store.capacityOf headId
  store.writeCapacity headId
    { count := capacityCountOf prev + 1, loggedPhase := prev.bind CapacityRecord.loggedPhase }

/-! ### A head that was denied -/

/-- `resourceRecordFor`. -/
def resourceRecordFor (store : Store) (cfg : Config) (headId : TicketId) (behindConflict : Bool) :
    Option ResourceRecord :=
  if cfg.schedulerMode ≠ .active ∨ cfg.resourceSkipLimit = 0 then none
  else (store.resourceOf headId).filter fun record => record.behindConflict == behindConflict

/-- `futileFresh`. -/
def futileFresh (record : Option ResourceRecord) (cfg : Config) (now : ℤ) : Bool :=
  record.any fun record => record.inScope && record.futile.any fun futile =>
    ((now - futile.sampledAt : ℤ) : ℚ) ≤ 2 * cfg.sampleMs

/-- `resourceBackfillOpen`. -/
def resourceBackfillOpen (record : Option ResourceRecord) (cfg : Config) (now : ℤ) : Bool :=
  record.any fun rec => rec.inScope &&
    (futileFresh record cfg now || (!rec.reserved && rec.count < cfg.resourceSkipLimit))

/-- `resourceReserved`. -/
def resourceReserved (record : Option ResourceRecord) (cfg : Config) (now : ℤ) : Bool :=
  (record.any fun rec => rec.reserved) && !futileFresh record cfg now

/-- **`recordResourceDenial`.** -/
def recordResourceDenial (store : Store) (cfg : Config) (headId : TicketId) (load : Option CpuLoad)
    (now : ℤ) (behindConflict : Bool) (futility : Option Futility) (memInfo : Option MemInfo)
    (fails : Bool) : Store :=
  if cfg.resourceSkipLimit = 0 then store
  else
    let prev := if futility.isSome then none else store.resourceOf headId
    .landed fails
      (store.writeResource headId
        { count := (prev.map ResourceRecord.count).getD 0
          reserved := (prev.map ResourceRecord.reserved).getD false
          reservationSeq := prev.bind ResourceRecord.reservationSeq
          yields := (prev.map ResourceRecord.yields).getD 0
          inScope := true
          behindConflict
          deniedAt := now
          budget := load.map CpuLoad.budget
          externalBusy := load.map CpuLoad.externalBusy
          memInfo := memInfo.bind fun info =>
            info.availableBytes.bind fun available => info.totalBytes.map fun total =>
              (available, total)
          futile := futility })
      store

/-- **`markResourceOutOfScope`.** -/
def markResourceOutOfScope (store : Store) (headId : TicketId) (now : ℤ) (fails : Bool) : Store :=
  match store.resourceOf headId with
  | none => store
  | some prev =>
    if !prev.inScope then store
    else
      .landed fails (store.writeResource headId { prev with inScope := false, deniedAt := now })
        store

/-- **`recordResourceBackfill`**: what it stores; `seq` is the number that is drawn for a
reservation. -/
def recordResourceBackfill (store : Store) (cfg : Config) (headId : TicketId)
    (record : ResourceRecord) (seq : ℕ) : Store :=
  let count := record.count + 1
  let reserved := decide (cfg.resourceSkipLimit ≤ count)
  store.writeResource headId
    { record with
      count
      reserved
      reservationSeq :=
        if store.v2 && reserved && !record.reserved then some seq else record.reservationSeq }

/-- **`recordPriorityYield`**: what it stores. -/
def recordPriorityYield (store : Store) (headId : TicketId) (record : ResourceRecord) : Store :=
  store.writeResource headId { record with yields := record.yields + 1 }

/-- **`headFutility`**: the head would be denied with every lease gone. -/
def headFutility (history : History) (cfg : Config) (headTicket : Ticket) (held : List Lease)
    (cpuSample : Option CpuSample) (load : Option CpuLoad) (memInfo : Option MemInfo) (now : ℤ) :
    Option Futility :=
  if held.any fun lease => (freshObservedCores lease now).isNone then none
  else
    let headCpu := ticketCpuFloor history headTicket cfg none [] none
    let sampledAt := (cpuSample.bind CpuSample.sampledAt).getD now
    let resources := ticketResources headTicket cfg
    let drainedMemory := memInfo.bind fun info => info.availableBytes.map fun available =>
      let occupied := (held.map fun lease =>
        ((if lease.fresh now then lease.observedMemoryBytes else none).getD
          (leaseResources lease cfg).memoryBytes)).sum
      evaluateMemoryAdmission { info with availableBytes := some (available + occupied) } []
        resources.memoryBytes cfg now
    if drainedMemory.any fun decision => !decision.admits then
      some { cause := .memory, headCpu, sampledAt }
    else
      match cpuSample, load with
      | some sample, some load =>
        let drainedCpu := evaluateCpuAdmission history
          (some { sample with hostBusyCores := some load.externalBusy, preemptibleBusyCores := 0 })
          [] none none headCpu false false cfg now
        let idleExempt := drainedCpu.load.any fun drained =>
          0 < cfg.resourceIdleOvershootCores &&
            drained.projectedBusy - drained.budget ≤ cfg.resourceIdleOvershootCores
        if drainedCpu.reason = .projectedOverBudget && !idleExempt then
          some { cause := .cpu, headCpu, sampledAt }
        else none
      | _, _ => none

/-! ### What a write changes -/

section Lemmas

variable {tickets : List (TicketId × Records)} {id id' : TicketId} {f : Records → Records}

theorem recordsOf_cons (entry : TicketId × Records) :
    recordsOf (entry :: tickets) id = if entry.1 = id then entry.2 else recordsOf tickets id := by
  unfold recordsOf
  rw [List.find?_cons]
  by_cases h : entry.1 = id
  · simp [h]
  · simp [h, beq_false_of_ne h]

theorem recordsOf_append_singleton (h : ∀ entry ∈ tickets, entry.1 ≠ id) (records : Records) :
    recordsOf (tickets ++ [(id, records)]) id = records := by
  induction tickets with
  | nil => simp [recordsOf]
  | cons entry tickets ih =>
    rw [List.cons_append, recordsOf_cons, if_neg (h entry List.mem_cons_self)]
    exact ih fun entry hentry => h entry (List.mem_cons_of_mem _ hentry)

theorem recordsOf_eq_empty (h : ∀ entry ∈ tickets, entry.1 ≠ id) : recordsOf tickets id = {} := by
  induction tickets with
  | nil => rfl
  | cons entry tickets ih =>
    rw [recordsOf_cons, if_neg (h entry List.mem_cons_self)]
    exact ih fun entry hentry => h entry (List.mem_cons_of_mem _ hentry)

theorem recordsOf_append_of_ne (h : id' ≠ id) (records : Records) :
    recordsOf (tickets ++ [(id, records)]) id' = recordsOf tickets id' := by
  induction tickets with
  | nil => simp [recordsOf, h.symm]
  | cons entry tickets ih => rw [List.cons_append, recordsOf_cons, recordsOf_cons, ih]

theorem recordsOf_map_self (h : tickets.any (fun entry => entry.1 == id) = true) :
    recordsOf (tickets.map fun entry => if entry.1 = id then (id, f entry.2) else entry) id =
      f (recordsOf tickets id) := by
  induction tickets with
  | nil => cases h
  | cons entry tickets ih =>
    rw [List.map_cons, recordsOf_cons, recordsOf_cons]
    by_cases hid : entry.1 = id
    · simp [hid]
    · rw [List.any_cons, beq_false_of_ne hid, Bool.false_or] at h
      simp only [hid, if_false]
      exact ih h

theorem recordsOf_map_of_ne (h : id' ≠ id) :
    recordsOf (tickets.map fun entry => if entry.1 = id then (id, f entry.2) else entry) id' =
      recordsOf tickets id' := by
  induction tickets with
  | nil => rfl
  | cons entry tickets ih =>
    rw [List.map_cons, recordsOf_cons, recordsOf_cons, ih]
    by_cases hid : entry.1 = id
    · simp [hid, h.symm]
    · simp [hid]

@[simp] theorem recordsOf_setRecords_self :
    recordsOf (setRecords tickets id f) id = f (recordsOf tickets id) := by
  unfold setRecords
  split_ifs with hany
  · exact recordsOf_map_self hany
  · have hnot : ∀ entry ∈ tickets, entry.1 ≠ id := fun entry hentry hid =>
      hany (List.any_eq_true.2 ⟨entry, hentry, beq_iff_eq.2 hid⟩)
    rw [recordsOf_append_singleton hnot, recordsOf_eq_empty hnot]

theorem recordsOf_setRecords_of_ne (h : id' ≠ id) :
    recordsOf (setRecords tickets id f) id' = recordsOf tickets id' := by
  unfold setRecords
  split_ifs
  · exact recordsOf_map_of_ne h
  · exact recordsOf_append_of_ne h _

end Lemmas

end Scheduler
end LaneBroker
