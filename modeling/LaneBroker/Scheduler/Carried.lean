/-
# What a write of the skip records carries over

The bounds on how often a head is passed rest on the counts that the skip records hold, and a write
that drops a count restarts the allowance in silence.  `Carries` says that a change of the store
drops nothing of one ticket: neither its counts nor since when it has been blocked.  Behind the
fence every write of the scheduler carries over what is recorded of every ticket that stays in the
queue (`carries_store` and the lemmas of the writes); before the fence, a write about another head
does not.
-/

import LaneBroker.Scheduler.Handover

namespace LaneBroker
namespace Scheduler

open LaneBroker.Basis LaneBroker.Basis.Fallible

/-! ### Reading what was written -/

namespace Store

/-- How many backfills are counted past a ticket. -/
def resourceCountOf (id : TicketId) (store : Store) : ℕ :=
  ((store.resourceOf id).map ResourceRecord.count).getD 0

/-- There is a verdict on file that the ticket is futile. -/
def isFutile (id : TicketId) : Store → Bool
  | legacy _ _ resource => (about id resource).any fun record => record.futile.isSome
  | perTicket tickets => (recordsOf tickets id).resource.any fun record => record.futile.isSome

/-- **The writes that are about a head leave a ticket alone**, or are about it. -/
def Keyed (store : Store) (headId id : TicketId) : Prop := store.v2 = true ∨ headId = id

variable {store : Store} {headId id : TicketId}

theorem about_self {α : Type} (record : α) : about id (some (id, record)) = some record := by
  simp [about, Option.filter_some]

section Writes

variable {conflict : ConflictRecord} {capacity : CapacityRecord} {resource : ResourceRecord}

/-- A write stays on its side of the fence. -/
@[simp] theorem v2_writeConflict : (store.writeConflict headId conflict).v2 = store.v2 := by
  cases store <;> rfl

@[simp] theorem v2_writeCapacity : (store.writeCapacity headId capacity).v2 = store.v2 := by
  cases store <;> rfl

@[simp] theorem v2_writeResource : (store.writeResource headId resource).v2 = store.v2 := by
  cases store <;> rfl

/-- **What was written is read.** -/
@[simp] theorem conflictOf_writeConflict :
    (store.writeConflict id conflict).conflictOf id = some conflict := by
  cases store with
  | legacy => exact about_self conflict
  | perTicket tickets => simp [writeConflict, conflictOf]

@[simp] theorem capacityOf_writeCapacity :
    (store.writeCapacity id capacity).capacityOf id = some capacity := by
  cases store with
  | legacy => exact about_self capacity
  | perTicket tickets => simp [writeCapacity, capacityOf]

@[simp] theorem resourceOf_writeResource (h : resource.wellFormed = true) :
    (store.writeResource id resource).resourceOf id = some resource := by
  cases store with
  | legacy => simp [writeResource, resourceOf, about_self, Option.filter_some, h]
  | perTicket tickets => simp [writeResource, resourceOf, Option.filter_some, h]

/-- Behind the fence a write leaves the records of every other ticket alone. -/
theorem recordsOf_setRecords {tickets : List (TicketId × Records)} {f : Records → Records}
    {α : Type} (get : Records → α) (hget : ∀ records, get (f records) = get records) :
    get (recordsOf (setRecords tickets headId f) id) = get (recordsOf tickets id) := by
  by_cases hid : id = headId
  · rw [hid, recordsOf_setRecords_self, hget]
  · rw [recordsOf_setRecords_of_ne hid]

/-- A write of one kind of record leaves the other kinds alone, of every ticket. -/
@[simp] theorem conflictOf_writeCapacity :
    (store.writeCapacity headId capacity).conflictOf id = store.conflictOf id := by
  cases store with
  | legacy => rfl
  | perTicket tickets => exact recordsOf_setRecords Records.conflict fun _ => rfl

@[simp] theorem conflictOf_writeResource :
    (store.writeResource headId resource).conflictOf id = store.conflictOf id := by
  cases store with
  | legacy => rfl
  | perTicket tickets => exact recordsOf_setRecords Records.conflict fun _ => rfl

@[simp] theorem capacityOf_writeConflict :
    (store.writeConflict headId conflict).capacityOf id = store.capacityOf id := by
  cases store with
  | legacy => rfl
  | perTicket tickets => exact recordsOf_setRecords Records.capacity fun _ => rfl

@[simp] theorem capacityOf_writeResource :
    (store.writeResource headId resource).capacityOf id = store.capacityOf id := by
  cases store with
  | legacy => rfl
  | perTicket tickets => exact recordsOf_setRecords Records.capacity fun _ => rfl

@[simp] theorem resourceOf_writeConflict :
    (store.writeConflict headId conflict).resourceOf id = store.resourceOf id := by
  cases store with
  | legacy => rfl
  | perTicket tickets =>
    exact congrArg (Option.filter _) (recordsOf_setRecords Records.resource fun _ => rfl)

@[simp] theorem resourceOf_writeCapacity :
    (store.writeCapacity headId capacity).resourceOf id = store.resourceOf id := by
  cases store with
  | legacy => rfl
  | perTicket tickets =>
    exact congrArg (Option.filter _) (recordsOf_setRecords Records.resource fun _ => rfl)

/-- **Behind the fence it leaves the records of every other ticket alone.** -/
theorem conflictOf_writeConflict_of_ne (hv2 : store.v2 = true) (h : id ≠ headId) :
    (store.writeConflict headId conflict).conflictOf id = store.conflictOf id := by
  cases store with
  | legacy => cases hv2
  | perTicket tickets => exact congrArg Records.conflict (recordsOf_setRecords_of_ne h)

theorem capacityOf_writeCapacity_of_ne (hv2 : store.v2 = true) (h : id ≠ headId) :
    (store.writeCapacity headId capacity).capacityOf id = store.capacityOf id := by
  cases store with
  | legacy => cases hv2
  | perTicket tickets => exact congrArg Records.capacity (recordsOf_setRecords_of_ne h)

theorem resourceOf_writeResource_of_ne (hv2 : store.v2 = true) (h : id ≠ headId) :
    (store.writeResource headId resource).resourceOf id = store.resourceOf id := by
  cases store with
  | legacy => cases hv2
  | perTicket tickets =>
    exact congrArg (fun records => (Records.resource records).filter ResourceRecord.wellFormed)
      (recordsOf_setRecords_of_ne h)

/-- The verdict on file is the one that was written. -/
theorem isFutile_writeResource : (store.writeResource id resource).isFutile id =
    resource.futile.isSome := by
  cases store with
  | legacy => simp [writeResource, isFutile, about_self]
  | perTicket tickets => simp [writeResource, isFutile]

end Writes

end Store

/-! ### What is carried over -/

/-- Backfill past a denied head is on. -/
def Config.Backfills (cfg : Config) : Prop :=
  cfg.schedulerMode = .active ∧ 0 < cfg.resourceSkipLimit

/-- **A change of the store drops nothing of a ticket.** -/
structure Carries (cfg : Config) (id : TicketId) (store store' : Store) : Prop where
  conflict : skipCountOf (store.conflictOf id) ≤ skipCountOf (store'.conflictOf id)
  blockedSince : ∀ t, (store.conflictOf id).bind ConflictRecord.blockedSince = some t →
    (store'.conflictOf id).bind ConflictRecord.blockedSince = some t
  capacity : capacityCountOf (store.capacityOf id) ≤ capacityCountOf (store'.capacityOf id)
  resource : cfg.Backfills → store.resourceCountOf id ≤ store'.resourceCountOf id
  v2 : store'.v2 = store.v2

section Carries

variable {cfg : Config} {id headId : TicketId} {store store' store'' : Store}

theorem Carries.refl (cfg : Config) (id : TicketId) (store : Store) : Carries cfg id store store :=
  ⟨le_rfl, fun _ h => h, le_rfl, fun _ => le_rfl, rfl⟩

/-- What two changes carry over one after the other. -/
theorem Carries.trans (h : Carries cfg id store store') (h' : Carries cfg id store' store'') :
    Carries cfg id store store'' :=
  ⟨h.conflict.trans h'.conflict, fun t ht => h'.blockedSince t (h.blockedSince t ht),
    h.capacity.trans h'.capacity, fun hcfg => (h.resource hcfg).trans (h'.resource hcfg),
    h'.v2.trans h.v2⟩

/-- A write that may fail. -/
theorem Carries.landed (h : Carries cfg id store store') (fails : Bool) :
    Carries cfg id store (.landed fails store' store) := by
  cases fails with
  | false => exact h
  | true => exact .refl cfg id store

/-- **A ticket finds the same records.** -/
structure SameRecords (cfg : Config) (id : TicketId) (store store' : Store) : Prop where
  conflict : store'.conflictOf id = store.conflictOf id
  capacity : store'.capacityOf id = store.capacityOf id
  resource : cfg.Backfills → store'.resourceOf id = store.resourceOf id
  v2 : store'.v2 = store.v2

theorem SameRecords.refl (cfg : Config) (id : TicketId) (store : Store) :
    SameRecords cfg id store store :=
  ⟨rfl, rfl, fun _ => rfl, rfl⟩

theorem SameRecords.trans (h : SameRecords cfg id store store')
    (h' : SameRecords cfg id store' store'') : SameRecords cfg id store store'' :=
  ⟨h'.conflict.trans h.conflict, h'.capacity.trans h.capacity,
    fun hcfg => (h'.resource hcfg).trans (h.resource hcfg), h'.v2.trans h.v2⟩

theorem SameRecords.landed (h : SameRecords cfg id store store') (fails : Bool) :
    SameRecords cfg id store (.landed fails store' store) := by
  cases fails with
  | false => exact h
  | true => exact .refl cfg id store

/-- **The same records drop nothing.** -/
theorem SameRecords.carries (h : SameRecords cfg id store store') :
    Carries cfg id store store' := by
  refine ⟨by rw [h.conflict], fun t ht => by rw [h.conflict, ht], by rw [h.capacity],
    fun hcfg => ?_, h.v2⟩
  rw [Store.resourceCountOf, Store.resourceCountOf, h.resource hcfg]

/-- Behind the fence: the records of the ticket are the same. -/
theorem sameRecords_perTicket {tickets tickets' : List (TicketId × Records)}
    (h : recordsOf tickets' id = recordsOf tickets id) :
    SameRecords cfg id (.perTicket tickets) (.perTicket tickets') :=
  ⟨congrArg Records.conflict h, congrArg Records.capacity h,
    fun _ => congrArg (fun r => (Records.resource r).filter ResourceRecord.wellFormed) h, rfl⟩

/-! ### The writes -/

/-- **A conflict record that is written** with no smaller count, and blocked since then. -/
theorem carries_writeConflict {record : ConflictRecord} (hkeyed : store.Keyed headId id)
    (hcount : skipCountOf (store.conflictOf headId) ≤ record.count)
    (hsince : ∀ t, (store.conflictOf headId).bind ConflictRecord.blockedSince = some t →
      record.blockedSince = some t) : Carries cfg id store (store.writeConflict headId record) := by
  by_cases hid : id = headId
  · subst hid
    refine ⟨?_, fun t ht => ?_, ?_, fun _ => ?_, Store.v2_writeConflict⟩
    · rw [Store.conflictOf_writeConflict]
      exact hcount
    · rw [Store.conflictOf_writeConflict]
      exact hsince t ht
    · rw [Store.capacityOf_writeConflict]
    · rw [Store.resourceCountOf, Store.resourceCountOf, Store.resourceOf_writeConflict]
  · have hv2 := hkeyed.resolve_right (Ne.symm hid)
    exact SameRecords.carries
      ⟨Store.conflictOf_writeConflict_of_ne hv2 hid, Store.capacityOf_writeConflict,
        fun _ => Store.resourceOf_writeConflict, Store.v2_writeConflict⟩

/-- **A capacity record** with no smaller count. -/
theorem carries_writeCapacity {record : CapacityRecord} (hkeyed : store.Keyed headId id)
    (hcount : capacityCountOf (store.capacityOf headId) ≤ record.count) :
    Carries cfg id store (store.writeCapacity headId record) := by
  by_cases hid : id = headId
  · subst hid
    refine ⟨?_, fun t ht => ?_, ?_, fun _ => ?_, Store.v2_writeCapacity⟩
    · rw [Store.conflictOf_writeCapacity]
    · rw [Store.conflictOf_writeCapacity, ht]
    · rw [Store.capacityOf_writeCapacity]
      exact hcount
    · rw [Store.resourceCountOf, Store.resourceCountOf, Store.resourceOf_writeCapacity]
  · have hv2 := hkeyed.resolve_right (Ne.symm hid)
    exact SameRecords.carries
      ⟨Store.conflictOf_writeCapacity, Store.capacityOf_writeCapacity_of_ne hv2 hid,
        fun _ => Store.resourceOf_writeCapacity, Store.v2_writeCapacity⟩

/-- **A resource record** that is well formed, with no smaller count. -/
theorem carries_writeResource {record : ResourceRecord} (hkeyed : store.Keyed headId id)
    (hrecord : headId = id → record.wellFormed = true ∧ store.resourceCountOf id ≤ record.count) :
    Carries cfg id store (store.writeResource headId record) := by
  by_cases hid : id = headId
  · subst hid
    obtain ⟨hformed, hcount⟩ := hrecord rfl
    refine ⟨?_, fun t ht => ?_, ?_, fun _ => ?_, Store.v2_writeResource⟩
    · rw [Store.conflictOf_writeResource]
    · rw [Store.conflictOf_writeResource, ht]
    · rw [Store.capacityOf_writeResource]
    · rw [Store.resourceCountOf, Store.resourceCountOf, Store.resourceOf_writeResource hformed]
      exact hcount
  · have hv2 := hkeyed.resolve_right (Ne.symm hid)
    exact SameRecords.carries
      ⟨Store.conflictOf_writeResource, Store.capacityOf_writeResource,
        fun _ => Store.resourceOf_writeResource_of_ne hv2 hid, Store.v2_writeResource⟩

/-- A ticket that is blocked stays blocked since then. -/
theorem blockedSinceOf_of_some {record : Option ConflictRecord} {t now : ℤ}
    (h : record.bind ConflictRecord.blockedSince = some t) : blockedSinceOf record now = t := by
  rw [blockedSinceOf, h, Option.getD_some]

/-- **`resolveHeadBlock` keeps the count.** -/
theorem carries_resolveHeadBlock (hkeyed : store.Keyed headId id) (now : ℤ) (fails : Bool) :
    Carries cfg id store (resolveHeadBlock cfg store headId now fails) := by
  unfold resolveHeadBlock
  dsimp only
  split_ifs
  · exact Carries.landed (carries_writeConflict hkeyed le_rfl fun t ht =>
      congrArg some (blockedSinceOf_of_some ht)) fails
  · exact .refl cfg id store

/-- **A skip counts up.** -/
theorem carries_recordSkip (hkeyed : store.Keyed headId id) (now : ℤ) :
    Carries cfg id store (recordSkip store headId now) :=
  carries_writeConflict hkeyed (Nat.le_succ _) fun _ ht => congrArg some (blockedSinceOf_of_some ht)

/-- `resolveCapacityBlock` keeps the count. -/
theorem carries_resolveCapacityBlock (hkeyed : store.Keyed headId id) (fails : Bool) :
    Carries cfg id store (resolveCapacityBlock cfg store headId fails) := by
  unfold resolveCapacityBlock
  dsimp only
  split_ifs
  · exact Carries.landed (carries_writeCapacity hkeyed le_rfl) fails
  · exact .refl cfg id store

/-- A capacity skip counts up. -/
theorem carries_recordCapacitySkip (hkeyed : store.Keyed headId id) :
    Carries cfg id store (recordCapacitySkip store headId) :=
  carries_writeCapacity hkeyed (Nat.le_succ _)

/-- **A denial keeps the count of a head that is not futile**, if it was judged by a sample. -/
theorem carries_recordResourceDenial {load : Option CpuLoad} {now : ℤ} {behindConflict fails : Bool}
    {futility : Option Futility} {memInfo : Option MemInfo} (hkeyed : store.Keyed headId id)
    (hload : futility = none → load.isSome = true)
    (hfutile : (recordResourceDenial store cfg headId load now behindConflict futility memInfo
      fails).isFutile id = false) :
    Carries cfg id store
      (recordResourceDenial store cfg headId load now behindConflict futility memInfo fails) := by
  unfold recordResourceDenial at hfutile ⊢
  by_cases hlimit : cfg.resourceSkipLimit = 0
  · rw [if_pos hlimit]
    exact .refl cfg id store
  · rw [if_neg hlimit] at hfutile ⊢
    cases fails with
    | true => exact .refl cfg id store
    | false =>
      refine Carries.landed (carries_writeResource hkeyed fun hid => ?_) false
      subst hid
      cases futility with
      | some futility =>
        -- the verdict would be on file
        rw [Store.landed, if_neg Bool.false_ne_true, Store.isFutile_writeResource] at hfutile
        cases hfutile
      | none =>
        obtain ⟨load', rfl⟩ := Option.isSome_iff_exists.1 (hload rfl)
        exact ⟨rfl, le_rfl⟩

/-- What is read is well formed. -/
theorem wellFormed_of_resourceOf {record : ResourceRecord} (h : store.resourceOf id = some record) :
    record.wellFormed = true := by
  cases store with
  | legacy | perTicket => exact (Option.filter_eq_some_iff.1 h).2

theorem resourceCountOf_eq {record : ResourceRecord} (h : store.resourceOf id = some record) :
    store.resourceCountOf id = record.count := by
  rw [Store.resourceCountOf, h]
  rfl

/-- **A head that is out of scope keeps its count.** -/
theorem carries_markResourceOutOfScope (hkeyed : store.Keyed headId id) (now : ℤ) (fails : Bool) :
    Carries cfg id store (markResourceOutOfScope store headId now fails) := by
  unfold markResourceOutOfScope
  cases hrecord : store.resourceOf headId with
  | none => exact .refl cfg id store
  | some prev =>
    dsimp only
    split_ifs
    · exact .refl cfg id store
    · refine Carries.landed (carries_writeResource hkeyed fun hid => ?_) fails
      subst hid
      have hformed : prev.wellFormed = true := wellFormed_of_resourceOf hrecord
      exact ⟨hformed, (resourceCountOf_eq hrecord).le⟩

/-- **A record that is counted up.** -/
theorem carries_recordResourceBackfill {record : ResourceRecord} (hkeyed : store.Keyed headId id)
    (hrecord : headId = id → record.wellFormed = true ∧ store.resourceCountOf id ≤ record.count)
    (seq : ℕ) : Carries cfg id store (recordResourceBackfill store cfg headId record seq) :=
  carries_writeResource hkeyed fun hid =>
    ⟨(hrecord hid).1, (hrecord hid).2.trans (Nat.le_succ _)⟩

/-- A yield to a higher priority leaves the count of backfills. -/
theorem carries_recordPriorityYield {record : ResourceRecord} (hkeyed : store.Keyed headId id)
    (hrecord : headId = id → record.wellFormed = true ∧ store.resourceCountOf id ≤ record.count) :
    Carries cfg id store (recordPriorityYield store headId record) :=
  carries_writeResource hkeyed hrecord

/-- **Behind the fence a dropped record keeps its count.** -/
theorem carries_dropResourceRecord (hv2 : store.v2 = true) :
    Carries cfg id store (store.dropResourceRecord headId) := by
  cases store with
  | legacy => cases hv2
  | perTicket tickets =>
    simp only [Store.dropResourceRecord]
    cases hrecord : (recordsOf tickets headId).resource with
    | none => exact .refl cfg id _
    | some rec =>
      by_cases hid : id = headId
      · subst hid
        refine ⟨?_, fun t ht => ?_, ?_, fun _ => ?_, rfl⟩
        · simp [Store.conflictOf]
        · simpa [Store.conflictOf] using ht
        · simp [Store.capacityOf]
        · simp only [Store.resourceCountOf, Store.resourceOf, recordsOf_setRecords_self, hrecord,
            Option.filter_some, ResourceRecord.wellFormed]
          split_ifs <;> simp
      · exact (sameRecords_perTicket (recordsOf_setRecords_of_ne hid)).carries

/-- The records that stay are the same. -/
theorem recordsOf_filter {tickets : List (TicketId × Records)} {keep : TicketId × Records → Bool}
    (h : ∀ entry, entry.1 = id → keep entry = true) :
    recordsOf (tickets.filter keep) id = recordsOf tickets id := by
  induction tickets with
  | nil => rfl
  | cons entry tickets ih =>
    rw [recordsOf_cons]
    by_cases hid : entry.1 = id
    · rw [List.filter_cons_of_pos (h entry hid), recordsOf_cons, if_pos hid, if_pos hid]
    · rw [if_neg hid]
      cases hkeep : keep entry with
      | true => rw [List.filter_cons_of_pos hkeep, recordsOf_cons, if_neg hid, ih]
      | false => rw [List.filter_cons_of_neg (by simp [hkeep]), ih]

/-- **The ticket that starts takes its own records along**, and no other's. -/
theorem carries_depart (h : headId ≠ id) : Carries cfg id store (store.depart headId) := by
  cases store with
  | legacy => exact .refl cfg id _
  | perTicket tickets =>
    refine (sameRecords_perTicket (recordsOf_filter fun entry hentry => ?_)).carries
    simp [hentry, h.symm]

/-- **The records of a ticket in the queue are not pruned.** -/
theorem sameRecords_prune {rawQueue : List (Option Ticket)} (provisional : List TicketId)
    (h : none ∈ rawQueue ∨ ∃ t, some t ∈ rawQueue ∧ t.id = id) :
    SameRecords cfg id store (store.prune rawQueue provisional) := by
  cases store with
  | legacy => exact .refl cfg id _
  | perTicket tickets =>
    simp only [Store.prune]
    split_ifs with hnone
    · exact .refl cfg id _
    · obtain ⟨t, ht, hid⟩ := h.resolve_left fun h => hnone (List.contains_iff_mem.2 h)
      refine sameRecords_perTicket (recordsOf_filter fun entry hentry => ?_)
      rw [Bool.or_eq_true, List.any_eq_true]
      exact .inl ⟨some t, ht, by simp [hasId, hid, hentry]⟩

/-- What is changed in no record is read as it was. -/
theorem recordsOf_map {tickets : List (TicketId × Records)} {f : TicketId × Records → Records}
    {α : Type} (get : Records → α) (hget : ∀ entry, get (f entry) = get entry.2) :
    get (recordsOf (tickets.map fun entry => (entry.1, f entry)) id) =
      get (recordsOf tickets id) := by
  induction tickets with
  | nil => rfl
  | cons entry tickets ih =>
    rw [List.map_cons, recordsOf_cons, recordsOf_cons]
    by_cases hid : entry.1 = id
    · rw [if_pos hid, if_pos hid, hget]
    · rw [if_neg hid, if_neg hid, ih]

/-- Where nothing may be reserved, only resource records go. -/
theorem sameRecords_releaseReservations (hcfg : ¬ cfg.Backfills) :
    SameRecords cfg id store store.releaseReservations := by
  cases store with
  | legacy => exact .refl cfg id _
  | perTicket tickets =>
    have hmap : (tickets.map fun entry =>
        if Store.isReserved entry.2 then (entry.1, { entry.2 with resource := none }) else entry) =
        tickets.map fun entry =>
          (entry.1, if Store.isReserved entry.2 then { entry.2 with resource := none }
            else entry.2) := by
      refine List.map_congr_left fun entry _ => ?_
      split_ifs <;> rfl
    simp only [Store.releaseReservations, hmap]
    exact ⟨recordsOf_map Records.conflict fun entry => by split_ifs <;> rfl,
      recordsOf_map Records.capacity fun entry => by split_ifs <;> rfl,
      fun h => absurd h hcfg, rfl⟩

end Carries

/-! ### An evaluation -/

/-- The ticket has a record in the queue. -/
def Disk.Queued (id : TicketId) (d : Disk) : Prop := ∃ r ∈ d.queue, r.ticket.id = id

instance (id : TicketId) (d : Disk) : Decidable (d.Queued id) :=
  inferInstanceAs (Decidable (∃ r ∈ _, _))

/-- **The file of the denied head is unlinked.** -/
def Store.unlinked : Store → Bool
  | legacy _ _ resource => resource.isNone
  | perTicket _ => false

/-- A ticket with a queue file is seen, or what is seen there is damaged. -/
theorem Poll.mem_rawQueue_of_queued {p : Poll} {id : TicketId} (h : p.disk.Queued id) :
    none ∈ p.rawQueue ∨ ∃ t, some t ∈ p.rawQueue ∧ t.id = id := by
  obtain ⟨r, hr, hid⟩ := h
  rw [Poll.rawQueue_eq]
  cases hseen : p.seen r with
  | none => exact .inl (List.mem_map.2 ⟨r, hr, hseen⟩)
  | some t => exact .inr ⟨t, List.mem_map.2 ⟨r, hr, hseen⟩, (Poll.seen_id hseen).trans hid⟩

/-- **Pruning touches no ticket in the queue.** -/
theorem Poll.sameRecords_store {p : Poll} {id : TicketId} (h : p.disk.Queued id) :
    SameRecords p.cfg id p.disk.store p.store := by
  have hreleased : SameRecords p.cfg id p.disk.store p.releasedStore := by
    unfold Poll.releasedStore
    split_ifs with hcfg
    · exact .refl _ _ _
    · exact (sameRecords_releaseReservations hcfg).landed _
  exact hreleased.trans ((sameRecords_prune _ (Poll.mem_rawQueue_of_queued h)).landed _)

/-- A decision by the projection was judged by a sample. -/
theorem load_isSome_of_decideAdmission {history : History} {cfg : Config} {ticket : Ticket}
    {heldLeases : List Lease} {cpuSample : Option CpuSample} {memoryInfo : Option MemInfo}
    {gateClosed blocked : Bool} {now : ℤ}
    (h : (decideAdmission history cfg ticket heldLeases cpuSample memoryInfo gateClosed blocked
        now).cpuReason = .ok ∨
      (decideAdmission history cfg ticket heldLeases cpuSample memoryInfo gateClosed blocked
        now).cpuReason = .projectedOverBudget) :
    (decideAdmission history cfg ticket heldLeases cpuSample memoryInfo gateClosed blocked
      now).load.isSome = true := by
  simp only [decideAdmission, evaluateCpuAdmission] at h ⊢
  split at h
  · split_ifs at h <;> simp at h
  · split_ifs <;> rfl

namespace Turn

variable {s : Turn} {id : TicketId}

/-- So was one of the elastic admission. -/
theorem load_isSome (h : s.cpuDecision.cpuReason = .ok ∨
    s.cpuDecision.cpuReason = .projectedOverBudget) : s.cpuDecision.load.isSome = true := by
  unfold cpuDecision at h ⊢
  cases helastic : s.elastic with
  | none =>
    rw [helastic] at h
    exact load_isSome_of_decideAdmission h
  | some decided =>
    obtain ⟨decision, granted⟩ := decided
    rw [helastic] at h
    unfold elastic at helastic
    split_ifs at helastic
    obtain ⟨-, least, claim, -, -, -, -, -, rfl⟩ := evaluateElasticAdmission_eq_some helastic
    exact load_isSome_of_decideAdmission h

/-- **What an evaluation must not do to the records of a ticket**: find it futile, and, before the
fence, be about another head or unlink the file of the denied head. -/
structure Spares (s : Turn) (id : TicketId) (store : Store) : Prop where
  queued : s.disk.Queued id
  keyed : s.v2 = true ∨ s.headTicket.id = id
  futile : store.isFutile id = false
  linked : s.v2 = true ∨ (store.unlinked = true → s.disk.store.unlinked = true)

/-- The store is on the same side of the fence as on the disk. -/
theorem keyed_of_carries {store : Store} (hkeyed : s.v2 = true ∨ s.headTicket.id = id)
    (h : Carries s.cfg id s.disk.store store) : store.Keyed s.headTicket.id id :=
  hkeyed.imp_left fun hv2 => h.v2.trans hv2

/-- **Before its writes** an evaluation has only pruned. -/
theorem carries_store (hqueued : s.disk.Queued id) : Carries s.cfg id s.disk.store s.store :=
  (Poll.sameRecords_store hqueued).carries

/-- **The block of the head is resolved**, with its count. -/
theorem carries_blockStore (hqueued : s.disk.Queued id)
    (hkeyed : s.v2 = true ∨ s.headTicket.id = id) :
    Carries s.cfg id s.disk.store s.blockStore := by
  have hstore := carries_store hqueued
  have hkeyed' := keyed_of_carries hkeyed hstore
  unfold blockStore
  split_ifs
  · exact hstore.trans (carries_resolveHeadBlock hkeyed' _ _)
  · exact hstore.trans (carries_resolveCapacityBlock hkeyed' _)
  · exact hstore

/-- **Before the fence a pick that is denied drops the record of the head.** -/
theorem carries_dropPickRecord {store : Store} (h : Carries s.cfg id s.disk.store store)
    (hlinked : s.v2 = true ∨
      ((s.dropPickRecord store).unlinked = true → s.disk.store.unlinked = true)) :
    Carries s.cfg id s.disk.store (s.dropPickRecord store) := by
  unfold dropPickRecord at hlinked ⊢
  split_ifs at hlinked ⊢
  · cases hfails : s.fails .dropPick with
    | true => exact h
    | false =>
      rw [hfails] at hlinked
      cases store with
      | perTicket tickets => exact h.trans (carries_dropResourceRecord rfl)
      | legacy conflict capacity resource =>
        refine ⟨h.conflict, h.blockedSince, h.capacity, fun _ => ?_, h.v2⟩
        -- there was no record of the ticket to begin with
        have hnone : s.disk.store.resourceCountOf id = 0 := by
          have hlegacy : s.v2 ≠ true := fun hv2 => by rw [Poll.v2, ← h.v2] at hv2; cases hv2
          have hunlinked := hlinked.resolve_left hlegacy rfl
          cases hdisk : s.disk.store with
          | perTicket tickets => rw [hdisk] at hunlinked; cases hunlinked
          | legacy conflict' capacity' resource' =>
            rw [hdisk] at hunlinked
            obtain rfl := Option.isNone_iff_eq_none.1 hunlinked
            rfl
        rw [hnone]
        exact Nat.zero_le _
  · exact h

/-- **A denial of the head.** -/
theorem carries_denialStore {store : Store} {behindConflict : Bool} {futility : Option Futility}
    {memInfo : Option MemInfo} (h : s.Spares id store)
    (hstore : store = s.denialStore behindConflict futility memInfo)
    (hload : futility = none → s.cpuDecision.load.isSome = true) :
    Carries s.cfg id s.disk.store store := by
  subst hstore
  have hblock := carries_blockStore h.queued h.keyed
  exact hblock.trans (carries_recordResourceDenial (keyed_of_carries h.keyed hblock) hload h.futile)

/-- The head is out of scope. -/
theorem carries_outOfScope (hqueued : s.disk.Queued id)
    (hkeyed : s.v2 = true ∨ s.headTicket.id = id) (fails : Bool) :
    Carries s.cfg id s.disk.store
      (markResourceOutOfScope s.blockStore s.headTicket.id s.now fails) := by
  have hblock := carries_blockStore hqueued hkeyed
  exact hblock.trans (carries_markResourceOutOfScope (keyed_of_carries hkeyed hblock) _ _)

/-- **Admissions are paused.** -/
theorem carries_pausedStore (h : s.Spares id s.pausedStore) :
    Carries s.cfg id s.disk.store s.pausedStore := by
  unfold pausedStore at h ⊢
  refine carries_dropPickRecord ?_ h.linked
  split_ifs
  · exact carries_outOfScope h.queued h.keyed _
  · exact carries_blockStore h.queued h.keyed

/-- **The memory is below its floor.** -/
theorem carries_belowFloorStore (h : s.Spares id s.belowFloorStore) :
    Carries s.cfg id s.disk.store s.belowFloorStore := by
  cases hpolling : s.headPolling with
  | true => exact carries_denialStore h (by rw [belowFloorStore, hpolling]; rfl) (by simp)
  | false =>
    have hstore : s.belowFloorStore = s.dropPickRecord s.blockStore := by
      rw [belowFloorStore, hpolling]
      rfl
    rw [hstore] at h ⊢
    exact carries_dropPickRecord (carries_blockStore h.queued h.keyed) h.linked

/-- A denial by the projection or for memory was judged by a sample. -/
theorem load_isSome_of_denied (h : s.resourceDenied = true ∨ s.memoryDenied = true) :
    s.cpuDecision.load.isSome = true := by
  refine load_isSome ?_
  simp only [resourceDenied, memoryDenied, Bool.and_eq_true, Bool.or_eq_true,
    decide_eq_true_eq] at h
  rcases h with h | h
  · exact .inr h.1.2
  · exact h.2

/-- **The projection or the memory denies**, each branch by its own write. -/
theorem carries_deniedStore (h : s.Spares id s.deniedStore) :
    Carries s.cfg id s.disk.store s.deniedStore := by
  have hblock := carries_blockStore h.queued h.keyed
  unfold deniedStore at h ⊢
  split_ifs at h ⊢ with hpolling hfutile hdenied hcooldown hpick hcooldown
  · exact carries_denialStore h rfl fun hnone => by simp [hnone] at hfutile
  · exact carries_denialStore h rfl fun _ => load_isSome_of_denied (by simpa using hdenied)
  · exact carries_outOfScope h.queued h.keyed _
  · exact hblock
  · refine carries_denialStore h rfl fun _ => load_isSome_of_denied (.inl ?_)
    simp only [Bool.and_eq_true] at hpick
    exact hpick.1.1.2
  · exact carries_dropPickRecord hblock h.linked
  · exact hblock

/-- **What a denial leaves of the records.** -/
theorem carries_of_gates {denial : Denial} {store : Store} (h : s.gates = .error (denial, store))
    (hspares : s.Spares id store) : Carries s.cfg id s.disk.store store := by
  have hblock := carries_blockStore hspares.queued hspares.keyed
  unfold gates at h
  cases hcaps : s.grantCapReason.filter fun _ => s.classes.mode = .active with
  | some reason =>
    simp only [hcaps] at h
    split_ifs at h <;> obtain ⟨-, rfl⟩ := Prod.mk.inj (Except.error.inj h)
    · exact hblock
    · exact hblock
    · exact carries_belowFloorStore hspares
    · exact carries_pausedStore hspares
  | none =>
    simp only [hcaps] at h
    split_ifs at h <;> obtain ⟨-, rfl⟩ := Prod.mk.inj (Except.error.inj h)
    · exact hblock
    · exact hblock
    · exact carries_belowFloorStore hspares
    · exact carries_pausedStore hspares
    · exact carries_pausedStore hspares
    · exact carries_pausedStore hspares
    · exact carries_deniedStore hspares

/-- **What a denial by the selection leaves.** -/
theorem carries_of_selection {denial : Denial} {store : Store}
    (h : s.selection = .error (denial, store)) (hspares : s.Spares id store) :
    Carries s.cfg id s.disk.store store := by
  have hblock := carries_blockStore hspares.queued hspares.keyed
  unfold selection at h
  cases hexclusive : exclusiveDeny s.headTicket s.ticket s.held with
  | some reason =>
    simp only [hexclusive] at h
    obtain ⟨-, rfl⟩ := Prod.mk.inj (Except.error.inj h)
    exact carries_store hspares.queued
  | none =>
    cases hcandidate : s.candidate with
    | none =>
      simp only [hexclusive, hcandidate] at h
      split_ifs at h
      · obtain ⟨-, rfl⟩ := Prod.mk.inj (Except.error.inj h)
        exact hblock
      · obtain ⟨-, rfl⟩ := Prod.mk.inj (Except.error.inj h)
        exact hblock
      · exact carries_of_gates h hspares
    | some candidate =>
      simp only [hexclusive, hcandidate] at h
      split_ifs at h
      · obtain ⟨-, rfl⟩ := Prod.mk.inj (Except.error.inj h)
        exact hblock
      · exact carries_of_gates h hspares

end Turn

end Scheduler
end LaneBroker
