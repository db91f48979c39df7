/-
# How often a ticket is passed

A head that cannot start is passed a bounded number of times: `conflictSkipLimit` times while it
conflicts, until `headBlockGraceMs` have gone by, as many times while it does not fit, and
`resourceSkipLimit` times while it is denied.  Behind the fence the bounds hold over every run in
which the ticket stays in the queue and is not futile (`skips_within_limits`): no write of a record
drops a count (`Carries`), and a pass that is not counted does not start.

Before the fence the three counts are those of the current head.  There the bounds hold while
the ticket stays the head; once another ticket has been the head, the allowance starts anew
(`not_forall_withinLimits`).
-/

import LaneBroker.Scheduler.Carried
import LaneBroker.Scheduler.Held

namespace LaneBroker
namespace Scheduler

open LaneBroker.Basis LaneBroker.Basis.Fallible

/-! ### Room for another pass -/

namespace Turn

variable {s : Turn}

/-- A start that is charged was selected. -/
theorem Starts.selected_of_charged (h : s.Starts) (hpolling : s.headPolling = false)
    (hlifted : s.lifted = false) : s.selected = true := by
  rcases h.up with hselected | hlift | hhead
  · exact hselected
  · rw [hlifted] at hlift
    cases hlift
  · rw [hpolling] at hhead
    cases hhead.1

theorem charge_eq_skip (h : s.charge = .skip) : s.headPolling = false ∧ s.headConflicted = true ∧
    s.safeBackfill = false ∧ s.headBypass = false ∧ s.lifted = false := by
  unfold charge at h
  split_ifs at h with hskip
  · simpa [and_assoc] using hskip
  · split at h <;> cases h

theorem charge_eq_capacitySkip (h : s.charge = .capacitySkip) : s.headPolling = false ∧
    s.headCapacityBlocked = true ∧ s.headBypass = false ∧ s.lifted = false := by
  unfold charge at h
  split_ifs at h with hskip hcapacity
  · simpa [and_assoc] using hcapacity
  · split at h <;> cases h

theorem charge_eq_backfill {record : ResourceRecord} (h : s.charge = .backfill record) :
    s.resourceBackfill = true ∧ futileFresh s.resourceRecord s.cfg s.now = false ∧
      s.resourceRecord = some record := by
  unfold charge at h
  split_ifs at h with hskip hcapacity hbackfill
  simp only [Bool.and_eq_true, Bool.not_eq_true'] at hbackfill
  split at h
  · rename_i record' hrecord
    obtain rfl := Charge.backfill.inj h
    exact ⟨hbackfill.1.2, hbackfill.2, hrecord⟩
  · cases h

/-- **A conflict skip is granted only where the allowance is not exhausted.** -/
theorem Starts.skip_room (h : s.Starts) (hcharge : s.charge = .skip)
    (hgrace : s.now - blockedSinceOf s.skipRecord s.now < s.cfg.headBlockGraceMs) :
    skipCountOf s.skipRecord < s.cfg.conflictSkipLimit := by
  obtain ⟨hpolling, hconflicted, hsafe, hbypass, hlifted⟩ := charge_eq_skip hcharge
  have hselected := h.selected_of_charged hpolling hlifted
  by_contra hcount
  have hphase : headPhase s.cfg s.skipRecord s.now = .exhausted := by
    rw [headPhase, if_neg hcount, if_pos hgrace]
  have hcandidate : s.candidate = none := by
    simp [candidate, hsafe, hbypass, hconflicted, skipExhausted, hphase]
  rw [selected, hcandidate] at hselected
  cases hselected

/-- **A capacity skip is granted only where the allowance is not exhausted.** -/
theorem Starts.capacity_room (h : s.Starts) (hcharge : s.charge = .capacitySkip)
    (hweight : 0 ≤ s.ticket.weight) :
    capacityCountOf (s.store.capacityOf s.headTicket.id) < s.cfg.conflictSkipLimit := by
  obtain ⟨hpolling, hblocked, hbypass, hlifted⟩ := charge_eq_capacitySkip hcharge
  have hselected := h.selected_of_charged hpolling hlifted
  have hblocked' := hblocked
  simp only [headCapacityBlocked, Bool.and_eq_true, Bool.not_eq_true',
    decide_eq_true_eq] at hblocked'
  obtain ⟨⟨hconflicted, -⟩, hover⟩ := hblocked'
  have hsafe : s.safeBackfill = false := by
    by_contra hsafe
    rw [Bool.not_eq_false] at hsafe
    have hfits := (cannotDelayHead_iff.1 (safeBackfill_iff.1 hsafe).2.2.2).2.2.2
    -- what is added to a number of the format does not round below it
    have hmore := Format.round_mono (f := double) (by decide) (le_add_of_nonneg_right
      (a := double.add s.runningWeight s.headTicket.weight) hweight)
    rw [Format.add, Format.round_round (by decide)] at hmore
    exact absurd (hmore.trans hfits) (not_le.2 hover)
  by_contra hcount
  have hphase : capacityPhase s.cfg (s.store.capacityOf s.headTicket.id) = .exhausted := by
    rw [capacityPhase, if_neg hcount]
  have hcandidate : s.candidate = none := by
    simp [candidate, hsafe, hbypass, hconflicted, hblocked, capacitySkipExhausted, hphase]
  rw [selected, hcandidate] at hselected
  cases hselected

/-- **What is known of the head is what is on file**, but that a dormant reservation is left out. -/
theorem resourceRecord_eq_some {record : ResourceRecord} (h : s.resourceRecord = some record) :
    s.cfg.Backfills ∧ record.wellFormed = true ∧
      s.blockStore.resourceCountOf s.headTicket.id = record.count := by
  obtain ⟨record', hhead, hdormant⟩ := Option.map_eq_some_iff.1 h
  have hread : resourceRecordFor s.blockStore s.cfg s.headTicket.id false = some record' := by
    unfold headRecord at hhead
    split_ifs at hhead
    exact hhead
  unfold resourceRecordFor at hread
  split_ifs at hread with hoff
  rw [not_or, not_not] at hoff
  have hof := (Option.filter_eq_some_iff.1 hread).1
  have hsame : record.count = record'.count ∧ record.wellFormed = record'.wellFormed := by
    split_ifs at hdormant <;> rw [← hdormant] <;> exact ⟨rfl, rfl⟩
  exact ⟨⟨hoff.1, Nat.pos_of_ne_zero hoff.2⟩, hsame.2.trans (wellFormed_of_resourceOf hof),
    (resourceCountOf_eq hof).trans hsame.1.symm⟩

/-- **A backfill is charged only where the allowance is not used up.** -/
theorem backfill_room {record : ResourceRecord} (hcharge : s.charge = .backfill record) :
    record.count < s.cfg.resourceSkipLimit := by
  obtain ⟨hopen, hfutile, hrecord⟩ := charge_eq_backfill hcharge
  rw [hrecord] at hfutile
  simp only [resourceBackfill, resourceBackfillOpen, hrecord, hfutile, Option.any_some,
    Bool.false_or, Bool.and_eq_true, Bool.not_eq_true', decide_eq_true_eq] at hopen
  exact hopen.2.2.2

/-- A yield is charged to nothing else. -/
theorem charge_of_priorityYield (h : s.priorityYield = true) : s.charge = .none := by
  have hbypass : s.headBypass = true := by simp [headBypass, h]
  simp [charge, hbypass]

end Turn

/-! ### What a grant is charged to -/

/-- **The evaluation is about the ticket**, or behind the fence. -/
def Poll.KeyedTo (p : Poll) (id : TicketId) : Prop :=
  p.v2 = true ∨ ∀ s, p.turn = .ok s → s.headTicket.id = id

/-- **What holds of a grant**, of which a ticket in the queue may be the head. -/
structure Poll.Grants (p : Poll) (id : TicketId) (grant : Grant) : Prop where
  carries : Carries p.cfg id p.disk.store grant.store
  keyed : grant.store.Keyed grant.headId id
  skip : grant.charge = .skip → grant.headId = id →
    p.now - blockedSinceOf (p.disk.store.conflictOf id) p.now < p.cfg.headBlockGraceMs →
    skipCountOf (p.disk.store.conflictOf id) < p.cfg.conflictSkipLimit
  capacity : grant.charge = .capacitySkip → grant.headId = id →
    capacityCountOf (p.disk.store.capacityOf id) < p.cfg.conflictSkipLimit
  backfill : ∀ record, grant.charge = .backfill record →
    record.count < p.cfg.resourceSkipLimit ∧ p.cfg.Backfills ∧ record.wellFormed = true ∧
      (grant.headId = id → grant.store.resourceCountOf id = record.count)
  priorityYield : ∀ record, grant.priorityYield = some record → grant.charge = .none ∧
    (grant.headId = id → record.wellFormed = true ∧ grant.store.resourceCountOf id ≤ record.count)
  polling : grant.headPolling = true → grant.lease.id = grant.headId

section Poll

variable {p : Poll} {id : TicketId}

theorem Poll.grants_of_decideTicket {grant : Grant} (h : p.decideTicket = .ok grant)
    (hqueued : p.disk.Queued id) (hkeyed : p.KeyedTo id) (hweight : 0 ≤ p.submitted.weight) :
    p.Grants id grant := by
  obtain ⟨s, hturn, rfl, -, hstarts, rfl⟩ := Poll.starts_of_decideTicket h
  have hkeyed' : s.v2 = true ∨ s.headTicket.id = id := hkeyed.imp_right fun h => h s hturn
  have hcarries := Turn.carries_blockStore hqueued hkeyed'
  have hsame := Poll.sameRecords_store hqueued
  refine ⟨hcarries, Turn.keyed_of_carries hkeyed' hcarries, fun hcharge hid hgrace => ?_,
    fun hcharge hid => ?_, fun record hcharge => ?_, fun record hyield => ?_, fun hpolling => ?_⟩
  · have hrecord : s.skipRecord = s.disk.store.conflictOf id := by
      rw [Turn.skipRecord, show s.headTicket.id = id from hid, hsame.conflict]
    rw [← hrecord] at hgrace ⊢
    exact hstarts.skip_room hcharge hgrace
  · rw [← hsame.capacity, ← show s.headTicket.id = id from hid]
    exact hstarts.capacity_room hcharge (s.ticket_weight_nonneg hweight)
  · obtain ⟨hcfg, hformed, hcount⟩ :=
      Turn.resourceRecord_eq_some (Turn.charge_eq_backfill hcharge).2.2
    exact ⟨Turn.backfill_room hcharge, hcfg, hformed, fun hid => hid ▸ hcount⟩
  · have hyield' :
        (if s.priorityYield && !s.lifted then s.resourceRecord else none) = some record := hyield
    split_ifs at hyield' with hpriority
    rw [Bool.and_eq_true] at hpriority
    obtain ⟨-, hformed, hcount⟩ := Turn.resourceRecord_eq_some hyield'
    exact ⟨Turn.charge_of_priorityYield hpriority.1, fun hid => ⟨hformed, hid ▸ hcount.le⟩⟩
  · exact s.lease_id.trans (beq_iff_eq.1 hpolling)

theorem Poll.store_of_turn_error {denial : Denial} {store : Store}
    (h : p.turn = .error (denial, store)) : store = p.store := by
  unfold Poll.turn at h
  split_ifs at h
  · exact (Prod.mk.inj (Except.error.inj h)).2.symm
  · exact (Prod.mk.inj (Except.error.inj h)).2.symm
  · exact (Prod.mk.inj (Except.error.inj h)).2.symm
  · exact (Prod.mk.inj (Except.error.inj h)).2.symm
  · split at h
    · exact (Prod.mk.inj (Except.error.inj h)).2.symm
    · split at h
      · split at h
        · cases h
        · exact (Prod.mk.inj (Except.error.inj h)).2.symm
      · exact (Prod.mk.inj (Except.error.inj h)).2.symm

/-- **A denial drops nothing of a ticket in the queue.** -/
theorem Poll.carries_of_denied {denial : Denial} {store : Store}
    (h : p.decideTicket = .error (denial, store)) (hqueued : p.disk.Queued id)
    (hkeyed : p.KeyedTo id) (hfutile : store.isFutile id = false)
    (hlinked : p.v2 = true ∨ (store.unlinked = true → p.disk.store.unlinked = true)) :
    Carries p.cfg id p.disk.store store := by
  unfold Poll.decideTicket at h
  cases hturn : p.turn with
  | error denied =>
    simp only [hturn] at h
    rw [Poll.store_of_turn_error (hturn.trans (congrArg _ (Except.error.inj h)))]
    exact (Poll.sameRecords_store hqueued).carries
  | ok s =>
    simp only [hturn] at h
    obtain ⟨rfl, -⟩ := Poll.turn_eq_ok hturn
    exact Turn.carries_of_selection h
      ⟨hqueued, hkeyed.imp_right fun h => h s hturn, hfutile, hlinked⟩

end Poll

/-! ### What a start leaves of the records -/

/-- An atomic write is on the disk. -/
def lands (answer : Answer) : Bool := answer == .ok || answer == .failsLate

/-- **The pass is counted**: its write is on the disk. -/
def Grant.counted (p : Poll) (io : CommitCall → Answer) (grant : Grant) : Bool :=
  match grant.charge with
  | .none => false
  | .skip | .capacitySkip => lands (io .skip)
  | .backfill record =>
    (!drawsSeq p record grant.store || io .nextSeq == .ok) && lands (io .skip)

/-- The records with the pass counted. -/
def Grant.charged (p : Poll) (grant : Grant) : Store :=
  match grant.charge with
  | .none => grant.store
  | .skip => recordSkip grant.store grant.headId p.now
  | .capacitySkip => recordCapacitySkip grant.store grant.headId
  | .backfill record =>
    recordResourceBackfill grant.store p.cfg grant.headId record p.reservationSeq

/-- The records once the pass is charged. -/
def Grant.paid (p : Poll) (io : CommitCall → Answer) (grant : Grant) : Store :=
  if grant.counted p io then grant.charged p else grant.store

section Commit

variable {p : Poll} {io : CommitCall → Answer} {grant : Grant} {d : Disk} {id : TicketId}

/-- A write of the records in a `try`. -/
theorem ends_tried_store {c : CommitCall} {f : Store → Store} :
    Ends io (tried c (Disk.onStore f)) d
      (fun ok d' => d'.store = (if lands (io c) then f d.store else d.store) ∧
        (ok = true → io c = .ok))
      (fun _ _ => False) fun d' => d'.store = if lands (io c) then f d.store else d.store := by
  refine ends_tried (fun hc => ⟨?_, fun _ => hc⟩) (fun hc => ⟨?_, fun h => by cases h⟩)
    (fun hc => ⟨?_, fun h => by cases h⟩) fun hc => ?_
  all_goals simp [hc, lands, Disk.onStore]

/-- **A start goes on only if its pass is counted.** -/
theorem ends_chargeSkip_store (hd : d.store = grant.store) :
    Ends io (chargeSkip p grant) d
      (fun ok d' => d'.store = grant.paid p io ∧
        (ok = true → grant.charge = .none ∨ grant.counted p io = true))
      (fun _ _ => False) fun d' => d'.store = grant.paid p io := by
  have hlands : io .skip = .ok → lands (io .skip) = true := fun h => by simp [lands, h]
  unfold chargeSkip
  cases hcharge : grant.charge with
  | none => exact ends_pure.2 ⟨by simp [Grant.paid, Grant.counted, hcharge, hd], fun _ => .inl rfl⟩
  | skip | capacitySkip =>
    refine ends_tried_store.mono (fun ok d' h => ⟨?_, fun hok => .inr ?_⟩) (fun _ _ h => h)
      fun d' h => ?_
    · rw [h.1, Grant.paid, Grant.counted, Grant.charged, hcharge, hd]
    · rw [Grant.counted, hcharge]
      exact hlands (h.2 hok)
    · rw [h, Grant.paid, Grant.counted, Grant.charged, hcharge, hd]
  | backfill record =>
    refine ends_bind.2 (ends_get.2 ?_)
    simp only [hd]
    have hwrite : ∀ d' : Disk, d'.store = grant.store →
        (drawsSeq p record grant.store = true → io .nextSeq = .ok) →
        Ends io (tried .skip (Disk.onStore fun store =>
            recordResourceBackfill store p.cfg grant.headId record p.reservationSeq)) d'
          (fun ok d'' => d''.store = grant.paid p io ∧
            (ok = true → Charge.backfill record = .none ∨ grant.counted p io = true))
          (fun _ _ => False) fun d'' => d''.store = grant.paid p io := by
      intro d' hd' hdraw
      have hdrawn : (!drawsSeq p record grant.store || io .nextSeq == .ok) = true := by
        cases hdraws : drawsSeq p record grant.store with
        | false => rfl
        | true => simp [hdraw hdraws]
      refine ends_tried_store.mono (fun ok d'' h => ⟨?_, fun hok => .inr ?_⟩) (fun _ _ h => h)
        fun d'' h => ?_
      · rw [h.1, Grant.paid, Grant.counted, Grant.charged, hcharge, hd']
        simp only [hdrawn, Bool.true_and]
      · rw [Grant.counted, hcharge]
        simp only [hdrawn, Bool.true_and, hlands (h.2 hok)]
      · rw [h, Grant.paid, Grant.counted, Grant.charged, hcharge, hd']
        simp only [hdrawn, Bool.true_and]
    cases hdraws : drawsSeq p record grant.store with
    | false => exact hwrite d hd fun h => by rw [hdraws] at h; cases h
    | true =>
      simp only [if_true, andThen]
      have hpaid : io .nextSeq ≠ .ok → grant.paid p io = grant.store := fun h => by
        simp [Grant.paid, Grant.counted, hcharge, hdraws, h]
      refine ends_bind.2 (ends_tried (fun hnext => ?_) (fun hnext => ?_) (fun hnext => ?_)
        fun hnext => ?_)
      · exact hwrite d hd fun _ => hnext
      · exact ends_pure.2 ⟨hd.trans (hpaid (by simp [hnext])).symm, fun h => by cases h⟩
      · exact ends_pure.2 ⟨hd.trans (hpaid (by simp [hnext])).symm, fun h => by cases h⟩
      · exact hd.trans (hpaid (by simp [hnext])).symm

theorem carries_charged (h : p.Grants id grant) :
    Carries p.cfg id grant.store (grant.charged p) := by
  unfold Grant.charged
  cases hcharge : grant.charge with
  | none => exact .refl _ _ _
  | skip => exact carries_recordSkip h.keyed p.now
  | capacitySkip => exact carries_recordCapacitySkip h.keyed
  | backfill record =>
    obtain ⟨-, -, hformed, hcount⟩ := h.backfill record hcharge
    exact carries_recordResourceBackfill h.keyed (fun hid => ⟨hformed, (hcount hid).le⟩) _

theorem carries_paid (h : p.Grants id grant) (io : CommitCall → Answer) :
    Carries p.cfg id grant.store (grant.paid p io) := by
  unfold Grant.paid
  split_ifs
  · exact carries_charged h
  · exact .refl _ _ _

theorem keyed_paid (h : p.Grants id grant) {store : Store}
    (hstore : Carries p.cfg id (grant.paid p io) store) : store.Keyed grant.headId id :=
  h.keyed.imp_left fun hv2 => (hstore.v2.trans (carries_paid h io).v2).trans hv2

theorem ends_chargeYield_store (h : p.Grants id grant) (hd : d.store = grant.paid p io) :
    Ends io (chargeYield grant) d (fun _ d' => Carries p.cfg id (grant.paid p io) d'.store)
      (fun _ _ => False) fun d' => Carries p.cfg id (grant.paid p io) d'.store := by
  unfold chargeYield
  cases hyield : grant.priorityYield with
  | none =>
    refine ends_pure.2 ?_
    rw [hd]
    exact .refl _ _ _
  | some record =>
    obtain ⟨hcharge, hrecord⟩ := h.priorityYield record hyield
    have hpaid : grant.paid p io = grant.store := by simp [Grant.paid, Grant.counted, hcharge]
    have hwritten : Carries p.cfg id (grant.paid p io)
        (if lands (io .priorityYield) then recordPriorityYield d.store grant.headId record
          else d.store) := by
      rw [hd, hpaid]
      split_ifs
      · exact carries_recordPriorityYield h.keyed hrecord
      · exact .refl _ _ _
    exact ends_tried_store.mono (fun ok d' h => h.1 ▸ hwritten) (fun _ _ h => h)
      fun d' h => h ▸ hwritten

/-- The ledger of express starts is no skip record. -/
theorem ends_chargeExpress_store :
    Ends io (chargeExpress p grant) d (fun _ d' => d'.store = d.store) (fun _ _ => False)
      fun d' => d'.store = d.store := by
  unfold chargeExpress
  split_ifs
  · exact ends_tried (fun _ => rfl) (fun _ => rfl) (fun _ => rfl) fun _ => rfl
  · exact ends_pure.2 rfl

theorem ends_charges_store (h : p.Grants id grant) (hd : d.store = grant.store) :
    Ends io (charges p grant) d
      (fun refusal d' => Carries p.cfg id (grant.paid p io) d'.store ∧
        (refusal = none → grant.charge = .none ∨ grant.counted p io = true))
      (fun _ _ => False) fun d' => Carries p.cfg id (grant.paid p io) d'.store := by
  have hrefl : ∀ d' : Disk, d'.store = grant.paid p io →
      Carries p.cfg id (grant.paid p io) d'.store := fun d' hd' => hd' ▸ .refl _ _ _
  unfold charges
  refine Ends.bind ((ends_chargeSkip_store hd).mono (fun _ _ h => h) (fun _ _ h => h) hrefl)
    fun ok d' hskip => ?_
  cases ok with
  | false => exact ends_pure.2 ⟨hrefl d' hskip.1, fun h => by cases h⟩
  | true =>
    simp only [if_true]
    split_ifs
    · exact ends_pure.2 ⟨hrefl d' hskip.1, fun h => by cases h⟩
    · have hboth : Ends io (andThen (chargeYield grant) (chargeExpress p grant)) d'
          (fun _ e => Carries p.cfg id (grant.paid p io) e.store) (fun _ _ => False)
          fun e => Carries p.cfg id (grant.paid p io) e.store := by
        unfold andThen
        refine Ends.bind (ends_chargeYield_store h hskip.1) fun ok e hyield => ?_
        cases ok with
        | false => exact ends_pure.2 hyield
        | true =>
          exact ends_chargeExpress_store.mono (fun _ e' he => by rw [he]; exact hyield)
            (fun _ _ h => h) fun e' he => by rw [he]; exact hyield
      refine Ends.bind hboth fun ok e hcarried => ?_
      cases ok with
      | false => exact ends_pure.2 ⟨hcarried, fun h => by cases h⟩
      | true => exact ends_pure.2 ⟨hcarried, fun _ => hskip.2 rfl⟩

theorem ends_dequeueSync_store {ticketId : TicketId} :
    Ends io (dequeueSync ticketId) d (fun _ d' => d'.store = d.store) (fun _ _ => False)
      fun d' => d'.store = d.store := by
  unfold dequeueSync
  refine ends_bind.2 (ends_tried (fun _ => ?_) (fun _ => rfl) (fun _ => rfl) fun _ => rfl)
  simp only [Bool.not_true, Bool.false_eq_true, if_false]
  refine ends_bind.2 (ends_get.2 ?_)
  split_ifs
  · exact rfl
  · exact ends_handle.2 (ends_bind.2 (ends_call (fun _ => rfl) (fun _ => rfl) fun _ => rfl))

/-- **Only the ticket that starts takes its records along.** -/
theorem carries_departed (h : p.Grants id grant) (hlease : grant.lease.id ≠ id)
    (hd : Carries p.cfg id (grant.paid p io) d.store) :
    Carries p.cfg id (grant.paid p io) (d.departed grant).store := by
  unfold Disk.departed
  split_ifs with hv2 hpolling
  · exact hd.trans (carries_depart hlease)
  · rcases keyed_paid h hd with hv2' | hid
    · exact absurd hv2' hv2
    · exact absurd ((h.polling hpolling).trans hid) hlease
  · exact hd

/-- **A start past a ticket leaves it what is recorded of it.** -/
theorem ends_commit_store (h : p.Grants id grant) (hd : d.store = grant.store) :
    Ends io (commit p grant) d
      (fun _ e => (∀ l ∈ e.leases, l.id ≠ id) → Carries p.cfg id (grant.paid p io) e.store)
      (fun _ e => (∀ l ∈ e.leases, l.id ≠ id) → Carries p.cfg id (grant.paid p io) e.store)
      fun e => (∀ l ∈ e.leases, l.id ≠ id) → Carries p.cfg id (grant.paid p io) e.store := by
  unfold commit
  refine Ends.bind ((ends_charges_store h hd).mono (fun _ _ h => h) (fun _ _ h => h.elim)
    fun e h _ => h) fun refusal d' hcharged => ?_
  cases refusal with
  | some refusal => exact ends_pure.2 fun _ => hcharged.1
  | none =>
    unfold moveToLease
    refine Ends.bind (ends_dequeueSync_store.mono (fun _ _ h => h) (fun _ _ h => h.elim)
      fun e he _ => he ▸ hcharged.1) fun gone d'' hd'' => ?_
    have hcarried : Carries p.cfg id (grant.paid p io) d''.store := hd'' ▸ hcharged.1
    cases gone with
    | false => exact ends_pure.2 fun _ => hcarried
    | true =>
      simp only [if_true]
      unfold writeLease
      refine ends_bind.2 (ends_call (fun _ => ?_) (fun _ _ => hcarried) fun _ _ => hcarried)
      refine ends_bind.2 (ends_write (fun _ => ?_) (fun _ _ => hcarried) (fun _ _ => hcarried)
        fun _ _ => hcarried)
      refine ends_bind.2 (ends_call (fun _ => ?_) (fun _ _ => hcarried) fun _ _ => hcarried)
      have hleased : grant.lease ∈ (Disk.leased grant.lease d'').leases :=
        List.mem_append_right _ (List.mem_singleton_self _)
      have hdeparted : (∀ l ∈ ((Disk.leased grant.lease d'').departed grant).leases, l.id ≠ id) →
          Carries p.cfg id (grant.paid p io)
            ((Disk.leased grant.lease d'').departed grant).store := by
        intro hnot
        rw [departed_leases] at hnot
        exact carries_departed h (hnot _ hleased) hcarried
      refine ends_bind.2 (ends_tried (fun _ => ?_) (fun _ => ?_) (fun _ => ?_) fun _ _ => hcarried)
      · exact ends_pure.2 hdeparted
      · exact ends_pure.2 fun _ => hcarried
      · exact ends_pure.2 hdeparted

/-- **A pass that cannot be counted does not start.** -/
theorem Poll.leases_of_uncounted (h : p.decideTicket = .ok grant) (hcharge : grant.charge ≠ .none)
    (hcounted : grant.counted p io = false) (d : Disk) :
    (p.tryStart io d).2.leases = d.leases := by
  suffices hends : Ends io p.tryStart d (fun _ e => e.leases = d.leases)
      (fun _ e => e.leases = d.leases) fun e => e.leases = d.leases from hends.final
  unfold Poll.tryStart
  rw [h]
  refine ends_bind.2 (ends_modify.2 ?_)
  have hwork : SameWork d (d.onStore fun _ => grant.store) := sameWork_onStore _ d
  unfold commit charges
  refine Ends.bind (Ends.bind ((ends_chargeSkip_store rfl).and charges_chargeSkip
    |>.mono (fun _ _ h => h) (fun _ _ h => h.1.elim) fun e he => (hwork.trans he.2.1).2)
    fun ok e he => ?_) (R := fun refusal e => refusal ≠ none ∧ e.leases = d.leases)
    fun refusal e he => ?_
  · cases ok with
    | false => exact ends_pure.2 ⟨by simp, (hwork.trans he.2.1).2⟩
    | true =>
      rcases he.1.2 rfl with hnone | hcounted'
      · exact absurd hnone hcharge
      · rw [hcounted] at hcounted'
        cases hcounted'
  · cases refusal with
    | none => exact absurd rfl he.1
    | some refusal => exact ends_pure.2 he.2

theorem Poll.carries_of_granted (h : p.decideTicket = .ok grant) (hgrants : p.Grants id grant)
    (hleases : ∀ l ∈ (p.tryStart io p.disk).2.leases, l.id ≠ id) :
    Carries p.cfg id (grant.paid p io) (p.tryStart io p.disk).2.store := by
  suffices hends : Ends io p.tryStart p.disk
      (fun _ e => (∀ l ∈ e.leases, l.id ≠ id) → Carries p.cfg id (grant.paid p io) e.store)
      (fun _ e => (∀ l ∈ e.leases, l.id ≠ id) → Carries p.cfg id (grant.paid p io) e.store)
      fun e => (∀ l ∈ e.leases, l.id ≠ id) → Carries p.cfg id (grant.paid p io) e.store from
    hends.final hleases
  unfold Poll.tryStart
  rw [h]
  exact ends_bind.2 (ends_modify.2 (ends_commit_store hgrants rfl))

end Commit

/-! ### The machine -/

/-- **The scheduler, and how often one ticket was passed.** -/
structure Watch extends Yard where
  /-- When the ticket was first recorded blocked. -/
  blockedSince : Option ℤ := none
  /-- The conflict skips past it until the grace was over. -/
  skips : ℕ := 0
  capacitySkips : ℕ := 0
  backfills : ℕ := 0

namespace Watch

/-- The passes of one evaluation. -/
def tally (id : TicketId) (p : Poll) (io : CommitCall → Answer) (s : Watch) : Watch :=
  match p.decideTicket with
  | .error _ => s
  | .ok grant =>
    if grant.headId = id ∧ grant.counted p io = true then
      match grant.charge with
      | .skip =>
        if p.now - s.blockedSince.getD p.now < p.cfg.headBlockGraceMs then
          { s with skips := s.skips + 1 }
        else s
      | .capacitySkip => { s with capacitySkips := s.capacitySkips + 1 }
      | .backfill _ => { s with backfills := s.backfills + 1 }
      | .none => s
    else s

/-- The passes of a step. -/
def passes (cfg : Config) (host : Host) (id : TicketId) (s : Watch) : Act → Watch
  | .poll pollId reads io =>
    match s.copies pollId with
    | some t => s.tally id (Yard.pollOf cfg host s.toYard t reads) io
    | none => s
  | _ => s

/-- **One step.** -/
def next (cfg : Config) (host : Host) (id : TicketId) (s : Watch) (a : Act) : Option Watch :=
  (s.toYard.next cfg host a).map fun y =>
    { s.passes cfg host id a with
      toYard := y
      blockedSince := s.blockedSince.or
        ((y.disk.store.conflictOf id).bind ConflictRecord.blockedSince) }

end Watch

/-- **A ticket that is watched**, from any state that runs reach. -/
def watch (cfg : Config) (host : Host) (id : TicketId) : Machine Watch Act where
  start s := Reached cfg host s.toYard ∧
    s.blockedSince = (s.disk.store.conflictOf id).bind ConflictRecord.blockedSince ∧
    s.skips = 0 ∧ s.capacitySkips = 0 ∧ s.backfills = 0
  next := Watch.next cfg host id

/-- The records are written by something else. -/
def Act.restores : Act → Bool
  | .restore .. => true
  | _ => false

/-- **The ticket stays in the queue and is not futile**: it has a record before and behind the step,
no lease, and no verdict on file; and only the scheduler writes the records. -/
def Watch.Stays (cfg : Config) (host : Host) (id : TicketId) (s : Watch) (a : Act) : Prop :=
  a.restores = false ∧ s.disk.Queued id ∧
    ∀ y ∈ s.toYard.next cfg host a, y.disk.Queued id ∧ (∀ l ∈ y.disk.leases, l.id ≠ id) ∧
      y.disk.store.isFutile id = false

instance (cfg : Config) (host : Host) (id : TicketId) (s : Watch) (a : Act) :
    Decidable (s.Stays cfg host id a) :=
  inferInstanceAs (Decidable (_ = _ ∧ _ ∧ ∀ y ∈ _, _ ∧ (∀ l ∈ _, _) ∧ _))

/-- **Behind the fence, or the ticket is the head of the evaluation** and no record is unlinked. -/
def Watch.AtFront (cfg : Config) (host : Host) (id : TicketId) (s : Watch) (a : Act) : Prop :=
  s.disk.store.v2 = true ∨
    (∀ t pollId reads io, a = .poll pollId reads io → s.copies pollId = some t →
      ∀ u, (Yard.pollOf cfg host s.toYard t reads).turn = .ok u → u.headTicket.id = id) ∧
    ∀ y, s.toYard.next cfg host a = some y → y.disk.store.unlinked = true →
      s.disk.store.unlinked = true

/-- **The bounds.** -/
def Watch.WithinLimits (cfg : Config) (s : Watch) : Prop :=
  s.skips ≤ cfg.conflictSkipLimit ∧ s.capacitySkips ≤ cfg.conflictSkipLimit ∧
    s.backfills ≤ cfg.resourceSkipLimit

/-! ### What a step keeps -/

/-- **An allowance that is kept to**: what was passed is on file, and within the limit. -/
structure Allowance (limit passed onFile : ℕ) : Prop where
  onFile : passed ≤ onFile
  within : passed ≤ limit

theorem Allowance.mono {limit passed onFile onFile' : ℕ} (h : Allowance limit passed onFile)
    (hle : onFile ≤ onFile') : Allowance limit passed onFile' :=
  ⟨h.onFile.trans hle, h.within⟩

/-- Another pass, where the file shows room, and that is put on file. -/
theorem Allowance.pass {limit passed onFile onFile' : ℕ} (h : Allowance limit passed onFile)
    (hroom : onFile < limit) (hle : onFile + 1 ≤ onFile') : Allowance limit (passed + 1) onFile' :=
  ⟨(Nat.succ_le_succ h.onFile).trans hle, (Nat.succ_le_succ h.onFile).trans hroom⟩

/-- **What is on file covers what was passed.** -/
structure Watch.Covered (cfg : Config) (id : TicketId) (s : Watch) (store : Store) : Prop where
  skips : Allowance cfg.conflictSkipLimit s.skips (skipCountOf (store.conflictOf id))
  capacitySkips :
    Allowance cfg.conflictSkipLimit s.capacitySkips (capacityCountOf (store.capacityOf id))
  backfills : s.backfills ≤ cfg.resourceSkipLimit
  backfillsOnFile : cfg.Backfills → s.backfills ≤ store.resourceCountOf id

section Step

variable {cfg : Config} {host : Host} {id : TicketId} {s s' : Watch} {store store' : Store}

theorem Watch.Covered.carried (h : s.Covered cfg id store)
    (hcarries : Carries cfg id store store') : s.Covered cfg id store' :=
  ⟨h.skips.mono hcarries.conflict, h.capacitySkips.mono hcarries.capacity, h.backfills,
    fun hcfg => (h.backfillsOnFile hcfg).trans (hcarries.resource hcfg)⟩

/-- **One pass more**: it was granted where the file showed room, and it is on file. -/
theorem Watch.Covered.tally {p : Poll} {io : CommitCall → Answer} {grant : Grant}
    (h : s.Covered p.cfg id p.disk.store)
    (hsince : (p.disk.store.conflictOf id).bind ConflictRecord.blockedSince = s.blockedSince)
    (hdecide : p.decideTicket = .ok grant) (hgrants : p.Grants id grant) :
    (s.tally id p io).Covered p.cfg id (grant.paid p io) := by
  have hkept : s.Covered p.cfg id (grant.paid p io) :=
    h.carried (hgrants.carries.trans (carries_paid hgrants io))
  unfold Watch.tally
  simp only [hdecide]
  by_cases hcounted : grant.headId = id ∧ grant.counted p io = true
  · rw [if_pos hcounted]
    obtain ⟨hid, hpaid⟩ := hcounted
    have hpaid' : grant.paid p io = grant.charged p := by rw [Grant.paid, if_pos hpaid]
    cases hcharge : grant.charge with
    | none => exact hkept
    | skip =>
      dsimp only
      split_ifs with hgrace
      · have hroom := hgrants.skip hcharge hid (by rwa [blockedSinceOf, hsince])
        refine ⟨h.skips.pass hroom ?_, hkept.capacitySkips, hkept.backfills, hkept.backfillsOnFile⟩
        rw [hpaid', Grant.charged, hcharge, hid]
        simp only [recordSkip, Store.conflictOf_writeConflict]
        exact Nat.succ_le_succ hgrants.carries.conflict
      · exact hkept
    | capacitySkip =>
      have hroom := hgrants.capacity hcharge hid
      refine ⟨hkept.skips, h.capacitySkips.pass hroom ?_, hkept.backfills, hkept.backfillsOnFile⟩
      rw [hpaid', Grant.charged, hcharge, hid]
      simp only [recordCapacitySkip, Store.capacityOf_writeCapacity]
      exact Nat.succ_le_succ hgrants.carries.capacity
    | backfill record =>
      obtain ⟨hroom, hcfg, hformed, hcount⟩ := hgrants.backfill record hcharge
      have honFile : s.backfills ≤ record.count :=
        ((h.backfillsOnFile hcfg).trans (hgrants.carries.resource hcfg)).trans (hcount hid).le
      refine ⟨hkept.skips, hkept.capacitySkips, (Nat.succ_le_succ honFile).trans hroom, fun _ => ?_⟩
      have hformed' : ResourceRecord.wellFormed
          { record with
            count := record.count + 1
            reserved := decide (p.cfg.resourceSkipLimit ≤ record.count + 1)
            reservationSeq :=
              if grant.store.v2 && decide (p.cfg.resourceSkipLimit ≤ record.count + 1) &&
                !record.reserved then some p.reservationSeq else record.reservationSeq } = true :=
        hformed
      rw [hpaid', Grant.charged, hcharge, hid]
      simp only [recordResourceBackfill]
      rw [resourceCountOf_eq (Store.resourceOf_writeResource hformed')]
      exact Nat.succ_le_succ honFile
  · rw [if_neg hcounted]
    exact hkept

/-- **What holds of a ticket that is watched.** -/
structure Watch.Sound (cfg : Config) (id : TicketId) (s : Watch) : Prop where
  sound : Scheduler.Sound s.toYard
  since : (s.disk.store.conflictOf id).bind ConflictRecord.blockedSince = s.blockedSince
  covered : s.Covered cfg id s.disk.store

/-- A step that is no evaluation leaves the records alone. -/
theorem store_of_next {a : Act} {s y : Yard} (h : s.next cfg host a = some y)
    (hpoll : ∀ id reads io, a ≠ .poll id reads io)
    (hrestore : a.restores = false) :
    y.disk.store = s.disk.store := by
  cases a with
  | poll id reads io => exact absurd rfl (hpoll id reads io)
  | restore store expressAdmissions => cases hrestore
  | release id => exact Option.some.inj h ▸ rfl
  | enqueue | rearrange | mark | heartbeat | relist | forget =>
    simp only [Yard.next] at h
    split_ifs at h
    exact Option.some.inj h ▸ rfl

/-- **What an evaluation leaves, and what it has passed.** -/
theorem covered_poll {pollId : TicketId} {reads : Poll} {io : CommitCall → Answer} {t : Ticket}
    (hs : s.Sound cfg id) (ht : s.copies pollId = some t)
    (hstays : s.Stays cfg host id (.poll pollId reads io))
    (hfront : s.AtFront cfg host id (.poll pollId reads io)) :
    Carries cfg id s.disk.store
        ((Yard.pollOf cfg host s.toYard t reads).tryStart io s.disk).2.store ∧
      (s.passes cfg host id (.poll pollId reads io)).Covered cfg id
        ((Yard.pollOf cfg host s.toYard t reads).tryStart io s.disk).2.store := by
  set p := Yard.pollOf cfg host s.toYard t reads with hp
  have hnext : s.toYard.next cfg host (.poll pollId reads io) =
      some { s.toYard with disk := (p.tryStart io s.disk).2 } := by
    simp only [Yard.next, ht, Option.map_some, hp]
  obtain ⟨-, hqueued, hbehind⟩ := hstays
  obtain ⟨-, hleases, hfutile⟩ := hbehind _ hnext
  have hkeyed : p.KeyedTo id := hfront.imp_right fun h => h.1 t pollId reads io rfl ht
  have hlinked : p.v2 = true ∨
      ((p.tryStart io s.disk).2.store.unlinked = true → p.disk.store.unlinked = true) :=
    hfront.imp_right fun h => h.2 _ hnext
  have hpasses : s.passes cfg host id (.poll pollId reads io) = s.tally id p io := by
    simp only [Watch.passes, ht, hp]
  rw [hpasses]
  cases hdecide : p.decideTicket with
  | error denied =>
    obtain ⟨denial, store⟩ := denied
    rw [Poll.tryStart_of_error hdecide] at hfutile hlinked ⊢
    have hcarries : Carries cfg id s.disk.store store :=
      Poll.carries_of_denied hdecide hqueued hkeyed hfutile hlinked
    have htally : s.tally id p io = s := by simp only [Watch.tally, hdecide]
    rw [htally]
    exact ⟨hcarries, hs.covered.carried hcarries⟩
  | ok grant =>
    have hweight : 0 ≤ p.submitted.weight := (hs.sound.copy pollId t ht).2.1
    have hgrants := Poll.grants_of_decideTicket hdecide hqueued hkeyed hweight
    have hcarries : Carries cfg id (grant.paid p io) (p.tryStart io s.disk).2.store :=
      Poll.carries_of_granted hdecide hgrants hleases
    refine ⟨(hgrants.carries.trans (carries_paid hgrants io)).trans hcarries, ?_⟩
    have hcovered : (s.tally id p io).Covered p.cfg id (grant.paid p io) :=
      hs.covered.tally hs.since hdecide hgrants
    exact hcovered.carried hcarries

/-- **The step lemma.** -/
theorem watch_step {a : Act} (hs : s.Sound cfg id) (hstays : s.Stays cfg host id a)
    (hfront : s.AtFront cfg host id a) (h : (watch cfg host id).next s a = some s') :
    s'.Sound cfg id := by
  obtain ⟨y, hy, rfl⟩ := Option.map_eq_some_iff.1 h
  have hboth : Carries cfg id s.disk.store y.disk.store ∧
      (s.passes cfg host id a).Covered cfg id y.disk.store := by
    by_cases hpoll : ∃ pollId reads io, a = .poll pollId reads io
    · obtain ⟨pollId, reads, io, rfl⟩ := hpoll
      obtain ⟨t, ht, rfl⟩ := Option.map_eq_some_iff.1 hy
      exact covered_poll hs ht hstays hfront
    · have hstore := store_of_next hy (fun id reads io h => hpoll ⟨id, reads, io, h⟩) hstays.1
      have hpasses : s.passes cfg host id a = s := by
        unfold Watch.passes
        split
        · exact absurd ⟨_, _, _, rfl⟩ hpoll
        · rfl
      rw [hpasses, hstore]
      exact ⟨.refl _ _ _, hs.covered⟩
  obtain ⟨hcarries, hcovered⟩ := hboth
  refine ⟨sound_step hs.sound hy, ?_,
    ⟨hcovered.skips, hcovered.capacitySkips, hcovered.backfills, hcovered.backfillsOnFile⟩⟩
  -- what was recorded once stays, and is first recorded here otherwise
  cases hsince : s.blockedSince with
  | none => rfl
  | some t => exact hcarries.blockedSince t (hs.since.trans hsince)

end Step

/-- **A ticket is passed within the limits**, behind the fence in every run in which it stays in the
queue and is not futile, before the fence as long as it stays the head; and a pass that cannot be
counted does not start. -/
theorem skips_within_limits {cfg : Config} {host : Host} {id : TicketId} {s : Watch}
    (h : (watch cfg host id).Reach
      (fun s a => s.Stays cfg host id a ∧ s.AtFront cfg host id a) s) :
    s.WithinLimits cfg ∧ ∀ (p : Poll) (io : CommitCall → Answer) (grant : Grant) (d : Disk),
      p.decideTicket = .ok grant → grant.charge ≠ .none → grant.counted p io = false →
        (p.tryStart io d).2.leases = d.leases := by
  have hsound : s.Sound cfg id := by
    refine h.invariant (P := fun s => s.Sound cfg id) (fun s hstart => ?_)
      fun s a s' hs hok hnext => watch_step hs hok.1 hok.2 hnext
    obtain ⟨hreached, hsince, hskips, hcapacity, hbackfills⟩ := hstart
    refine ⟨hreached.sound, hsince.symm, ⟨?_, ?_⟩, ⟨?_, ?_⟩, ?_, fun _ => ?_⟩
    all_goals simp [hskips, hcapacity, hbackfills]
  exact ⟨⟨hsound.covered.skips.within, hsound.covered.capacitySkips.within,
    hsound.covered.backfills⟩, fun p io grant d => Poll.leases_of_uncounted (d := d)⟩

/-! ### Runs -/

/-- A ticket on a key. -/
def onKey (id : TicketId) (key : Key) : Ticket := { id, seq := id, key }

/-- One conflict skip is allowed. -/
def oneSkip : Config := { conflictSkipLimit := 1 }

/-- A ticket runs on key 1, another one on it is queued and withdrawn, and ticket 3 waits for it. -/
def keyTaken : List Act :=
  [.enqueue (onKey 1 1) { ticket := onKey 1 1 } 0, .poll 1 (idleAt 0) fun _ => .ok,
    .enqueue (onKey 2 1) { ticket := onKey 2 1 } 0, .rearrange [] [{ ticket := onKey 2 1 }],
    .enqueue (onKey 3 1) { ticket := onKey 3 1 } 0]

/-- Ticket 3 is passed; ticket 2, which was there before it, comes back, is the head of an
evaluation, and goes again; and another ticket is evaluated behind ticket 3. -/
def headBetween : List Act :=
  [.enqueue (onKey 4 4) { ticket := onKey 4 4 } 1, .poll 4 (idleAt 10000) fun _ => .ok,
    .rearrange [{ ticket := onKey 2 1 }, { ticket := onKey 3 1 }] [],
    .poll 2 (idleAt 11000) fun _ => .ok,
    .rearrange [{ ticket := onKey 3 1 }] [{ ticket := onKey 2 1 }],
    .enqueue (onKey 5 5) { ticket := onKey 5 5 } 1, .poll 5 (idleAt 20000) fun _ => .ok]

/-- **A run of a ticket that is watched**, behind a run of the scheduler. -/
theorem exists_watched {cfg : Config} {host : Host} {id : TicketId} {ok : Watch → Act → Prop}
    (store : Store) (before behind : List Act) (okay : Watch → Act → Bool) (p : Watch → Bool)
    (hokay : ∀ s a, okay s a = true → ok s a)
    (h : ((yard cfg host).exec { disk := { store } } before).any (fun y =>
      let s : Watch :=
        { toYard := y
          blockedSince := (y.disk.store.conflictOf id).bind ConflictRecord.blockedSince }
      (watch cfg host id).check okay s behind && ((watch cfg host id).exec s behind).any p) =
        true) :
    ∃ s, (watch cfg host id).Reach ok s ∧ p s = true := by
  obtain ⟨y, hy, hrun⟩ := (Option.any_eq_true _ _).1 h
  obtain ⟨hcheck, hp⟩ := Bool.and_eq_true_iff.1 hrun
  have hreached : Reached cfg host y := Machine.reach_of_exec before
    (.start ⟨rfl, rfl, rfl, rfl⟩) (Machine.along_of_forall (fun _ _ => trivial) _ _) hy
  exact (watch cfg host id).exists_reach_of_exec _ behind p ⟨hreached, rfl, rfl, rfl, rfl⟩
    (Machine.along_of_check okay hokay behind hcheck) hp

theorem headBetween_reached_fenced : ∃ s, (watch oneSkip aloneInQueue.host 3).Reach
    (fun s a => s.Stays oneSkip aloneInQueue.host 3 a ∧ s.AtFront oneSkip aloneInQueue.host 3 a) s ∧
      decide (s.skips = 1) = true :=
  exists_watched (.perTicket []) keyTaken headBetween
    (fun s a => decide (s.Stays oneSkip aloneInQueue.host 3 a) && s.disk.store.v2) _
    (fun s a h => by
      obtain ⟨hstays, hv2⟩ := Bool.and_eq_true_iff.1 h
      exact ⟨of_decide_eq_true hstays, .inl hv2⟩)
    (by decide +kernel)

/-- Behind the fence ticket 3 is passed once. -/
theorem skips_within_limits_headBetween : ∃ s : Watch, s.skips = 1 ∧ s.WithinLimits oneSkip := by
  obtain ⟨s, hs, hskips⟩ := headBetween_reached_fenced
  exact ⟨s, of_decide_eq_true hskips, (skips_within_limits hs).1⟩

theorem headBetween_reached_legacy : ∃ s, (watch oneSkip aloneInQueue.host 3).Reach
    (fun s a => s.Stays oneSkip aloneInQueue.host 3 a) s ∧ decide (s.skips = 2) = true :=
  exists_watched (.legacy none none none) keyTaken headBetween
    (fun s a => decide (s.Stays oneSkip aloneInQueue.host 3 a)) _
    (fun _ _ => of_decide_eq_true) (by decide +kernel)

/-- **Before the fence the allowance starts anew** once another ticket was the head. -/
theorem not_forall_withinLimits : ¬ ∀ (cfg : Config) (host : Host) (id : TicketId) (s : Watch),
    cfg.Valid → (watch cfg host id).Reach (fun s a => s.Stays cfg host id a) s →
      s.WithinLimits cfg := by
  intro h
  obtain ⟨s, hs, hskips⟩ := headBetween_reached_legacy
  have hvalid : oneSkip.Valid := ⟨fun _ h => (by cases h), by decide +kernel⟩
  have hle : s.skips ≤ 1 := (h _ _ _ s hvalid hs).1
  rw [of_decide_eq_true hskips] at hle
  omega

end Scheduler
end LaneBroker
