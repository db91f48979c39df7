/-
# From the queue to a lease

A start takes the record of the ticket out of the queue and then writes the lease.  `retierQueued`
counts on the other order ("admission writes the lease before it unlinks the queue file"); in the
order of the code a ticket is in neither place in between, and a call that throws there, or a
process that dies there, leaves it in neither.  `keepsTicket_iff` says which answers of the host do
that: everything up to the unlink is answered, and the lease is not written.
-/

import LaneBroker.Scheduler.Starts

namespace LaneBroker
namespace Scheduler

open LaneBroker.Basis LaneBroker.Basis.Fallible

/-! ### What the charges leave alone -/

/-- Neither the queue nor a lease has changed. -/
def SameWork (d d' : Disk) : Prop := d'.queue = d.queue ∧ d'.leases = d.leases

theorem SameWork.refl (d : Disk) : SameWork d d := ⟨rfl, rfl⟩

theorem SameWork.trans {d d' d'' : Disk} (h : SameWork d d') (h' : SameWork d' d'') :
    SameWork d d'' := ⟨h'.1.trans h.1, h'.2.trans h.2⟩

theorem sameWork_onStore (f : Store → Store) (d : Disk) : SameWork d (d.onStore f) := ⟨rfl, rfl⟩

/-- **A charge**: it writes skip records only, and goes through just when the calls are answered. -/
def Charges (io : CommitCall → Answer) (d : Disk) (calls : List CommitCall) (m : Commit Bool) :
    Prop :=
  Ends io m d (fun ok d' => SameWork d d' ∧ (ok = true ↔ ∀ c ∈ calls, io c = .ok))
    (fun _ _ => False) fun d' => SameWork d d' ∧ ¬ ∀ c ∈ calls, io c = .ok

section Charges

variable {io : CommitCall → Answer} {d : Disk} {T : Unit → Disk → Prop} {D : Disk → Prop}

/-- **The rule for a write in a `try`.** -/
theorem ends_tried {c : CommitCall} {f : Disk → Disk} {R : Bool → Disk → Prop}
    (hok : io c = .ok → R true (f d)) (hfails : io c = .fails → R false d)
    (hlate : io c = .failsLate → R false (f d)) (hdies : io c = .dies → D d) :
    Ends io (tried c f) d R T D := by
  unfold tried
  rw [ends_handle, ends_bind]
  exact ends_write hok hfails hlate hdies

theorem charges_tried (c : CommitCall) {f : Disk → Disk} (hf : SameWork d (f d)) :
    Charges io d [c] (tried c f) := by
  refine ends_tried (fun hc => ⟨hf, ?_⟩) (fun hc => ⟨.refl d, ?_⟩) (fun hc => ⟨hf, ?_⟩)
    fun hc => ⟨.refl d, ?_⟩
  all_goals simp [hc]

theorem charges_pure : Charges io d [] (pure true) := by
  refine ends_pure.2 ⟨.refl d, ?_⟩
  simp

/-- One charge and then another. -/
theorem Charges.and {calls calls' : List CommitCall} {m m' : Commit Bool}
    (h : Charges io d calls m) (h' : ∀ d', SameWork d d' → Charges io d' calls' m') :
    Charges io d (calls ++ calls') (andThen m m') := by
  unfold andThen
  refine Ends.bind (Ends.mono h (fun _ _ ha => ha) (fun _ _ ha => ha) fun d' ha => ?_)
    fun ok d' ha => ?_
  · exact ⟨ha.1, fun hall => ha.2 fun c hc => hall c (List.mem_append_left _ hc)⟩
  · cases ok with
    | false =>
      refine ends_pure.2 ⟨ha.1, ?_⟩
      have hnot : ¬ ∀ c ∈ calls, io c = .ok := fun hall => Bool.false_ne_true (ha.2.2 hall)
      simp only [Bool.false_eq_true, false_iff]
      exact fun hall => hnot fun c hc => hall c (List.mem_append_left _ hc)
    | true =>
      refine Ends.mono (h' d' ha.1) (fun ok d'' hb => ⟨ha.1.trans hb.1, ?_⟩) (fun _ _ hb => hb)
        fun d'' hb => ⟨ha.1.trans hb.1, fun hall => hb.2 fun c hc =>
          hall c (List.mem_append_right _ hc)⟩
      rw [hb.2, List.forall_mem_append]
      exact ⟨fun hall => ⟨ha.2.1 rfl, hall⟩, fun hall => hall.2⟩

end Charges

/-- The calls of `chargeSkip`. -/
def skipCalls (p : Poll) (grant : Grant) (store : Store) : List CommitCall :=
  match grant.charge with
  | .skip | .capacitySkip => [.skip]
  | .backfill record => (if drawsSeq p record store then [.nextSeq] else []) ++ [.skip]
  | .none => []

/-- **The calls that a start makes ahead of the dequeue.** -/
def chargeCalls (p : Poll) (grant : Grant) (store : Store) : List CommitCall :=
  skipCalls p grant store ++
    ((if grant.priorityYield.isSome then [.priorityYield] else []) ++
      if grant.express then [.expressAdmission] else [])

section Commit

variable {io : CommitCall → Answer} {p : Poll} {grant : Grant} {d : Disk}

theorem charges_chargeSkip : Charges io d (skipCalls p grant d.store) (chargeSkip p grant) := by
  unfold skipCalls chargeSkip
  cases grant.charge with
  | skip | capacitySkip => exact charges_tried _ (sameWork_onStore _ d)
  | none => exact charges_pure
  | backfill record =>
    refine ends_bind.2 (ends_get.2 ?_)
    simp only
    cases drawsSeq p record d.store with
    | false => exact charges_tried _ (sameWork_onStore _ d)
    | true =>
      exact (charges_tried .nextSeq (f := id) (.refl d)).and fun d' _ =>
        charges_tried .skip (sameWork_onStore _ d')

theorem charges_chargeYield :
    Charges io d (if grant.priorityYield.isSome then [.priorityYield] else [])
      (chargeYield grant) := by
  unfold chargeYield
  cases grant.priorityYield with
  | none => exact charges_pure
  | some record => exact charges_tried _ (sameWork_onStore _ d)

theorem charges_chargeExpress :
    Charges io d (if grant.express then [.expressAdmission] else []) (chargeExpress p grant) := by
  unfold chargeExpress
  cases grant.express with
  | false => exact charges_pure
  | true => exact charges_tried _ ⟨rfl, rfl⟩

/-- **The charges touch no work**, and let a start through just when all of them are answered and
the ticket is not cancelled. -/
theorem ends_charges : Ends io (charges p grant) d
    (fun refusal d' => SameWork d d' ∧ (∀ lease, refusal ≠ some (.started lease)) ∧
      (refusal = none ↔ (∀ c ∈ chargeCalls p grant d.store, io c = .ok) ∧ grant.cancelled = false))
    (fun _ _ => False)
    fun d' => SameWork d d' ∧ ¬ ∀ c ∈ chargeCalls p grant d.store, io c = .ok := by
  unfold charges chargeCalls
  have hcalls : ∀ rest, (∀ c ∈ skipCalls p grant d.store ++ rest, io c = .ok) ↔
      (∀ c ∈ skipCalls p grant d.store, io c = .ok) ∧ ∀ c ∈ rest, io c = .ok :=
    fun rest => List.forall_mem_append
  simp only [hcalls]
  refine Ends.bind (Ends.mono charges_chargeSkip (fun _ _ ha => ha) (fun _ _ ha => ha)
    fun d' ha => ⟨ha.1, fun hall => ha.2 hall.1⟩) fun ok d' ha => ?_
  cases ok with
  | false =>
    refine ends_pure.2 ⟨ha.1, by simp, ?_⟩
    have hnot : ¬ ∀ c ∈ skipCalls p grant d.store, io c = .ok := fun hall =>
      Bool.false_ne_true (ha.2.2 hall)
    simp [hnot]
  | true =>
    have hskip := ha.2.1 rfl
    cases hcancelled : grant.cancelled with
    | true => exact ends_pure.2 ⟨ha.1, by simp, by simp⟩
    | false =>
      refine Ends.bind (Ends.mono (charges_chargeYield.and fun _ _ => charges_chargeExpress)
        (fun _ _ hb => hb) (fun _ _ hb => hb) fun d'' hb => ?_) fun ok d'' hb => ?_
      · exact ⟨ha.1.trans hb.1, fun hall => hb.2 hall.2⟩
      · cases ok with
        | false =>
          refine ends_pure.2 ⟨ha.1.trans hb.1, by simp, ?_⟩
          simp only [reduceCtorEq, false_iff, and_true]
          exact fun hall => Bool.false_ne_true (hb.2.2 hall.2)
        | true =>
          refine ends_pure.2 ⟨ha.1.trans hb.1, by simp, ?_⟩
          simp only [true_iff, and_true]
          exact ⟨hskip, hb.2.1 rfl⟩

theorem ends_dequeueSync {id : TicketId} (hqueued : d.queue.any (isRecordOf id) = true) :
    Ends io (dequeueSync id) d
      (fun gone d' =>
        gone = true ∧ io .findQueueFile = .ok ∧ io .unlink = .ok ∧ d' = d.unlinked id ∨
          d' = d ∧ ¬ (io .findQueueFile = .ok ∧ io .unlink = .ok))
      (fun _ _ => False)
      fun d' => d' = d ∧ ¬ (io .findQueueFile = .ok ∧ io .unlink = .ok) := by
  unfold dequeueSync
  refine ends_bind.2 (ends_tried (fun hfind => ?_) (fun hfind => ?_) (fun hfind => ?_)
    fun hfind => ?_)
  · simp only [Bool.not_true, Bool.false_eq_true, if_false]
    refine ends_bind.2 (ends_get.2 ?_)
    simp only [id_eq, hqueued, Bool.not_true, Bool.false_eq_true, if_false]
    refine ends_handle.2 (ends_bind.2 (ends_call (fun hunlink => ?_) (fun hunlink => ?_)
      fun hunlink => ?_))
    · exact .inl ⟨rfl, hfind, hunlink, rfl⟩
    · refine .inr ⟨rfl, fun h => ?_⟩
      rcases hunlink with hunlink | hunlink <;> rw [hunlink] at h <;> cases h.2
    · exact ⟨rfl, fun h => by simp [hunlink] at h⟩
  · exact .inr ⟨rfl, fun h => by simp [hfind] at h⟩
  · exact .inr ⟨rfl, fun h => by simp [hfind] at h⟩
  · exact ⟨rfl, fun h => by simp [hfind] at h⟩

/-- What a start does to the work: the queue only loses records, and if the leases change, the
granted lease is written. -/
def Starting (d : Disk) (lease : Lease) (d' : Disk) : Prop :=
  d'.queue.Sublist d.queue ∧ (d'.leases = d.leases ∨ d'.leases = (d.leased lease).leases)

theorem departed_leases (grant : Grant) (d : Disk) : (d.departed grant).leases = d.leases := by
  unfold Disk.departed
  split_ifs <;> rfl

theorem departed_queue (grant : Grant) (d : Disk) : (d.departed grant).queue = d.queue := by
  unfold Disk.departed
  split_ifs <;> rfl

theorem ends_writeLease_work {d₀ : Disk} (hqueue : d.queue.Sublist d₀.queue)
    (hleases : d.leases = d₀.leases) :
    Ends io (writeLease grant) d (fun _ => Starting d₀ grant.lease)
      (fun _ => Starting d₀ grant.lease) (Starting d₀ grant.lease) := by
  have hbefore : Starting d₀ grant.lease d := ⟨hqueue, .inl hleases⟩
  have hafter : ∀ d', d'.queue = d.queue → d'.leases = (d.leased grant.lease).leases →
      Starting d₀ grant.lease d' := by
    intro d' hd hd'
    refine ⟨hd ▸ hqueue, .inr ?_⟩
    rw [hd']
    simp only [Disk.leased, hleases]
  unfold writeLease
  refine ends_bind.2 (ends_call (fun _ => ?_) (fun _ => hbefore) fun _ => hbefore)
  refine ends_bind.2 (ends_write (fun _ => ?_) (fun _ => hbefore) (fun _ => hafter _ rfl rfl)
    fun _ => hbefore)
  refine ends_bind.2 (ends_call (fun _ => ?_) (fun _ => hafter _ rfl rfl) fun _ => hafter _ rfl rfl)
  refine ends_bind.2 (ends_tried (fun _ => ?_) (fun _ => ?_) (fun _ => ?_)
    fun _ => hafter _ rfl rfl)
  · exact ends_pure.2 (hafter _ (departed_queue _ _) (departed_leases _ _))
  · exact ends_pure.2 (hafter _ rfl rfl)
  · exact ends_pure.2 (hafter _ (departed_queue _ _) (departed_leases _ _))

theorem ends_dequeueSync_work {id : TicketId} :
    Ends io (dequeueSync id) d (fun _ d' => d'.queue.Sublist d.queue ∧ d'.leases = d.leases)
      (fun _ _ => False) fun d' => d' = d := by
  have hsame : d.queue.Sublist d.queue ∧ d.leases = d.leases := ⟨List.Sublist.refl _, rfl⟩
  unfold dequeueSync
  refine ends_bind.2 (ends_tried (fun _ => ?_) (fun _ => hsame) (fun _ => hsame) fun _ => rfl)
  simp only [Bool.not_true, Bool.false_eq_true, if_false]
  refine ends_bind.2 (ends_get.2 ?_)
  split_ifs
  · exact hsame
  · exact ends_handle.2 (ends_bind.2 (ends_call (fun _ => ⟨List.eraseP_sublist, rfl⟩)
      (fun _ => hsame) fun _ => rfl))

/-- **What an evaluation does to the work**: the queue only loses records, and the leases stay as
they are, or the lease of a grant that was not cancelled is written. -/
theorem tryStart_work (p : Poll) (io : CommitCall → Answer) :
    (p.tryStart io p.disk).2.queue.Sublist p.disk.queue ∧
      ((p.tryStart io p.disk).2.leases = p.disk.leases ∨
        ∃ grant, p.decideTicket = .ok grant ∧ grant.cancelled = false ∧
          (p.tryStart io p.disk).2.leases = (p.disk.leased grant.lease).leases) := by
  cases hdecide : p.decideTicket with
  | error denial =>
    rw [Poll.tryStart_of_error hdecide]
    exact ⟨List.Sublist.refl _, .inl rfl⟩
  | ok grant =>
    suffices h : Ends io p.tryStart p.disk
        (fun _ d' => Starting p.disk grant.lease d' ∧
          (d'.leases = p.disk.leases ∨ grant.cancelled = false))
        (fun _ d' => Starting p.disk grant.lease d' ∧
          (d'.leases = p.disk.leases ∨ grant.cancelled = false))
        fun d' => Starting p.disk grant.lease d' ∧
          (d'.leases = p.disk.leases ∨ grant.cancelled = false) by
      obtain ⟨⟨hqueue, hleases⟩, hcancelled⟩ := h.final
      refine ⟨hqueue, ?_⟩
      rcases hleases with hleases | hleases
      · exact .inl hleases
      · exact hcancelled.imp_right fun hcancelled => ⟨grant, rfl, hcancelled, hleases⟩
    unfold Poll.tryStart
    rw [hdecide]
    refine ends_bind.2 (ends_modify.2 ?_)
    have hwork : ∀ d', SameWork p.disk d' → Starting p.disk grant.lease d' ∧
        (d'.leases = p.disk.leases ∨ grant.cancelled = false) := fun d' h =>
      ⟨⟨h.1 ▸ List.Sublist.refl _, .inl h.2⟩, .inl h.2⟩
    have hsame := sameWork_onStore (fun _ => grant.store) p.disk
    refine Ends.bind (Ends.mono ends_charges (fun _ _ ha => ha) (fun _ _ ha => ha.elim)
      fun d' ha => hwork d' (hsame.trans ha.1)) fun refusal d' ha => ?_
    have hd' := hsame.trans ha.1
    cases refusal with
    | some refusal => exact ends_pure.2 (hwork d' hd')
    | none =>
      have hcancelled := (ha.2.2.1 rfl).2
      unfold moveToLease
      refine Ends.bind (Ends.mono ends_dequeueSync_work (fun _ _ hb => hb) (fun _ _ hb => hb.elim)
        fun d'' hb => hb ▸ hwork d' hd') fun gone d'' hb => ?_
      have hqueue : d''.queue.Sublist p.disk.queue := hd'.1 ▸ hb.1
      have hleases : d''.leases = p.disk.leases := hb.2.trans hd'.2
      cases gone with
      | false => exact ends_pure.2 ⟨⟨hqueue, .inl hleases⟩, .inl hleases⟩
      | true =>
        exact (ends_writeLease_work hqueue hleases).mono (fun _ _ h => ⟨h, .inr hcancelled⟩)
          (fun _ _ h => ⟨h, .inr hcancelled⟩) fun _ h => ⟨h, .inr hcancelled⟩

end Commit

/-! ### In neither place -/

/-- The seq under which a ticket is queued. -/
def Disk.queuedSeq (d : Disk) (id : TicketId) : Option ℕ :=
  (d.queue.find? (isRecordOf id)).map fun r => r.ticket.seq

/-- There is a lease of the ticket. -/
def Disk.Leased (d : Disk) (id : TicketId) : Prop := ∃ l ∈ d.leases, l.id = id

/-- **The ticket is not lost**: it was started, or it is still queued under its seq, or there is a
lease of it. -/
def Poll.Kept (p : Poll) (o : Ending Unit Verdict) (d : Disk) : Prop :=
  (∃ lease, o = .returned (.started lease)) ∨
    d.queuedSeq p.submitted.id = p.disk.queuedSeq p.submitted.id ∨ d.Leased p.submitted.id

/-- The lease is not written. -/
def NoLease (io : CommitCall → Answer) : Prop :=
  io .leaseFields ≠ .ok ∨ io .writeLease = .fails ∨ io .writeLease = .dies

/-- **How a ticket gets lost**: all the charges are answered, no cancel marker is found, the record
is unlinked, and then the lease is not written; and there was none before. -/
def Poll.Loses (p : Poll) (io : CommitCall → Answer) (grant : Grant) : Prop :=
  (∀ c ∈ chargeCalls p grant grant.store, io c = .ok) ∧ grant.cancelled = false ∧
    (io .findQueueFile = .ok ∧ io .unlink = .ok) ∧ NoLease io ∧ ¬ p.disk.Leased p.submitted.id

theorem queuedSeq_congr {d d' : Disk} (h : SameWork d d') (id : TicketId) :
    d'.queuedSeq id = d.queuedSeq id := by
  unfold Disk.queuedSeq
  rw [h.1]

theorem leased_congr {d d' : Disk} (h : d'.leases = d.leases) (id : TicketId) :
    d'.Leased id ↔ d.Leased id := by
  unfold Disk.Leased
  rw [h]

/-- Of distinct tickets only one has the id. -/
theorem not_isRecordOf_of_mem_eraseP {id : TicketId} {queue : List QueueRecord}
    (hunique : queue.Pairwise fun r r' => r.ticket.id ≠ r'.ticket.id) :
    ∀ r ∈ queue.eraseP (isRecordOf id), isRecordOf id r = false := by
  induction queue with
  | nil => simp
  | cons r' rest ih =>
    obtain ⟨hne, hrest⟩ := List.pairwise_cons.1 hunique
    intro r hr
    rw [List.eraseP_cons] at hr
    cases hr' : isRecordOf id r' with
    | true =>
      rw [hr', cond_true] at hr
      have hother := hne r hr
      rw [beq_iff_eq.1 hr'] at hother
      exact beq_eq_false_iff_ne.2 (Ne.symm hother)
    | false =>
      rw [hr', cond_false, List.mem_cons] at hr
      rcases hr with rfl | hr
      · exact hr'
      · exact ih hrest r hr

/-- Without its record a ticket is not queued. -/
theorem queuedSeq_unlinked {d : Disk} {id : TicketId}
    (hunique : d.queue.Pairwise fun r r' => r.ticket.id ≠ r'.ticket.id) :
    (d.unlinked id).queuedSeq id = none := by
  unfold Disk.queuedSeq Disk.unlinked
  rw [Option.map_eq_none_iff, List.find?_eq_none]
  intro r hr
  rw [not_isRecordOf_of_mem_eraseP hunique r hr]
  exact Bool.false_ne_true

theorem leased_leased (lease : Lease) (d : Disk) : (d.leased lease).Leased lease.id :=
  ⟨lease, by simp [Disk.leased], rfl⟩

section Start

variable {p : Poll} {io : CommitCall → Answer} {grant : Grant}

/-- What was granted is in the queue, under its id. -/
theorem queued_of_decideTicket (h : p.decideTicket = .ok grant) :
    grant.lease.id = p.submitted.id ∧ p.disk.queue.any (isRecordOf p.submitted.id) = true ∧
      p.disk.queuedSeq p.submitted.id ≠ none := by
  obtain ⟨pre, r, post, hqueue, hid, -, -⟩ := Poll.readable_of_decideTicket h
  have hmem : r ∈ p.disk.queue := by simp [hqueue]
  have hrecord : isRecordOf p.submitted.id r = true := beq_iff_eq.2 hid
  refine ⟨?_, List.any_eq_true.2 ⟨r, hmem, hrecord⟩, ?_⟩
  · obtain ⟨s, -, rfl, -, -, rfl⟩ := Poll.starts_of_decideTicket h
    exact s.lease_id.trans s.toPoll.ticket_id
  · rw [Disk.queuedSeq, Ne, Option.map_eq_none_iff, List.find?_eq_none]
    exact fun hnone => hnone r hmem hrecord

/-- **Behind the dequeue**: the lease is what keeps the ticket. -/
theorem ends_lease {d : Disk} {gone : Prop} (hid : grant.lease.id = p.submitted.id)
    (hgone : gone → d.queuedSeq p.submitted.id ≠ p.disk.queuedSeq p.submitted.id)
    (hstays : ¬ gone → d.queuedSeq p.submitted.id = p.disk.queuedSeq p.submitted.id)
    (hleases : d.leases = p.disk.leases) :
    Ends io (writeLease grant) d
      (fun v d' => p.Kept (.returned v) d' ↔ ¬ (gone ∧ NoLease io ∧ ¬ p.disk.Leased p.submitted.id))
      (fun e d' => p.Kept (.thrown e) d' ↔ ¬ (gone ∧ NoLease io ∧ ¬ p.disk.Leased p.submitted.id))
      fun d' => p.Kept .died d' ↔ ¬ (gone ∧ NoLease io ∧ ¬ p.disk.Leased p.submitted.id) := by
  -- where no lease was written, and where one was
  have hbefore : ∀ o : Ending Unit Verdict, (∀ lease, o ≠ .returned (.started lease)) → NoLease io →
      (p.Kept o d ↔ ¬ (gone ∧ NoLease io ∧ ¬ p.disk.Leased p.submitted.id)) := by
    intro o ho hfault
    unfold Poll.Kept
    rw [leased_congr hleases]
    by_cases h : gone
    · simp [ho, hgone h, h, hfault]
    · simp [hstays h, h]
  have hafter : ∀ (o : Ending Unit Verdict) (d' : Disk), d'.leases = (d.leased grant.lease).leases →
      ¬ NoLease io → (p.Kept o d' ↔ ¬ (gone ∧ NoLease io ∧ ¬ p.disk.Leased p.submitted.id)) := by
    intro o d' hd' hfault
    have hleased : d'.Leased p.submitted.id := by
      rw [leased_congr hd', ← hid]
      exact leased_leased _ _
    simp [Poll.Kept, hleased, hfault]
  refine ends_bind.2 (ends_call (fun hfields => ?_) (fun hfields => ?_) fun hfields => ?_)
  · refine ends_bind.2 (ends_write (fun hwrite => ?_) (fun hwrite => ?_) (fun hwrite => ?_)
      fun hwrite => ?_)
    · have hnot : ¬ NoLease io := by simp [NoLease, hfields, hwrite]
      refine ends_bind.2 (ends_call (fun _ => ?_) (fun _ => ?_) fun _ => ?_)
      · refine ends_bind.2 (ends_tried (fun _ => ?_) (fun _ => ?_) (fun _ => ?_) fun _ => ?_)
        · exact ends_pure.2 (hafter _ _ (departed_leases _ _) hnot)
        · exact ends_pure.2 (hafter _ _ rfl hnot)
        · exact ends_pure.2 (hafter _ _ (departed_leases _ _) hnot)
        · exact hafter _ _ rfl hnot
      · exact hafter _ _ rfl hnot
      · exact hafter _ _ rfl hnot
    · exact hbefore _ (by simp) (.inr (.inl hwrite))
    · exact hafter _ _ rfl (by simp [NoLease, hfields, hwrite])
    · exact hbefore _ (by simp) (.inr (.inr hwrite))
  · exact hbefore _ (by simp) (.inl (by rcases hfields with h | h <;> simp [h]))
  · exact hbefore _ (by simp) (.inl (by simp [hfields]))

/-- **From the queue to a lease**, from a disk with the same work on it. -/
theorem ends_moveToLease {d : Disk} (hgrant : p.decideTicket = .ok grant)
    (hunique : p.disk.queue.Pairwise fun r r' => r.ticket.id ≠ r'.ticket.id)
    (hsame : SameWork p.disk d) :
    Ends io (moveToLease grant) d
      (fun v d' => p.Kept (.returned v) d' ↔ ¬ ((io .findQueueFile = .ok ∧ io .unlink = .ok) ∧
        NoLease io ∧ ¬ p.disk.Leased p.submitted.id))
      (fun e d' => p.Kept (.thrown e) d' ↔ ¬ ((io .findQueueFile = .ok ∧ io .unlink = .ok) ∧
        NoLease io ∧ ¬ p.disk.Leased p.submitted.id))
      fun d' => p.Kept .died d' ↔ ¬ ((io .findQueueFile = .ok ∧ io .unlink = .ok) ∧
        NoLease io ∧ ¬ p.disk.Leased p.submitted.id) := by
  obtain ⟨hid, hqueued, hseq⟩ := queued_of_decideTicket hgrant
  unfold moveToLease
  rw [hid]
  refine Ends.bind (Ends.mono (ends_dequeueSync (hsame.1 ▸ hqueued)) (fun _ _ ha => ha)
    (fun _ _ ha => ha.elim) fun d' ha => ?_) fun gone d' ha => ?_
  · obtain ⟨rfl, hnot⟩ := ha
    simp [Poll.Kept, queuedSeq_congr hsame, hnot]
  · rcases ha with ⟨rfl, hfind, hunlink, rfl⟩ | ⟨rfl, hnot⟩
    · refine ends_lease hid (fun _ => ?_) (fun hnot => absurd ⟨hfind, hunlink⟩ hnot) hsame.2
      rw [queuedSeq_unlinked (hsame.1 ▸ hunique)]
      exact Ne.symm hseq
    · cases gone with
      | false => exact ends_pure.2 (by simp [Poll.Kept, queuedSeq_congr hsame, hnot])
      | true =>
        exact ends_lease hid (fun h => absurd h hnot) (fun _ => queuedSeq_congr hsame _) hsame.2

/-- What is granted is lost just where everything up to the unlink of its record is answered and the
lease is then not written. -/
theorem kept_iff_not_loses (hgrant : p.decideTicket = .ok grant)
    (hunique : p.disk.queue.Pairwise fun r r' => r.ticket.id ≠ r'.ticket.id) :
    p.Kept (p.tryStart io p.disk).1 (p.tryStart io p.disk).2 ↔ ¬ p.Loses io grant := by
  suffices h : Ends io p.tryStart p.disk (fun v d' => p.Kept (.returned v) d' ↔ ¬ p.Loses io grant)
      (fun e d' => p.Kept (.thrown e) d' ↔ ¬ p.Loses io grant)
      fun d' => p.Kept .died d' ↔ ¬ p.Loses io grant by
    unfold Ends at h
    split at h <;> rename_i heq <;> rw [heq]
    · exact h
    · exact h
    · exact h
  unfold Poll.tryStart
  rw [hgrant]
  refine ends_bind.2 (ends_modify.2 ?_)
  have hsame := sameWork_onStore (fun _ => grant.store) p.disk
  have hkept : ∀ (o : Ending Unit Verdict) d', SameWork p.disk d' → p.Kept o d' := fun o d' h =>
    .inr (.inl (queuedSeq_congr h _))
  refine Ends.bind (Ends.mono ends_charges (fun _ _ ha => ha) (fun _ _ ha => ha.elim)
    fun d' ha => ?_) fun refusal d' ha => ?_
  · exact iff_of_true (hkept _ _ (hsame.trans ha.1)) fun hloses => ha.2 hloses.1
  · obtain ⟨hwork, -, hnone⟩ := ha
    have hwork' := hsame.trans hwork
    cases refusal with
    | some refusal =>
      refine ends_pure.2 (iff_of_true (hkept _ _ hwork') fun hloses => ?_)
      exact absurd (hnone.2 ⟨hloses.1, hloses.2.1⟩) (by simp)
    | none =>
      obtain ⟨hcalls, hcancelled⟩ := hnone.1 rfl
      have hiff : p.Loses io grant ↔ (io .findQueueFile = .ok ∧ io .unlink = .ok) ∧ NoLease io ∧
          ¬ p.disk.Leased p.submitted.id :=
        ⟨fun h => h.2.2, fun h => ⟨hcalls, hcancelled, h⟩⟩
      rw [hiff]
      exact ends_moveToLease hgrant hunique hwork'

/-- **Exactly when a ticket stays in one of the two places**, however `tryStart` ends: not where a
start is granted, everything up to the unlink of its record is answered and the lease is then not
written. -/
theorem keepsTicket_iff (p : Poll) (io : CommitCall → Answer)
    (hunique : p.disk.queue.Pairwise fun r r' => r.ticket.id ≠ r'.ticket.id) :
    p.Kept (p.tryStart io p.disk).1 (p.tryStart io p.disk).2 ↔
      ∀ grant, p.decideTicket = .ok grant → ¬ p.Loses io grant := by
  cases hdecide : p.decideTicket with
  | error denial =>
    rw [Poll.tryStart_of_error hdecide]
    exact iff_of_true (.inr (.inl rfl)) fun grant hgrant => by cases hgrant
  | ok grant =>
    rw [kept_iff_not_loses hdecide hunique]
    exact ⟨fun h grant' hgrant => Except.ok.inj hgrant ▸ h, fun h => h grant rfl⟩

/-- One ticket in the queue, on a host that is free. -/
def aloneInQueue : Poll :=
  { cfg := {}
    host := { cpuCores := 10, memoryBytes := 34359738368 }
    disk := { queue := [{ ticket := { id := 1, seq := 7 } }] }
    submitted := { id := 1, seq := 7 }
    now := 0 }

theorem keepsTicket_iff_aloneInQueue :
    aloneInQueue.Kept (aloneInQueue.tryStart (fun _ => .ok) aloneInQueue.disk).1
        (aloneInQueue.tryStart (fun _ => .ok) aloneInQueue.disk).2 ↔
      ∀ grant, aloneInQueue.decideTicket = .ok grant → ¬ aloneInQueue.Loses (fun _ => .ok) grant :=
  keepsTicket_iff aloneInQueue (fun _ => .ok) (List.pairwise_singleton _ _)

/-- The disk is full when the lease is to be written. -/
def diskFull : CommitCall → Answer
  | .writeLease => .fails
  | _ => .ok

theorem aloneInQueue_diskFull : aloneInQueue.tryStart diskFull aloneInQueue.disk =
    (.thrown (),
      { queue := [], leases := [], store := .perTicket [], expressAdmissions := [] }) := by
  decide +kernel

/-- **A ticket is lost from both places** where the write of its lease throws. -/
theorem not_forall_kept : ∃ (p : Poll) (io : CommitCall → Answer),
    p.disk.queuedSeq p.submitted.id = some 7 ∧
      ¬ p.Kept (p.tryStart io p.disk).1 (p.tryStart io p.disk).2 := by
  refine ⟨aloneInQueue, diskFull, rfl, ?_⟩
  rw [aloneInQueue_diskFull]
  rintro (⟨lease, h⟩ | h | ⟨l, hl, -⟩)
  · cases h
  · cases h
  · exact List.not_mem_nil hl

end Start

end Scheduler
end LaneBroker
