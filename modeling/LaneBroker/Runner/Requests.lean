/-
# What an answer to the submitter proves

The requests of a submitter, step by step.  Every file operation of a request meets its
condition, and what a request remembers between two steps (`Request.Knows`) grows into what its
answer says: a withdrawal that answers `withdrawn`, or that tombstoned the ticket, knows the
ticket barred; a confirmed cancel knows it barred or already started.
-/

import LaneBroker.Runner.Coherence

namespace LaneBroker
namespace Runner

open LaneBroker.Basis

/-! ### The sections of the requests -/

/-- The operations that need no condition. -/
def RunnerOp.free : RunnerOp → Bool
  | .inDir .writeCancelled | .inDir .writeShutdown | .inDir .writeShutdownUnstarted
  | .onLane .unlinkQueue | .onLane .writeLease | .onLane .writeCancelMarker
  | .onLane .writeExpireMarker | .setMigrating _ | .setDraining _ => true
  | _ => false

theorem opOk_of_free {op : RunnerOp} (h : op.free = true) (t : Ticket) : OpOk t op := by
  cases op with
  | inDir op => cases op <;> trivial
  | onLane op => cases op <;> trivial
  | _ => trivial

theorem journalOk_of_free {t : Ticket} {journal : List RunnerOp}
    (h : ∀ op ∈ journal, op.free = true) : JournalOk t journal :=
  (beforeEach_const.2 h).mono fun _ _ hop => opOk_of_free hop _

theorem journalOk_nil (t : Ticket) : JournalOk t [] := trivial

theorem journalOk_single {t : Ticket} {op : RunnerOp} (h : OpOk t op) : JournalOk t [op] :=
  ⟨h, trivial⟩

theorem tombstoneAbsentTicket_spec (s : Files) :
    (s.dir.isSome = true ∧ tombstoneAbsentTicket.value s = false ∧
      tombstoneAbsentTicket.journal s = []) ∨
    (s.dir = none ∧ tombstoneAbsentTicket.value s = true ∧
      tombstoneAbsentTicket.journal s = [.writeTombstone]) := by
  cases h : s.dir with
  | none => exact .inr ⟨rfl, by simp [tombstoneAbsentTicket, h], by simp [tombstoneAbsentTicket, h]⟩
  | some d =>
    exact .inl ⟨rfl, by simp [tombstoneAbsentTicket, h], by simp [tombstoneAbsentTicket, h]⟩

/-- What a withdrawal of the lane does: it finds the proof of an earlier one, or it commits one
on a queued lane, or it answers something else and writes nothing. -/
theorem withdrawLane_spec (unlinked : Bool) (s : Files) :
    ((s.lane.withdrawMarker = true ∨ ∃ r, s.lane.result = some r ∧ r.reason = some .withdrawn) ∧
      (withdrawLane unlinked).value s = .withdrawn ∧ (withdrawLane unlinked).journal s = []) ∨
    (s.lane.queued = true ∧ (withdrawLane unlinked).value s = .withdrawn ∧
      (withdrawLane unlinked).journal s = .onLane .writeWithdrawMarker ::
        (dequeueLane unlinked).journal s) ∨
    (((withdrawLane unlinked).value s = .notQueued ∨ (withdrawLane unlinked).value s = .cancelled ∨
        (withdrawLane unlinked).value s = .started) ∧
      (withdrawLane unlinked).journal s = []) := by
  unfold withdrawLane
  simp only [Locked.value_bind, Locked.journal_bind, Locked.value_read, Locked.journal_read,
    Locked.after_read, List.nil_append]
  by_cases hw : s.lane.withdrawMarker = true
  · exact .inl ⟨.inl hw, by simp [hw], by simp [hw]⟩
  by_cases hr : (s.lane.result.map (·.saysWithdrawn)).getD false = true
  · refine .inl ⟨.inr ?_, by simp [hw, hr], by simp [hw, hr]⟩
    cases hres : s.lane.result with
    | none => simp [hres] at hr
    | some r =>
      simp only [hres, LaneResult.saysWithdrawn, Option.map_some, Option.getD_some,
        Bool.and_eq_true, decide_eq_true_eq] at hr
      exact ⟨r, rfl, hr.1⟩
  simp only [hw, hr, if_false, Bool.false_eq_true]
  by_cases hm : s.migrating = true
  · exact .inr (.inr ⟨.inl (by simp [hm]), by simp [hm]⟩)
  by_cases hc : s.lane.cancelMarker = true
  · exact .inr (.inr ⟨.inr (.inl (by simp [hm, hc])), by simp [hm, hc]⟩)
  by_cases hle : s.lane.lease = true
  · exact .inr (.inr ⟨.inr (.inr (by simp [hm, hc, hle])), by simp [hm, hc, hle]⟩)
  by_cases hq : s.lane.queued = true
  · refine .inr (.inl ⟨hq, by simp [hm, hc, hle, hq], ?_⟩)
    cases unlinked <;> simp [hm, hc, hle, hq, dequeueLane]
  · exact .inr (.inr ⟨.inl (by simp [hm, hc, hle, hq]), by simp [hm, hc, hle, hq]⟩)

theorem dequeueLane_free (unlinked : Bool) (s : Files) :
    ∀ op ∈ (dequeueLane unlinked).journal s, op.free = true := by
  cases unlinked <;> simp [dequeueLane, RunnerOp.free]

theorem marked_cancelled (s : Files) :
    (RunnerOp.apply (.inDir .writeCancelled) s).marked (·.remoteId) = s.marked (·.remoteId) := by
  cases h : s.dir <;> simp [RunnerOp.apply, Files.marked, DirOp.apply, h]

/-- The journal of the locked step of a cancel, by what it learned. -/
theorem markCancelled_spec (fault : Option CancelFault) (s : Files) :
    ((markCancelled fault).value s = .unknown ∧
      (markCancelled fault).journal s = [.inDir .writeCancelled]) ∨
    (s.marked (·.remoteId) = false ∧ (markCancelled fault).value s = .noLane ∧
      (markCancelled fault).journal s = [.inDir .writeCancelled]) ∨
    (s.marked (·.remoteId) = true ∧
      (markCancelled fault).value s =
        .marked (fault = some .registered || isRegisteredInBroker s) ∧
      (markCancelled fault).journal s = [.inDir .writeCancelled, .onLane .writeCancelMarker]) := by
  unfold markCancelled
  simp only [Locked.value_bind, Locked.journal_bind, Locked.value_read, Locked.journal_read,
    Locked.after_read, Locked.journal_effect, Locked.after_effect, List.nil_append]
  by_cases hf : fault = some .remoteId
  · exact .inl ⟨by simp [hf], by simp [hf]⟩
  by_cases hm : s.marked (·.remoteId) = true
  · refine .inr (.inr ⟨hm, ?_, ?_⟩)
    · simp only [Effects.apply, marked_cancelled, hm, hf, if_false, Bool.not_true,
        Bool.false_eq_true]
      rfl
    · simp only [Effects.apply, marked_cancelled, hm, hf, if_false, Bool.not_true,
        Bool.false_eq_true]
      rfl
  · refine .inr (.inl ⟨by simpa using hm, ?_, ?_⟩)
    · simp [Effects.apply, marked_cancelled, hm, hf]
    · simp [Effects.apply, marked_cancelled, hm, hf]

theorem cancelQueuedLane_spec (s : Files) :
    (s.lane.queued = false ∧ cancelQueuedLane.value s = false ∧
      cancelQueuedLane.journal s = []) ∨
    (s.lane.queued = true ∧ cancelQueuedLane.value s = true ∧
      cancelQueuedLane.journal s = [.onLane .unlinkQueue, .onLane .writeCancelMarker]) := by
  cases h : s.lane.queued with
  | false => exact .inl ⟨rfl, by simp [cancelQueuedLane, h], by simp [cancelQueuedLane, h]⟩
  | true => exact .inr ⟨rfl, by simp [cancelQueuedLane, h], by simp [cancelQueuedLane, h]⟩

theorem shutdownTicket_free (s : Files) :
    ∀ op ∈ shutdownTicket.journal s, op.free = true := by
  unfold shutdownTicket
  simp only [Locked.journal_bind, Locked.value_read, Locked.journal_read, Locked.after_read,
    List.nil_append]
  split
  · simp
  · rename_i d hd
    by_cases hr : d.result.isSome = true
    · simp [hr]
    by_cases hid : d.remoteId = true
    · by_cases hq : s.lane.queued = true <;> by_cases hl : s.lane.lease = true <;>
        simp [hr, hid, hq, hl, RunnerOp.free]
    · simp [hr, hid, RunnerOp.free]

/-! ### What a request knows -/

/-- **What a request knows between two of its steps.** -/
def Request.Knows (t : Ticket) : Request → Prop
  | .cancelMark => t.files.dir.isSome = true
  | .cancelQueued .remoteCancel | .cancelLease .remoteCancel | .leaseSeen .remoteCancel
  | .leaseMarked .remoteCancel | .awaitingRelease .remoteCancel | .cancelRecheck =>
    standing t ≠ .possible
  | .settling _ ops => (standing t).Settled ∧ ∀ op ∈ ops, op ∈ orphanOps
  | .replied (.withdraw .withdrawn) | .replied (.withdraw .noSuchTicket) => standing t = .barred
  | .replied (.cancel true) => (standing t).Settled
  | _ => True

/-- The ticket moved forward. -/
def Ticket.Leads (t t' : Ticket) : Prop :=
  (t.files.dir.isSome = true → t'.files.dir.isSome = true) ∧ (standing t).Leads (standing t')

theorem Ticket.Leads.refl (t : Ticket) : t.Leads t := ⟨id, .refl _⟩

/-- What a request knows stays true. -/
theorem Request.Knows.leads {t t' : Ticket} {r : Request} (h : r.Knows t) (hl : t.Leads t') :
    r.Knows t' := by
  cases r with
  | cancelMark => exact hl.1 h
  | cancelQueued why | cancelLease why | leaseSeen why | leaseMarked why | awaitingRelease why =>
    cases why with
    | remoteCancel => exact hl.2.ne_possible h
    | other => trivial
  | cancelRecheck => exact hl.2.ne_possible h
  | settling why ops => exact ⟨hl.2.settled h.1, h.2⟩
  | replied r =>
    cases r with
    | withdraw action =>
      cases action with
      | withdrawn | noSuchTicket => exact hl.2.barred h
      | _ => trivial
    | cancel confirmed =>
      cases confirmed with
      | true => exact hl.2.settled h
      | false => trivial
  | _ => trivial

theorem dir_isSome_apply {op : RunnerOp} {s : Files} (h : s.dir.isSome = true) :
    (op.apply s).dir.isSome = true := by
  cases op <;> simp_all [RunnerOp.apply]

theorem dir_isSome_applyAll {ops : List RunnerOp} {s : Files} (h : s.dir.isSome = true) :
    (applyAll ops s).dir.isSome = true := by
  induction ops generalizing s with
  | nil => exact h
  | cons op ops ih => exact ih (dir_isSome_apply h)

theorem dir_isSome_perform {t : Ticket} (h : t.files.dir.isSome = true)
    (journal : List RunnerOp) (crashAt : Option ℕ) :
    (t.perform journal crashAt).files.dir.isSome = true := by
  cases crashAt with
  | none => exact dir_isSome_applyAll h
  | some k => exact dir_isSome_applyAll h

/-- A journal moves the ticket forward. -/
theorem Coherent.perform_leads {t : Ticket} (h : Coherent t) {journal : List RunnerOp}
    (hj : JournalOk t journal) (crashAt : Option ℕ) : t.Leads (t.perform journal crashAt) :=
  ⟨fun hd => dir_isSome_perform hd journal crashAt, (h.perform hj crashAt).2⟩

/-! ### The steps of a request -/

/-- **What one step of a request has to give**: operations that keep the invariant, and in what
it becomes only what is known once they are done. -/
def RequestOk (t : Ticket) (m : RequestMove) : Prop :=
  JournalOk t m.journal ∧ ∀ r, m.becomes = some r → r.Knows (t.perform m.journal none)

theorem requestOk_silent {t : Ticket} {b : Option Request} (h : ∀ r, b = some r → r.Knows t) :
    RequestOk t ⟨[], b⟩ := ⟨journalOk_nil t, h⟩

theorem requestOk_reads {t : Ticket} {r : Request} (h : r.Knows t) : RequestOk t (reads r) :=
  requestOk_silent (by rintro _ ⟨⟩; exact h)

/-- A `cancelCommand` that ends confirms only what it settled. -/
theorem knows_afterCancelCommand {t : Ticket} {exitZero : Bool} {why : CancelFor}
    (hz : why = .remoteCancel → exitZero = true → (standing t).Settled)
    (hp : why = .remoteCancel → standing t ≠ .possible) :
    ∀ r, afterCancelCommand exitZero why = some r → r.Knows t := by
  rintro r hr
  cases why with
  | other => cases hr
  | remoteCancel =>
    cases exitZero with
    | true => cases hr; exact hz rfl rfl
    | false => cases hr; exact hp rfl

/-- A ticket that was just tombstoned is barred. -/
theorem barred_of_tombstoned {t : Ticket} (h : Coherent t) (hd : t.files.dir = none) :
    standing (t.perform [.writeTombstone] none) = .barred := by
  have hst : t.started = false := h.unstarted (by rw [h.unspawnedDir hd]; rfl)
  simp [standing, Ticket.perform, Effects.apply, RunnerOp.apply, hst, hd]

/-- A cancel that found no lane id bars the ticket: `onTicketCreated` will see its marker. -/
theorem barred_of_noLane {t : Ticket} (h : Coherent t) (hd : t.files.dir.isSome = true)
    (hm : t.files.marked (·.remoteId) = false) :
    standing (t.perform [.inDir .writeCancelled] none) = .barred := by
  obtain ⟨hsup, hrec⟩ := h.unrecorded hm
  have hst : t.started = false := h.unstarted (by rw [hsup]; rfl)
  obtain ⟨d, hd⟩ := Option.isSome_iff_exists.1 hd
  rw [standing_taken (t := t.perform [.inDir .writeCancelled] none) hst
    (d := DirOp.writeCancelled.apply d) (by simp [Ticket.perform, Effects.apply, RunnerOp.apply, hd])]
  change takenStanding _ _ t.exec.stage t.sup.stage = _
  rw [hsup]
  unfold takenStanding
  split
  · simp [DirOp.apply, TicketDir.refused]
  · exact absurd ‹t.exec.stage = _› hrec
  all_goals first | rfl | cases ‹SupPhase.stage .absent = _›

/-- **A cancel that marked the lane**: the ticket is not `possible` any more. -/
theorem ne_possible_of_marked {t : Ticket} (h : Coherent t)
    (hm : t.files.marked (·.remoteId) = true) :
    standing (t.perform [.inDir .writeCancelled, .onLane .writeCancelMarker] none) ≠ .possible := by
  have hd : t.files.dir.isSome = true := by
    cases hd : t.files.dir with
    | none => simp [Files.marked, hd] at hm
    | some d => rfl
  refine ne_possible_of_refused (dir_isSome_perform hd _ none) ?_ rfl
  intro he
  have := h.recorded he
  rw [hm] at this
  cases this

/-- What is not possible any more, and whose lease is gone, is settled. -/
theorem settled_of_no_lease {t : Ticket} (h : Coherent t) (hp : standing t ≠ .possible)
    (hl : t.files.lane.lease = false) : (standing t).Settled := by
  refine Standing.settled_of_ne hp fun ha => ?_
  have := h.leased (standing_eq_admitted ha).1
  rw [hl] at this
  cases this

theorem settled_of_gone {t : Ticket} (h : Coherent t) (hg : t.sup = .gone) :
    (standing t).Settled :=
  settled_of_over (h.of_sup (by rw [hg]; simp)).1 (by rw [hg]; rfl)

/-- **Every step of a request under way.** -/
theorem request_step {t : Ticket} {a : RequestAct} {r : Request} {m : RequestMove}
    (h : Coherent t) (hr : r.Knows t) (hm : requestMove t a r = some m) : RequestOk t m := by
  unfold requestMove at hm
  split at hm
  case h_1 =>
    cases hm
    rcases tombstoneAbsentTicket_spec t.files with ⟨hd, hv, hj⟩ | ⟨hd, hv, hj⟩
    · simp only [Ticket.asks, hv, hj]
      exact requestOk_reads trivial
    · simp only [Ticket.asks, hv, hj]
      refine ⟨journalOk_single hd, ?_⟩
      rintro _ ⟨⟩
      exact barred_of_tombstoned h hd
  case h_2 =>
    cases hm
    refine requestOk_reads ?_
    split_ifs <;> trivial
  case h_3 unlinked =>
    cases hm
    rcases withdrawLane_spec unlinked t.files with ⟨hw, hv, hj⟩ | ⟨hq, hv, hj⟩ | ⟨hv, hj⟩
    · simp only [Ticket.asks, hv, hj]
      refine requestOk_reads ?_
      rcases hw with hw | ⟨res, hres, hreason⟩
      · exact h.withdrawn hw
      · exact (h.result res hres).2 hreason
    · simp only [Ticket.asks, hv, hj]
      have hmark : OpOk t (.onLane .writeWithdrawMarker) := hq
      have hfree := journalOk_of_free (t := t.after (.onLane .writeWithdrawMarker))
        (dequeueLane_free unlinked t.files)
      refine ⟨⟨hmark, hfree⟩, ?_⟩
      rintro _ ⟨⟩
      exact ((coherent_op h hmark).perform hfree none).2.barred (barred_of_withdrawMarker h hq)
    · simp only [Ticket.asks, hj]
      refine requestOk_silent ?_
      rintro _ ⟨⟩
      rcases hv with hv | hv | hv <;> rw [hv] <;> trivial
  case h_4 =>
    cases hm
    refine requestOk_reads ?_
    cases hrec : t.files.dir.bind (·.result) with
    | none => trivial
    | some record =>
      obtain ⟨d, hd, hres⟩ := Option.bind_eq_some_iff.1 hrec
      simp only
      split_ifs with hw
      · exact (h.record d record hd hres).2 hw.1
      · trivial
  case h_5 =>
    cases hm
    rcases tombstoneAbsentTicket_spec t.files with ⟨hd, hv, hj⟩ | ⟨hd, hv, hj⟩
    · simp only [Ticket.asks, hv, hj]
      exact requestOk_reads hd
    · simp only [Ticket.asks, hv, hj]
      refine ⟨journalOk_single hd, ?_⟩
      rintro _ ⟨⟩
      exact .inl (barred_of_tombstoned h hd)
  case h_6 fault =>
    cases hm
    have hfree : ∀ op ∈ [RunnerOp.inDir .writeCancelled, .onLane .writeCancelMarker],
        op.free = true := by simp [RunnerOp.free]
    rcases markCancelled_spec fault t.files with ⟨hv, hj⟩ | ⟨hid, hv, hj⟩ | ⟨hid, hv, hj⟩
    · simp only [Ticket.asks, hv, hj]
      refine ⟨journalOk_single trivial, ?_⟩
      rintro _ ⟨⟩
      trivial
    · simp only [Ticket.asks, hv, hj]
      refine ⟨journalOk_single trivial, ?_⟩
      rintro _ ⟨⟩
      exact .inl (barred_of_noLane h hr hid)
    · simp only [Ticket.asks, hv, hj]
      refine ⟨journalOk_of_free hfree, ?_⟩
      have hp := ne_possible_of_marked h hid
      have hc := (h.perform (journalOk_of_free (t := t) hfree) none).1
      rintro _ ⟨⟩
      cases hreg : (fault = some .registered || isRegisteredInBroker t.files : Bool) with
      | true => exact hp
      | false =>
        simp only [Bool.or_eq_false_iff, isRegisteredInBroker] at hreg
        exact settled_of_no_lease hc hp hreg.2.1
  case h_7 why =>
    cases hm
    have hfree : ∀ op ∈ [RunnerOp.onLane .unlinkQueue, .onLane .writeCancelMarker],
        op.free = true := by simp [RunnerOp.free]
    rcases cancelQueuedLane_spec t.files with ⟨hq, hv, hj⟩ | ⟨hq, hv, hj⟩
    · simp only [Ticket.asks, hv, hj]
      refine requestOk_silent ?_
      rintro _ ⟨⟩
      cases why with
      | remoteCancel => exact hr
      | other => trivial
    · simp only [Ticket.asks, hv, hj]
      have hok := journalOk_of_free (t := t) hfree
      refine ⟨hok, knows_afterCancelCommand (fun hw _ => ?_) fun hw => ?_⟩
      · subst hw
        exact (h.perform hok none).2.settled (Standing.settled_of_ne hr (h.queued_ne hq).1)
      · subst hw
        exact (h.perform hok none).2.ne_possible hr
  case h_8 why =>
    cases hm
    refine requestOk_silent fun r' hr' => ?_
    split_ifs at hr' with hl
    · cases hr'
      cases why with
      | remoteCancel => exact hr
      | other => trivial
    · refine knows_afterCancelCommand (fun _ hz => by cases hz) (fun hw => ?_) r' hr'
      subst hw
      exact hr
  case h_9 why =>
    cases hm
    have hok : JournalOk t [.onLane .writeCancelMarker] := journalOk_single trivial
    refine ⟨hok, ?_⟩
    rintro _ ⟨⟩
    cases why with
    | remoteCancel => exact (h.perform hok none).2.ne_possible hr
    | other => trivial
  case h_10 why =>
    cases hm
    refine requestOk_reads ?_
    split_ifs with hg
    · exact ⟨settled_of_gone h hg, fun _ hop => hop⟩
    · cases why with
      | remoteCancel => exact hr
      | other => trivial
  case h_11 why =>
    cases hm
    refine requestOk_silent (knows_afterCancelCommand (fun hw hz => ?_) fun hw => ?_)
    · subst hw
      exact settled_of_no_lease h hr (by simpa using hz)
    · subst hw
      exact hr
  case h_12 why op ops =>
    cases hm
    have hok : JournalOk t [.onLane op] := journalOk_single (by
      have hop := hr.2 op (List.mem_cons_self ..)
      simp only [orphanOps, List.mem_cons, List.not_mem_nil, or_false] at hop
      rcases hop with rfl | rfl
      · exact ⟨hr.1, fun hw => by cases hw⟩
      · exact h.ne_admitted_of_settled hr.1)
    refine ⟨hok, ?_⟩
    rintro _ ⟨⟩
    exact ⟨(h.perform hok none).2.settled hr.1, fun op' hop =>
      hr.2 op' (List.mem_cons_of_mem _ hop)⟩
  case h_13 why =>
    cases hm
    exact requestOk_silent (knows_afterCancelCommand (fun _ _ => hr.1) fun _ => by
      rcases hr.1 with hs | hs <;> rw [hs] <;> decide)
  case h_14 fault =>
    cases hm
    refine requestOk_reads ?_
    split_ifs with hreg
    · simp only [Bool.and_eq_true, Bool.not_eq_true', isRegisteredInBroker, Bool.or_eq_false_iff]
        at hreg
      exact settled_of_no_lease h hr hreg.2.1
    · trivial
  case h_15 =>
    cases hm
    refine requestOk_reads ?_
    cases hrec : t.files.marked (·.result.isSome) with
    | false => trivial
    | true =>
      cases hd : t.files.dir with
      | none => simp [Files.marked, hd] at hrec
      | some d =>
        obtain ⟨record, hres⟩ := Option.isSome_iff_exists.1 (by simpa [Files.marked, hd] using hrec)
        exact (h.record d record hd hres).1
  case h_16 =>
    cases hm
    exact requestOk_silent fun _ hr' => by cases hr'
  case h_17 => cases hm

/-- **A request that arrives** knows nothing yet. -/
theorem arrival_step {t : Ticket} {a : RequestAct} {m : RequestMove}
    (hm : arrivalMove t a = some m) : RequestOk t m := by
  unfold arrivalMove at hm
  split at hm
  · cases hm
    refine requestOk_reads ?_
    split_ifs <;> trivial
  · cases hm
    refine requestOk_reads ?_
    split_ifs with hd
    · exact hd
    · trivial
  · cases hm
    exact requestOk_reads trivial
  · cases hm
    refine ⟨journalOk_of_free (shutdownTicket_free t.files), fun r hr => ?_⟩
    simp only [Ticket.asks] at hr
    split_ifs at hr
    cases hr
    trivial
  · cases hm

/-- **A step of a process that only reaps.** -/
theorem host_step {t : Ticket} {a : HostAct} {journal : List RunnerOp} (h : Coherent t)
    (hm : hostMove t a = some journal) : JournalOk t journal := by
  unfold hostMove at hm
  split at hm
  · split_ifs at hm with hg
    cases hm
    have hs := settled_of_gone h hg
    cases hq : t.files.lane.queued with
    | false => simp [reapQueuedLane, hq, journalOk_nil]
    | true =>
      have hj : reapQueuedLane.journal t.files =
          [.onLane (.writeResult deadQueuedResult), .onLane .unlinkQueue] := by
        simp [reapQueuedLane, hq]
      rw [hj]
      exact ⟨⟨hs, fun hw => by cases hw⟩, trivial, trivial⟩
  · split_ifs at hm with hg
    cases hm
    exact journalOk_single (h.ne_admitted_of_settled (settled_of_gone h hg))
  · cases hm
    exact journalOk_single trivial
  · cases hm
    exact journalOk_single trivial

end Runner
end LaneBroker
