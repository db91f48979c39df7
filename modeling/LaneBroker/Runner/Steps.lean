/-
# The steps of the exec and of the supervisor

Every step of the exec and of the supervisor, complete or cut off by a crash, keeps the
invariant and moves the ticket forward.  Most of them are steps of a party that gives up
(`gives_up`, `execOk_unspawned`); the ones with an argument of their own are the intake,
`onTicketCreated`, the spawn of the supervisor, the admission and the spawn of the command.
-/

import LaneBroker.Runner.Requests

namespace LaneBroker
namespace Runner

open LaneBroker.Basis

variable {t : Ticket}

/-! ### Changes of phase -/

/-- **The supervisor goes on.** -/
theorem Coherent.toSup {p : SupPhase} (h : Coherent t) (hs : t.sup ≠ .absent) (hp : p ≠ .absent)
    (hl : (standing t).Leads (standing (toSup p t)))
    (hun : p.unstarted = true → t.started = false) (hran : p.ran = true → t.started = true)
    (hq : t.files.lane.queued = true → p ≠ .admitted)
    (hle : p = .admitted → t.files.lane.lease = true) (hk : p.Knows) : Coherent (toSup p t) where
  tombstoned := h.tombstoned
  untaken := h.untaken
  unspawnedDir hd := absurd (h.unspawnedDir hd) hs
  unrecorded hm := absurd (h.unrecorded hm).1 hs
  recorded := h.recorded
  unspawned he := absurd (h.unspawned he) hs
  unstarted := hun
  ran := hran
  queued hqd := ⟨hp, hq hqd, (h.queued hqd).2.2⟩
  leased := hle
  withdrawn hw := hl.barred (h.withdrawn hw)
  result r hr := vouches_leads (h.result r hr) hl
  record d r hd hr := vouches_leads (h.record d r hd hr) hl
  execKnows := h.execKnows.leads hl
  supKnows := hk

/-- A supervisor that is over bars its ticket, unless it started the command. -/
theorem leads_toSup_over {p : SupPhase} (hd : t.files.dir.isSome = true)
    (hp : p.stage = .closed) : (standing t).Leads (standing (toSup p t)) := by
  cases hs : t.started with
  | true => rw [standing_of_started hs, standing_of_started (t := toSup p t) hs]
  | false =>
    have hb : standing (toSup p t) = .barred := barred_of_over hd hp hs
    refine Standing.leads_of_settled (.inl hb) (fun h => ?_) fun _ => hb
    rw [standing_eq_started.1 h] at hs
    cases hs

theorem Coherent.toSup_over {p : SupPhase} (h : Coherent t) (hs : t.sup ≠ .absent)
    (hp : p.stage = .closed) (hun : p.unstarted = true → t.started = false)
    (hran : p.ran = true → t.started = true) (hk : p.Knows) :
    Coherent (Runner.toSup p t) ∧ t.Leads (Runner.toSup p t) := by
  have hd := (h.of_sup hs).1
  have hl := leads_toSup_over hd hp
  have hne : p ≠ .absent := by rintro rfl; cases hp
  have hna : p ≠ .admitted := by rintro rfl; cases hp
  exact ⟨h.toSup hs hne hl hun hran (fun _ => hna) (fun ha => absurd ha hna) hk, id, hl⟩

/-- **The exec goes on**, past spawning its supervisor. -/
theorem leads_toExec_over {e : ExecPhase} (hd : t.files.dir.isSome = true)
    (he : e.stage = .closed) (h : Coherent t) :
    (standing t).Leads (standing (toExec e t)) := by
  obtain ⟨d, hd⟩ := Option.isSome_iff_exists.1 hd
  cases hs : t.started with
  | true => rw [standing_of_started hs, standing_of_started (t := toExec e t) hs]
  | false =>
    rw [standing_taken hs hd, standing_taken (t := toExec e t) hs hd]
    change (takenStanding d t.files.lane _ _).Leads (takenStanding d t.files.lane e.stage t.sup.stage)
    rw [he]
    cases hst : t.exec.stage with
    | closed => rfl
    | unrecorded | recorded =>
      rw [h.unspawned (by rw [hst]; decide)]
      exact Standing.leads_of_settled (.inl rfl) (takenStanding_ne_started _ _ _ _) fun _ => rfl

theorem Coherent.toExec_over {e : ExecPhase} (h : Coherent t) (hd : t.files.dir.isSome = true)
    (he : e.stage = .closed) (hne : e ≠ .absent) (hk : e.Knows (standing (toExec e t))) :
    Coherent (toExec e t) ∧ t.Leads (toExec e t) := by
  have hl := leads_toExec_over hd he h
  have hdn : t.files.dir ≠ none := by
    intro hn
    rw [hn] at hd
    cases hd
  refine ⟨?_, id, hl⟩
  exact
    { tombstoned := h.tombstoned
      untaken := ⟨fun ha => absurd ha hne, fun hn => absurd hn hdn⟩
      unspawnedDir := h.unspawnedDir
      unrecorded := fun hm => ⟨(h.unrecorded hm).1, by
        change e.stage ≠ _
        rw [he]
        decide⟩
      recorded := fun hr => by
        change e.stage = _ at hr
        rw [he] at hr
        cases hr
      unspawned := fun hr => absurd he hr
      unstarted := h.unstarted
      ran := h.ran
      queued := h.queued
      leased := h.leased
      withdrawn := fun hw => hl.barred (h.withdrawn hw)
      result := fun r hr => vouches_leads (h.result r hr) hl
      record := fun d r hd hr => vouches_leads (h.record d r hd hr) hl
      execKnows := hk
      supKnows := h.supKnows }

/-! ### The steps of the supervisor -/

/-- **What a step of the exec or the supervisor has to give**: operations that keep the
invariant, and, once they are done, a change of phase that keeps it too. -/
def MoveOk (t : Ticket) (m : TicketMove) : Prop :=
  JournalOk t m.journal ∧ (Coherent (t.perform m.journal none) →
    Coherent (m.remember (t.perform m.journal none)) ∧
      (t.perform m.journal none).Leads (m.remember (t.perform m.journal none)))

/-- A step after which the supervisor is over. -/
theorem moveOk_over {journal : List RunnerOp} {p : SupPhase} (hj : JournalOk t journal)
    (hs : t.sup ≠ .absent) (hp : p.stage = .closed) (hun : p.unstarted = true → t.started = false)
    (hran : p.ran = true → t.started = true) (hk : p.Knows) :
    MoveOk t ⟨journal, toSup p⟩ :=
  ⟨hj, fun hc => hc.toSup_over hs hp hun hran hk⟩

/-- A step by which a supervisor that did not start the command gives it up. -/
theorem gives_up {journal : List RunnerOp} {p q : SupPhase} (h : Coherent t) (hsup : t.sup = q)
    (hj : JournalOk t journal) (hne : q ≠ .absent) (hq : q.unstarted = true)
    (hp : p.stage = .closed) (hran : p.ran = false) (hk : p.Knows) :
    t.sup ≠ .absent ∧ MoveOk t ⟨journal, toSup p⟩ := by
  subst hsup
  refine ⟨hne, moveOk_over hj hne hp (fun _ => h.unstarted hq) (fun hr => ?_) hk⟩
  rw [hran] at hr
  cases hr

theorem enqueueLane_spec (s : Files) :
    (enqueueLane.value s = .taken ∧ enqueueLane.journal s = [.onLane .writeQueue]) ∨
    (enqueueLane.value s ≠ .taken ∧ enqueueLane.journal s = []) := by
  unfold enqueueLane
  simp only [Locked.value_bind, Locked.journal_bind, Locked.value_read, Locked.journal_read,
    Locked.after_read, List.nil_append]
  by_cases he : (s.lane.queued || s.lane.lease || s.lane.result.isSome) = true
  · exact .inr ⟨by simp only [he, if_true]; simp, by simp only [he, if_true]; rfl⟩
  by_cases hm : s.migrating = true
  · exact .inr ⟨by simp only [he, hm, if_true]; simp, by simp only [he, hm, if_true]; rfl⟩
  · exact .inl ⟨by simp only [he, hm]; rfl, by simp only [he, hm]; rfl⟩

/-- What a poll of `tryStart` does: it starts a queued ticket that carries no marker, or it
writes at most an expiry marker. -/
theorem tryStartLane_spec (late admitted unlinked : Bool) (s : Files) :
    (s.lane.refused = false ∧ (tryStartLane late admitted unlinked).value s = .started ∧
      (tryStartLane late admitted unlinked).journal s =
        [.onLane .unlinkQueue, .onLane .writeLease]) ∨
    ((tryStartLane late admitted unlinked).value s ≠ .started ∧
      ∀ op ∈ (tryStartLane late admitted unlinked).journal s, op.free = true) := by
  unfold tryStartLane
  simp only [Locked.value_bind, Locked.journal_bind, Locked.value_read, Locked.journal_read,
    Locked.after_read, List.nil_append]
  by_cases hq : s.lane.queued = true
  · by_cases hw : s.lane.withdrawMarker = true
    · exact .inr ⟨by simp [hq, hw], by simp [hq, hw]⟩
    by_cases hlate : (late && !s.lane.cancelMarker) = true
    · simp only [hq, hw, hlate, Bool.not_true, Bool.false_eq_true, if_false, if_true]
      exact .inr ⟨by simp, by simp [RunnerOp.free]⟩
    · simp only [hq, hw, hlate, Bool.not_true, Bool.false_eq_true, if_false]
      by_cases hadm : admitted = true
      · by_cases hc : s.lane.cancelMarker = true
        · exact .inr ⟨by simp [hadm, hc], by simp [hadm, hc]⟩
        by_cases hu : unlinked = true
        · exact .inl ⟨by simp [LaneFiles.refused, hc, hw], by simp [hadm, hc, hu],
            by simp [hadm, hc, hu]⟩
        · exact .inr ⟨by simp [hadm, hc, hu], by simp [hadm, hc, hu]⟩
      · exact .inr ⟨by simp [hadm], by simp [hadm]⟩
  · exact .inr ⟨by simp [hq], by simp [hq]⟩

theorem dequeueThenRead_free (unlinked : Bool) (s : Files) :
    ∀ op ∈ (dequeueThenRead unlinked).journal s, op.free = true := by
  cases unlinked <;> simp [dequeueThenRead, dequeueLane, RunnerOp.free]

/-- A supervisor between two polls, whose stage does not change. -/
theorem standing_toSup_polling (h : t.sup.stage = .polling) :
    standing (toSup .polling t) = standing t := by
  unfold standing
  rw [h]
  rfl

/-- An unmarked ticket in the queue is possible. -/
theorem possible_of_unmarked {d : TicketDir} (hs : t.started = false) (hd : t.files.dir = some d)
    (hp : t.sup.stage = .polling) (hr : t.files.lane.refused = false) :
    standing t = .possible := by
  rw [standing_taken hs hd, hp]
  simp [takenStanding, hr, barredIf]

theorem afterPoll_cases (b : Bool) {v : LanePoll} (h : v ≠ .started) :
    afterPoll b v = .polling ∨ (afterPoll b v).stage = .closed ∧ (afterPoll b v).ran = false ∧
      (afterPoll b v).Knows := by
  cases v with
  | started => exact absurd rfl h
  | waiting | cancelled => exact .inl rfl
  | withdrawn | queueTimeout => exact .inr ⟨rfl, rfl, trivial⟩
  | notQueued => cases b <;> exact .inr ⟨rfl, rfl, trivial⟩

/-- The result of a command that ran never says `withdrawn`. -/
theorem runEnd_reason (how : RunEnd) : how.result.reason ≠ some .withdrawn := by
  cases how <;> simp [RunEnd.result]

/-- **Every step of the supervisor.** -/
theorem sup_step {a : SupAct} {m : TicketMove} (h : Coherent t) (hm : supMove t a = some m) :
    t.sup ≠ .absent ∧ MoveOk t m := by
  unfold supMove at hm
  split at hm
  case h_1 exit text hsup | h_8 hsup | h_14 hsup =>
    cases hm
    exact gives_up h hsup (journalOk_nil t) (by simp) rfl rfl rfl trivial
  case h_2 hsup =>
    cases hm
    have hst : t.started = false := h.unstarted (by rw [hsup]; rfl)
    rcases enqueueLane_spec t.files with ⟨hv, hj⟩ | ⟨hv, hj⟩
    · have hs : t.sup ≠ .absent := by rw [hsup]; simp
      simp only [Ticket.inSection, hv, hj, afterEnqueue]
      refine ⟨hs, journalOk_single ⟨hs, by rw [hsup]; simp, hst⟩, fun hc => ?_⟩
      have hl := standing_toSup_polling (t := t.perform [.onLane .writeQueue] none)
        (by change t.sup.stage = _; rw [hsup]; rfl)
      exact ⟨hc.toSup hs (by simp) (by rw [hl]) (fun _ => hst) (fun hr => by cases hr)
        (by simp) (fun ha => by cases ha) trivial, id, by rw [hl]⟩
    · simp only [Ticket.inSection, hj]
      have hnil := journalOk_nil t
      cases hval : enqueueLane.value t.files with
      | taken => exact absurd hval hv
      | existing => exact gives_up (p := .gone) h hsup hnil (by simp) rfl rfl rfl trivial
      | migrating => exact gives_up (p := .finalizing _) h hsup hnil (by simp) rfl rfl rfl trivial
  case h_3 hsup =>
    split_ifs at hm
    cases hm
    exact gives_up h hsup (journalOk_nil t) (by simp) rfl rfl rfl trivial
  case h_4 exit text unlinked hsup =>
    cases hm
    exact gives_up h hsup (journalOk_of_free (dequeueLane_free unlinked t.files)) (by simp) rfl
      rfl rfl trivial
  case h_5 late admitted unlinked hsup =>
    cases hm
    have hs : t.sup ≠ .absent := by rw [hsup]; simp
    have hst : t.started = false := h.unstarted (by rw [hsup]; rfl)
    rcases tryStartLane_spec late admitted unlinked t.files with ⟨href, hv, hj⟩ | ⟨hv, hj⟩
    · simp only [Ticket.inSection, hv, hj, afterPoll]
      refine ⟨hs, ⟨trivial, trivial, trivial⟩, fun hc => ?_⟩
      obtain ⟨d, hd⟩ := Option.isSome_iff_exists.1 (h.of_sup hs).1
      have hposs : standing (t.perform [.onLane .unlinkQueue, .onLane .writeLease] none) =
          .possible :=
        possible_of_unmarked hst hd (by change t.sup.stage = _; rw [hsup]; rfl) href
      have hl : (standing (t.perform [.onLane .unlinkQueue, .onLane .writeLease] none)).Leads
          (standing (toSup .admitted
            (t.perform [.onLane .unlinkQueue, .onLane .writeLease] none))) := by
        rw [hposs]
        exact Standing.leads_possible
      exact ⟨hc.toSup hs (by simp) hl (fun _ => hst) (fun hr => by cases hr)
        (fun hq => by cases hq) (fun _ => rfl) trivial, id, hl⟩
    · have hok := journalOk_of_free (t := t) hj
      simp only [Ticket.inSection]
      rcases afterPoll_cases t.files.lane.withdrawMarker hv with hp | ⟨hp, hran, hk⟩
      · rw [hp]
        refine ⟨hs, hok, fun hc => ?_⟩
        have hl := standing_toSup_polling
          (t := t.perform ((tryStartLane late admitted unlinked).journal t.files) none)
          (by change t.sup.stage = _; rw [hsup]; rfl)
        exact ⟨hc.toSup hs (by simp) (by rw [hl]) (fun _ => hst) (fun hr => by cases hr)
          (by simp) (fun ha => by cases ha) trivial, id, by rw [hl]⟩
      · exact gives_up h hsup hok (by simp) rfl hp hran hk
  case h_6 unlinked alsoWithdrawn hsup =>
    split at hm
    · cases hm
    cases hm
    exact gives_up h hsup (journalOk_of_free (dequeueLane_free unlinked t.files)) (by simp) rfl
      rfl rfl trivial
  case h_7 hsup | h_11 exit text hsup =>
    cases hm
    exact gives_up h hsup (journalOk_of_free (dequeueLane_free true t.files)) (by simp) rfl rfl
      rfl trivial
  case h_9 unlinked hsup =>
    cases hm
    exact gives_up h hsup (journalOk_of_free (dequeueThenRead_free unlinked t.files)) (by simp)
      rfl rfl rfl trivial
  case h_10 hsup =>
    cases hm
    have hs : t.sup ≠ .absent := by rw [hsup]; simp
    refine ⟨hs, journalOk_nil t, fun _ => ?_⟩
    have hl : (standing t).Leads (standing { toSup .running t with started := true }) := by
      obtain ⟨d, hd⟩ := Option.isSome_iff_exists.1 (h.of_sup hs).1
      rw [standing_of_started (t := { toSup .running t with started := true }) rfl,
        standing_taken (h.unstarted (by rw [hsup]; rfl)) hd, hsup]
      exact .inr (.inr ⟨rfl, by decide⟩)
    exact ⟨
      { tombstoned := h.tombstoned
        untaken := h.untaken
        unspawnedDir := fun hd => absurd (h.unspawnedDir hd) hs
        unrecorded := fun hm => absurd (h.unrecorded hm).1 hs
        recorded := h.recorded
        unspawned := fun he => absurd (h.unspawned he) hs
        unstarted := fun hu => by cases hu
        ran := fun _ => rfl
        queued := fun hq => absurd hsup (h.queued hq).2.1
        leased := fun ha => by cases ha
        withdrawn := fun hw => hl.barred (h.withdrawn hw)
        result := fun r hr => vouches_leads (h.result r hr) hl
        record := fun d r hd hr => vouches_leads (h.record d r hd hr) hl
        execKnows := h.execKnows.leads hl
        supKnows := trivial }, id, hl⟩
  case h_12 r hsup =>
    cases hm
    have hok : OpOk t (.onLane .unlinkLease) := by
      change t.sup ≠ _
      rw [hsup]
      simp
    exact gives_up h hsup (journalOk_single hok) (by simp) rfl rfl rfl trivial
  case h_13 r hsup =>
    cases hm
    have hb : standing t = .barred :=
      barred_of_over (h.of_sup (by rw [hsup]; simp)).1 (by rw [hsup]; rfl)
        (h.unstarted (by rw [hsup]; rfl))
    have hok : OpOk t (.onLane (.writeResult r)) := by
      change vouches r.reason (standing t)
      rw [hb]
      exact vouches_barred _
    exact gives_up h hsup (journalOk_single hok) (by simp) rfl rfl rfl trivial
  case h_15 hsup =>
    cases hm
    have hok : OpOk t (.onLane .unlinkMarkers) := by
      change t.sup.stage = _
      rw [hsup]
      rfl
    exact gives_up h hsup (journalOk_single hok) (by simp) rfl rfl rfl trivial
  case h_16 how hsup =>
    cases hm
    have hs : t.sup ≠ .absent := by rw [hsup]; simp
    exact ⟨hs, moveOk_over (journalOk_nil t) hs rfl (fun hu => by cases hu)
      (fun _ => h.ran (by rw [hsup]; rfl)) ⟨how, fun _ hop => hop⟩⟩
  case h_17 op ops hsup =>
    cases hm
    have hs : t.sup ≠ .absent := by rw [hsup]; simp
    obtain ⟨how, hops⟩ : ∃ how, ∀ op' ∈ op :: ops, op' ∈ endingOps how := by
      have := h.supKnows
      rwa [hsup] at this
    have hst : t.started = true := h.ran (by rw [hsup]; rfl)
    have hok : OpOk t (.onLane op) := by
      have hop := hops op (List.mem_cons_self ..)
      simp only [endingOps, List.mem_cons, List.not_mem_nil, or_false] at hop
      rcases hop with rfl | rfl | rfl
      · exact ⟨.inr (standing_of_started hst), fun hw => absurd hw (runEnd_reason how)⟩
      · change t.sup ≠ _
        rw [hsup]
        simp
      · change t.sup.stage = _
        rw [hsup]
        rfl
    exact ⟨hs, moveOk_over (journalOk_single hok) hs rfl (fun hu => by cases hu) (fun _ => hst)
      ⟨how, fun op' hop => hops op' (List.mem_cons_of_mem _ hop)⟩⟩
  case h_18 hsup =>
    cases hm
    have hs : t.sup ≠ .absent := by rw [hsup]; simp
    exact ⟨hs, moveOk_over (journalOk_nil t) hs rfl (fun hu => by cases hu)
      (fun hr => by cases hr) trivial⟩
  case h_19 =>
    split_ifs at hm with hs
    cases hm
    exact ⟨fun ha => hs (.inl ha), journalOk_single trivial, fun hc => ⟨hc, .refl _⟩⟩
  case h_20 =>
    split_ifs at hm with hs
    cases hm
    exact ⟨hs, moveOk_over (journalOk_nil t) hs rfl (fun hu => by cases hu)
      (fun hr => by cases hr) trivial⟩
  case h_21 => cases hm

/-! ### The steps of the exec -/

theorem intake_spec (s : Files) :
    (intake.value s ≠ .created ∧ intake.journal s = []) ∨
    (s.tombstone = false ∧ s.dir = none ∧ intake.value s = .created ∧
      intake.journal s = [.mkdirTicket]) := by
  unfold intake
  simp only [Locked.value_bind, Locked.journal_bind, Locked.value_read, Locked.journal_read,
    Locked.after_read, List.nil_append]
  by_cases hm : s.migrating = true
  · exact .inl ⟨by simp [hm], by simp [hm]⟩
  by_cases ht : s.tombstone = true
  · exact .inl ⟨by simp [hm, ht], by simp [hm, ht]⟩
  by_cases hd : s.dir = none
  · exact .inr ⟨by simpa using ht, hd, by simp [hm, ht, hd], by simp [hm, ht, hd]⟩
  · have hd' : s.dir.isSome = true := Option.isSome_iff_ne_none.2 hd
    exact .inl ⟨by simp [hm, ht, hd'], by simp [hm, ht, hd']⟩

/-- A possible ticket carries no proof that it never starts. -/
theorem no_proof_of_possible (h : Coherent t) (hp : standing t = .possible) :
    t.files.lane.withdrawMarker = false ∧ t.files.lane.result = none ∧
      ∀ d, t.files.dir = some d → d.result = none := by
  refine ⟨?_, ?_, fun d hd => ?_⟩
  · by_contra hw
    have := h.withdrawn (by simpa using hw)
    rw [hp] at this
    cases this
  · by_contra hr
    obtain ⟨r, hr⟩ := Option.ne_none_iff_exists'.1 hr
    exact not_vouches_possible _ (hp ▸ h.result r hr)
  · by_contra hr
    obtain ⟨r, hr⟩ := Option.ne_none_iff_exists'.1 hr
    exact not_vouches_possible _ (hp ▸ h.record d r hd hr)

/-- The ticket an intake makes. -/
def Ticket.created (t : Ticket) : Ticket :=
  toExec .created { t with files := RunnerOp.mkdirTicket.apply t.files }

/-- **The intake makes a possible ticket.** -/
theorem coherent_created (h : Coherent t) (htomb : t.files.tombstone = false)
    (hd : t.files.dir = none) : Coherent t.created ∧ t.Leads t.created := by
  have hsup := h.unspawnedDir hd
  have hst : t.started = false := h.unstarted (by rw [hsup]; rfl)
  have hp : standing t = .possible := by simp [standing, hst, hd, htomb, barredIf]
  obtain ⟨hw, hr, -⟩ := no_proof_of_possible h hp
  refine ⟨?_, fun hn => ?_, hp ▸ Standing.leads_possible⟩
  · exact
      { tombstoned := fun ht => by
          change t.files.tombstone = true at ht
          rw [htomb] at ht
          cases ht
        untaken := ⟨fun hn => (by cases hn), fun hn => (by cases hn)⟩
        unspawnedDir := fun hn => by cases hn
        unrecorded := fun _ => ⟨hsup, by simp [Ticket.created, toExec, ExecPhase.stage]⟩
        recorded := fun _ => rfl
        unspawned := fun _ => hsup
        unstarted := h.unstarted
        ran := h.ran
        queued := h.queued
        leased := h.leased
        withdrawn := fun hw' => by
          change t.files.lane.withdrawMarker = true at hw'
          rw [hw] at hw'
          cases hw'
        result := fun r hr' => by
          change t.files.lane.result = some r at hr'
          rw [hr] at hr'
          cases hr'
        record := fun d r hd' hr' => by
          cases hd'
          cases hr'
        execKnows := trivial
        supKnows := h.supKnows }
  · rw [hd] at hn
    cases hn

theorem onTicketCreated_spec {s : Files} {d : TicketDir} (hd : s.dir = some d) :
    onTicketCreated.value s = (d.cancelled || (d.shutdown || s.draining)) ∧
      onTicketCreated.journal s = .inDir .writeRemoteId ::
        (if !d.shutdown && s.draining then [.inDir .writeShutdown] else []) := by
  by_cases hs : d.shutdown = true <;> by_cases hr : s.draining = true <;>
    simp [onTicketCreated, Effects.apply, RunnerOp.apply, DirOp.apply, Files.marked, hd, hs, hr]

/-- **`onTicketCreated` lets a possible ticket through.** -/
theorem coherent_recorded {d : TicketDir} (h : Coherent t) (he : t.exec = .created)
    (hd : t.files.dir = some d) (href : d.refused = false) :
    Coherent (toExec .recorded (t.perform [.inDir .writeRemoteId] none)) ∧
      t.Leads (toExec .recorded (t.perform [.inDir .writeRemoteId] none)) := by
  have hsup : t.sup = .absent := h.unspawned (by rw [he]; decide)
  have hst : t.started = false := h.unstarted (by rw [hsup]; rfl)
  have hp : standing t = .possible := by
    rw [standing_taken hst hd, hsup, he]
    simp [takenStanding, SupPhase.stage, ExecPhase.stage, href, barredIf]
  obtain ⟨hw, hr, hrec⟩ := no_proof_of_possible h hp
  have hdir : (t.perform [.inDir .writeRemoteId] none).files.dir =
      some { d with remoteId := true } := by
    simp [Ticket.perform, Effects.apply, RunnerOp.apply, DirOp.apply, hd]
  refine ⟨?_, fun _ => dir_isSome_perform (by rw [hd]; rfl) _ none, hp ▸ Standing.leads_possible⟩
  exact
    { tombstoned := fun ht => by
        have := h.tombstoned ht
        rw [hd] at this
        cases this
      untaken := by
        refine ⟨fun hn => (by cases hn), fun hn => ?_⟩
        change (t.perform _ none).files.dir = none at hn
        rw [hdir] at hn
        cases hn
      unspawnedDir := fun _ => hsup
      unrecorded := fun hm => by
        change (t.perform _ none).files.marked _ = false at hm
        simp [Files.marked, hdir] at hm
      recorded := fun hr => by cases hr
      unspawned := fun _ => hsup
      unstarted := h.unstarted
      ran := h.ran
      queued := h.queued
      leased := h.leased
      withdrawn := fun hw' => by
        change t.files.lane.withdrawMarker = true at hw'
        rw [hw] at hw'
        cases hw'
      result := fun r hr' => by
        change t.files.lane.result = some r at hr'
        rw [hr] at hr'
        cases hr'
      record := fun d' r hd' hr' => by
        change (t.perform _ none).files.dir = some d' at hd'
        rw [hdir] at hd'
        cases hd'
        have := hrec d hd
        rw [show d.result = some r from hr'] at this
        cases this
      execKnows := trivial
      supKnows := h.supKnows }

/-- The supervisor is spawned where `onTicketCreated` let the ticket through. -/
theorem coherent_launched (h : Coherent t) (he : t.exec = .recorded) :
    Coherent (toSup .launched (toExec .waiting t)) ∧
      t.Leads (toSup .launched (toExec .waiting t)) := by
  have hsup : t.sup = .absent := h.unspawned (by rw [he]; decide)
  have hst : t.started = false := h.unstarted (by rw [hsup]; rfl)
  have hdn : t.files.dir ≠ none := fun hn => by
    have := h.untaken.2 hn
    rw [he] at this
    cases this
  have hl : standing (toSup .launched (toExec .waiting t)) = standing t := by
    obtain ⟨d, hd⟩ := Option.ne_none_iff_exists'.1 hdn
    rw [standing_taken hst hd, standing_taken (t := toSup .launched (toExec .waiting t)) hst hd]
    change takenStanding d t.files.lane .closed .polling = _
    rw [he, hsup]
    rfl
  refine ⟨?_, id, by rw [hl]⟩
  exact
    { tombstoned := h.tombstoned
      untaken := ⟨nofun, fun hn => absurd hn hdn⟩
      unspawnedDir := fun hn => absurd hn hdn
      unrecorded := fun hm => absurd (h.unrecorded hm).2 (by rw [he]; simp [ExecPhase.stage])
      recorded := fun hr => by cases hr
      unspawned := fun hn => absurd rfl hn
      unstarted := fun _ => hst
      ran := fun hr => by cases hr
      queued := fun hq => absurd hsup (h.queued hq).1
      leased := fun ha => by cases ha
      withdrawn := fun hw => hl.trans (h.withdrawn hw)
      result := fun r hr => by
        rw [hl]
        exact h.result r hr
      record := fun d r hd hr => by
        rw [hl]
        exact h.record d r hd hr
      execKnows := trivial
      supKnows := trivial }

/-- A ticket whose supervisor was never spawned is barred once its exec is over. -/
theorem barred_toExec_over {e : ExecPhase} (h : Coherent t) (hd : t.files.dir.isSome = true)
    (hs : t.sup = .absent) (he : e.stage = .closed) : standing (toExec e t) = .barred := by
  obtain ⟨d, hd⟩ := Option.isSome_iff_exists.1 hd
  rw [standing_taken (t := toExec e t) (h.unstarted (by rw [hs]; rfl)) hd]
  change takenStanding d _ e.stage t.sup.stage = _
  rw [he, hs]
  rfl

/-- What a step of the exec has to give, complete or cut off. -/
def ExecOk (t : Ticket) (a : ExecAct) (m : TicketMove) : Prop :=
  ∀ crashAt, Coherent (m.outcome (·.killExec a) t crashAt) ∧
    t.Leads (m.outcome (·.killExec a) t crashAt)

theorem killExec_of_ne {a : ExecAct} (ha : a ≠ .intake) (t : Ticket) :
    t.killExec a = toExec .gone t := if_neg fun h => ha h.1

/-- A step after which the exec is past spawning its supervisor. -/
theorem execOk_over {a : ExecAct} {journal : List RunnerOp} {e : ExecPhase} (h : Coherent t)
    (ha : a ≠ .intake) (hj : JournalOk t journal) (hd : t.files.dir.isSome = true)
    (he : e.stage = .closed) (hne : e ≠ .absent)
    (hk : e.Knows (standing (toExec e (t.perform journal none)))) :
    ExecOk t a ⟨journal, toExec e⟩ := by
  intro crashAt
  have hp := h.perform hj crashAt
  have hl := h.perform_leads hj crashAt
  have hd' := dir_isSome_perform hd journal crashAt
  cases crashAt with
  | none =>
    have hx := hp.1.toExec_over hd' he hne hk
    exact ⟨hx.1, fun h' => hx.2.1 (hl.1 h'), hl.2.trans hx.2.2⟩
  | some k =>
    simp only [TicketMove.outcome, killExec_of_ne ha]
    have hx := hp.1.toExec_over (e := .gone) hd' rfl (by simp) trivial
    exact ⟨hx.1, fun h' => hx.2.1 (hl.1 h'), hl.2.trans hx.2.2⟩

/-- A step by which an exec gives up before it spawns its supervisor. -/
theorem execOk_unspawned {a : ExecAct} {e : ExecPhase} (h : Coherent t) (ha : a ≠ .intake)
    (hs : t.exec.stage ≠ .closed) (he : e.stage = .closed) (hne : e ≠ .absent) :
    ExecOk t a ⟨[], toExec e⟩ := by
  have hd : t.files.dir.isSome = true := Option.isSome_iff_ne_none.2 fun hn =>
    hs (by rw [h.untaken.2 hn]; rfl)
  refine execOk_over h ha (journalOk_nil t) hd he hne ?_
  rw [show t.perform [] none = t from rfl, barred_toExec_over h hd (h.unspawned hs) he]
  exact e.knows_barred

/-- **The intake**, complete or cut off. -/
theorem intake_step (h : Coherent t) :
    ExecOk t .intake
      (t.inSection intake fun v => if v = .created then toExec .created else id) := by
  have hkeep : t.killExec .intake = t :=
    if_pos ⟨rfl, by
      by_cases ha : t.exec = .absent
      · exact .inr (h.untaken.1 ha)
      · exact .inl ha⟩
  intro crashAt
  rcases intake_spec t.files with ⟨hv, hj⟩ | ⟨htomb, hd, hv, hj⟩
  · simp only [Ticket.inSection, hv, hj, if_false]
    cases crashAt with
    | none => exact ⟨h, .refl _⟩
    | some k =>
      simp only [TicketMove.outcome, Ticket.perform, List.take_nil, applyAll_nil]
      rw [show ({ t with files := t.files } : Ticket) = t from rfl, hkeep]
      exact ⟨h, .refl _⟩
  · obtain ⟨hc, hl⟩ := coherent_created h htomb hd
    simp only [Ticket.inSection, hv, hj, if_true]
    cases crashAt with
    | none => exact ⟨hc, hl⟩
    | some k =>
      cases k with
      | zero =>
        change Coherent (t.killExec .intake) ∧ t.Leads (t.killExec .intake)
        rw [hkeep]
        exact ⟨h, .refl _⟩
      | succ k =>
        have hkill : ({ t with files := RunnerOp.mkdirTicket.apply t.files } : Ticket).killExec
            .intake = toExec .gone t.created := if_neg fun hn => by
          rcases hn.2 with hn | hn
          · exact hn (h.untaken.2 hd)
          · cases hn
        simp only [TicketMove.outcome, Ticket.perform, List.take_succ_cons, List.take_nil,
          applyAll_cons, applyAll_nil, Effects.apply]
        rw [hkill]
        have hx := hc.toExec_over (e := .gone) rfl rfl (by simp) trivial
        exact ⟨hx.1, fun hn => hx.2.1 (hl.1 hn), hl.2.trans hx.2.2⟩

/-- **The locked step of `onTicketCreated`**, complete or cut off. -/
theorem onTicketCreated_step (h : Coherent t) (he : t.exec = .created) :
    ExecOk t .onTicketCreated (t.inSection onTicketCreated fun cancelledEarly =>
      toExec (if cancelledEarly then .returned 130 true else .recorded)) := by
  have hne : t.exec.stage ≠ .closed := by rw [he]; decide
  obtain ⟨d, hd⟩ := Option.ne_none_iff_exists'.1 fun hn => by
    have := h.untaken.2 hn
    rw [he] at this
    cases this
  have hds : t.files.dir.isSome = true := by rw [hd]; rfl
  have hs : t.sup = .absent := h.unspawned hne
  obtain ⟨hv, hj⟩ := onTicketCreated_spec hd
  -- all but the let-through are the steps of an exec that is already gone
  obtain ⟨hc₀, hl₀⟩ := h.toExec_over (e := .gone) hds rfl (by simp) trivial
  have hj₀ : JournalOk (toExec .gone t) (onTicketCreated.journal t.files) := by
    rw [hj]
    refine ⟨by change ExecPhase.stage .gone ≠ _; decide, ?_⟩
    refine journalOk_of_free (t := (toExec .gone t).after (.inDir .writeRemoteId)) ?_
    split_ifs <;> simp [RunnerOp.free]
  have hgone (crashAt : Option ℕ) {e : ExecPhase} (he' : e.stage = .closed) (hna : e ≠ .absent) :
      Coherent (toExec e (t.perform (onTicketCreated.journal t.files) crashAt)) ∧
        t.Leads (toExec e (t.perform (onTicketCreated.journal t.files) crashAt)) := by
    have hp := hc₀.perform hj₀ crashAt
    have hl := hc₀.perform_leads hj₀ crashAt
    have hds' := dir_isSome_perform hds (onTicketCreated.journal t.files) crashAt
    have hk : e.Knows (standing (toExec e
        ((toExec .gone t).perform (onTicketCreated.journal t.files) crashAt))) := by
      have hs' : ((toExec .gone t).perform (onTicketCreated.journal t.files) crashAt).sup =
          .absent := by cases crashAt <;> exact hs
      rw [barred_toExec_over hp.1 (by cases crashAt <;> exact hds') hs' he']
      exact e.knows_barred
    have hx := hp.1.toExec_over (by cases crashAt <;> exact hds') he' hna hk
    have hlead : t.Leads (toExec e
        ((toExec .gone t).perform (onTicketCreated.journal t.files) crashAt)) :=
      ⟨fun h' => hx.2.1 (hl.1 (hl₀.1 h')), (hl₀.2.trans hl.2).trans hx.2.2⟩
    cases crashAt <;> exact ⟨hx.1, hlead⟩
  intro crashAt
  cases crashAt with
  | some k =>
    simp only [Ticket.inSection, TicketMove.outcome,
      killExec_of_ne (a := .onTicketCreated) (by simp)]
    exact hgone (some k) rfl (by simp)
  | none =>
    simp only [Ticket.inSection, TicketMove.outcome]
    cases hval : onTicketCreated.value t.files with
    | true => exact hgone none rfl (by simp)
    | false =>
      rw [hv, Bool.or_eq_false_iff, Bool.or_eq_false_iff] at hval
      have href : d.refused = false := by rw [TicketDir.refused, hval.1, hval.2.1]; rfl
      rw [hj, hval.2.1, hval.2.2]
      exact coherent_recorded h he hd href

/-- **Every step of the exec.** -/
theorem exec_step {a : ExecAct} {m : TicketMove} (h : Coherent t) (hm : execMove t a = some m) :
    ExecOk t a m := by
  have hdir (hne : t.exec ≠ .absent) : t.files.dir.isSome = true :=
    Option.isSome_iff_ne_none.2 fun hn => hne (h.untaken.2 hn)
  have hnil := journalOk_nil t
  unfold execMove at hm
  split at hm
  case h_1 =>
    cases hm
    exact intake_step h
  case h_2 kind exit text he =>
    split at hm
    · cases hm
      exact execOk_unspawned h (by simp) (by rw [he]; decide) rfl (by simp)
    · cases hm
  case h_3 exitCode he | h_6 he =>
    cases hm
    exact execOk_unspawned h (by simp) (by rw [he]; decide) rfl (by simp)
  case h_4 he =>
    cases hm
    exact onTicketCreated_step h he
  case h_5 he =>
    cases hm
    intro crashAt
    cases crashAt with
    | none => exact coherent_launched h he
    | some k =>
      exact execOk_unspawned (a := .spawnSupervisor) (e := .gone) h (by simp)
        (by rw [he]; decide) rfl (by simp) (some k)
  case h_7 exitCode he =>
    split at hm
    · rename_i hdone
      cases hm
      have hd := hdir (by rw [he]; simp)
      refine execOk_over h (by simp) hnil hd rfl (by simp) ?_
      refine (leads_toExec_over hd rfl h).settled ?_
      rcases hdone with hr | hg
      · obtain ⟨r, hr⟩ := Option.isSome_iff_exists.1 hr
        exact (h.result r hr).1
      · exact settled_of_gone h hg
    · cases hm
  case h_8 exitCode refusedAtStart he =>
    cases hm
    have hd := hdir (by rw [he]; simp)
    refine execOk_over h (by simp) hnil hd rfl (by simp) ?_
    refine vouches_leads ?_ (leads_toExec_over hd rfl h)
    have hk := h.execKnows
    rw [he] at hk
    refine ⟨hk, fun hw => ?_⟩
    obtain ⟨r, hr, hreason⟩ := Option.bind_eq_some_iff.1 hw
    exact (h.result r hr).2 hreason
  case h_9 exitCode refusedAtStart structured he =>
    cases hm
    have hd := hdir (by rw [he]; simp)
    refine execOk_over h (by simp) hnil hd rfl (by simp) ?_
    refine vouches_leads ?_ (leads_toExec_over hd rfl h)
    have hk := h.execKnows
    rw [he] at hk
    exact ⟨hk.1, fun hw => hk.2 (ticketRecord_withdrawn hw)⟩
  case h_10 r he =>
    cases hm
    have hok : OpOk t (.inDir (.writeResult r)) := by
      have hk := h.execKnows
      rwa [he] at hk
    exact execOk_over h (by simp) (journalOk_single hok) (hdir (by rw [he]; simp)) rfl (by simp)
      trivial
  case h_11 =>
    split at hm
    · cases hm
    · cases hm
      exact execOk_over h (by simp) hnil (hdir ‹_›) rfl (by simp) trivial
  case h_12 => cases hm

end Runner
end LaneBroker
