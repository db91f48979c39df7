/-
# What a step does to the holders of a ticket

A submission holds a ticket when a record of the ticket names it, or when it is alive and past the
ownership check (`World.Holds`).  One step leaves the holders as they are, but for the process that
acts, which may take a ticket of which nothing is on disk (`World.MayHold`): each file operation of
the step is fair for these (`fair_move`), and so is what the process remembers afterwards
(`mayHold_of_claimed`).
-/

import LaneBroker.Broker.Holders

namespace LaneBroker

open LaneBroker.Basis

/-- **A submission holds a ticket.** -/
def World.Holds (w : World) (id : TicketId) (p : Proc) : Prop :=
  p ∈ (filesFor w.fs id).names ∨ ∃ sp, w.Claimed p sp ∧ sp.id = id

/-- Who may hold a ticket after a step. -/
def World.MayHold (w : World) (l : Label) (id : TicketId) (p : Proc) : Prop :=
  w.Holds id p ∨ p = l.actor ∧ Takes w l id

/-- A submission that is dispatching, queued, parked or running, or on its way back to the
queue. -/
def SupPhase.Working : SupPhase → Prop
  | .attempting | .fallen | .queued | .withdrawn _ | .returning _ | .started => True
  | _ => False

/-- A supervisor at work has published nothing. -/
theorem PhaseOk.result {id : TicketId} {v : TicketFiles} {ph : SupPhase} (h : PhaseOk id v ph)
    (hw : ph.Working) : v.result = none := by
  cases ph <;> simp only [SupPhase.Working] at hw
  case attempting => exact h.2.2.2
  case fallen => exact h.2.2.2
  case queued => exact h.2.2
  case withdrawn r => exact h.2.1
  case returning r => exact h.2.1
  case started => exact h.2.2

section Steps

variable {w : World} {l : Label} {m : Move} {sup : Supervisor} {c : Caller}

/-- Who is named may hold the ticket. -/
theorem namesIn_mayHold (w : World) (l : Label) : NamesIn (w.MayHold l) w.fs :=
  fun _ _ hq => .inl (.inl hq)

/-- Nobody holds a ticket that is taken. -/
theorem Takes.not_holds {id : TicketId} {p : Proc} (h : Takes w l id) (halone : w.Alone id) :
    ¬ w.Holds id p := by
  obtain ⟨-, -, -, -, he, -⟩ := h
  obtain ⟨hq, hp, hl, -, ha⟩ := existingTicket_eq_none he
  rintro (hn | ⟨sp, hsp, hid⟩)
  · rcases TicketFiles.mem_names.1 hn with ⟨e, he, -⟩ | ⟨le, hle, -⟩ | ⟨a, hat, -⟩
    · simp [hq, hp] at he
    · simp [hl] at hle
    · exact absurd (ha a hat) (by simp)
  · exact halone.1 p sp hsp hid

/-- The reaping of the tickets of dead supervisors. -/
theorem Inv.fair_reap (h : Inv w) {gone : List Proc} (hsound : w.probeSound gone = true)
    (keep : Option TicketId) (released : List TicketId) (now : ℕ) :
    BeforeEach (Fair (w.MayHold l)) ((reapStale keep gone released now).journal w.fs) w.fs :=
  fair_reapStale (X := w.Unowned) (namesIn_mayHold w l) h.tidy (fun _ hid => h.heldAlive hsound hid)
    keep released now

/-- **A supervisor's step is fair.** -/
theorem fair_supMove (h : Inv w) (hread : w.sups.read l.actor = some sup)
    (halive : sup.alive = true) (hmove : supMove w l sup = some m) :
    BeforeEach (Fair (w.MayHold l)) m.journal w.fs := by
  have hn := namesIn_mayHold w l
  have hclaim : sup.phase.Working → w.Claimed l.actor sup := fun hph =>
    ⟨hread, halive, fun hs => by rw [hs] at hph; exact hph⟩
  have hself : sup.phase.Working → w.MayHold l sup.id l.actor := fun hph =>
    .inl (.inr ⟨sup, hclaim hph, rfl⟩)
  have hres : sup.phase.Working → (filesFor w.fs sup.id).result = none := fun hph =>
    (h.owned _ _ (hclaim hph)).phase.result hph
  have htakes : sup.phase = .submitted →
      ((∃ now r, l.act = .createAttempt now r) ∨ ∃ now ls r, l.act = .enqueue now ls r) →
      existingTicket w.fs sup.id none = none → w.MayHold l sup.id l.actor :=
    fun hph hact he => .inr ⟨rfl, sup, hread, rfl, hph, he, hact⟩
  unfold supMove at hmove
  dsimp only at hmove
  split at hmove
  case h_1 now refusal hact hph hg =>
    split at hmove
    · obtain rfl := Option.some.inj hmove
      exact fair_createAttempt now (htakes hph (.inl ⟨now, refusal, hact⟩))
    · exact absurd hmove (by simp)
  case h_2 now losers refusal hact hph hg =>
    split at hmove
    · exact absurd hmove (by simp)
    · obtain rfl := Option.some.inj hmove
      exact fair_enqueue now losers (htakes hph (.inr ⟨now, losers, refusal, hact⟩))
  case h_3 now losers refusal g hact hph hg =>
    obtain rfl := Option.some.inj hmove
    exact fair_enqueue now losers fun _ => hself (by rw [hph]; trivial)
  case h_4 patch g hact hph hg | h_5 patch r g hact hph hg | h_12 rec g hact hph hg =>
    obtain rfl := Option.some.inj hmove
    exact fair_updateAttempt g hn (fun _ => rfl) (hres (by rw [hph]; trivial))
  case h_6 reason g hact hph hg =>
    obtain rfl := Option.some.inj hmove
    exact fair_fallbackToLocal reason hn (hres (by rw [hph]; trivial))
  case h_7 r g hact hph hg | h_8 r g hact hph hg | h_9 r rec g hact hph hg =>
    obtain rfl := Option.some.inj hmove
    exact fair_publishTerminal (rowWriter_verdict sup.id r)
  case h_10 admitted gone released now hact hph =>
    split at hmove
    · rename_i hsound
      obtain rfl := Option.some.inj hmove
      have hw : sup.phase.Working := by rw [hph]; trivial
      refine fair_tryStart admitted released now (h.fair_reap hsound (some sup.id) released now)
        (hself hw) ?_
      rw [(h.safe_reap hsound (some sup.id) released now).frame fun hun => hun _ _ (hclaim hw) rfl]
      exact hres hw
    · exact absurd hmove (by simp)
  case h_11 fault g hact hph hg =>
    obtain rfl := Option.some.inj hmove
    exact fair_withdrawQueued fault hn (hres (by rw [hph]; trivial))
  case h_13 now rec hact hph =>
    obtain rfl := Option.some.inj hmove
    have hw : sup.phase.Working := by rw [hph]; trivial
    have hphase := (h.owned _ _ (hclaim hw)).phase
    rw [hph] at hphase
    obtain ⟨hrid, hr, e, hpe⟩ := hphase
    exact fair_restoreLocked now hn h.tidy (by rw [hrid, hpe]; simp) (hrid ▸ hr)
  case h_14 hact hph =>
    obtain rfl := Option.some.inj hmove
    exact fair_dequeueSync
  case h_15 hact hph | h_24 hact =>
    obtain rfl := Option.some.inj hmove
    exact ⟨fair_of_named rfl, trivial⟩
  case h_16 r logged g hact hph hg =>
    obtain rfl := Option.some.inj hmove
    exact fair_publishTerminal (rowWriter_leaving sup.id r logged)
  case h_17 r logged g hact hph hg =>
    obtain rfl := Option.some.inj hmove
    exact fair_of_forall_named fun op hop => (releaseOp_finalize sup.id g r w.fs op hop).named
  case h_18 hact hph hg | h_19 r hact hph hg | h_20 r hact hph hg | h_22 hact hph | h_25 hact =>
    obtain rfl := Option.some.inj hmove
    trivial
  case h_21 op ops hact hph =>
    obtain rfl := Option.some.inj hmove
    have hc : w.Claimed l.actor sup := ⟨hread, halive, by rw [hph]; simp⟩
    have hphase := (h.owned _ _ hc).phase
    rw [hph] at hphase
    exact ⟨fair_of_named (hphase.2.2.release op (List.mem_cons_self ..)).named, trivial⟩
  case h_23 hact hph =>
    obtain rfl := Option.some.inj hmove
    exact fair_clearTicketMarkers
  case h_26 => exact absurd hmove (by simp)

/-- The settlement of an abandoned local attempt names no process. -/
theorem named_settle {id : TicketId} {gone : List Proc} {g : ℕ} {s : Broker} :
    ∀ op ∈ (publishTerminal id g (isAbandoned id gone) (settleWriter id)).journal s,
      op.named = none := by
  intro op hop
  rcases journal_publishTerminal_cases id g (isAbandoned id gone) (settleWriter id) s with
    hj | ⟨a, b, -, -, -, -, hj⟩
  · simp [hj] at hop
  · rw [hj, List.mem_append, List.mem_singleton] at hop
    rcases hop with hop | rfl
    · cases hr : (s.results.read id).isSome with
      | true => simp [settleWriter, hr] at hop
      | false =>
        have hw : (settleWriter id b).journal s = (writeResultRow id
          { deadSupervisorResult false with executor := some .local } none).journal s := by
            simp [settleWriter, hr]
        rw [hw, journal_writeResultRow, List.mem_cons, List.mem_singleton] at hop
        rcases hop with rfl | rfl <;> rfl
    · rfl

/-- **A step of `lane cancel` or of a reconciliation names nobody.** -/
theorem named_callerMove (h : Inv w) (hread : w.callers.read l.actor = some c)
    (hmove : callerMove w l c = some m) : ∀ op ∈ m.journal, op.named = none := by
  have hok := h.callers _ _ hread
  unfold callerMove at hmove
  dsimp only at hmove
  split at hmove
  case h_1 | h_2 | h_3 | h_4 =>
    split at hmove <;> obtain rfl := Option.some.inj hmove <;> simp [Move.silent]
  case h_5 =>
    split_ifs at hmove <;> obtain rfl := Option.some.inj hmove <;>
      simp [Move.silent, Move.single, FileOp.named]
  case h_6 =>
    obtain rfl := Option.some.inj hmove
    simp [Move.single, FileOp.named]
  case h_7 => split_ifs at hmove <;> obtain rfl := Option.some.inj hmove <;> simp [Move.silent]
  case h_8 | h_14 | h_15 =>
    obtain rfl := Option.some.inj hmove
    simp [Move.silent]
  case h_9 r gone id a hact =>
    obtain rfl := Option.some.inj hmove
    exact named_of_rowWriter (rowWriter_row id remoteCancelledResult none)
  case h_10 r gone id lease a hact =>
    obtain rfl := Option.some.inj hmove
    exact named_of_rowWriter (rowWriter_cancelLease id a.executor)
  case h_11 r gone id a hact =>
    split_ifs at hmove
    obtain rfl := Option.some.inj hmove
    exact named_of_rowWriter (rowWriter_verdict id r)
  case h_12 r gone id a hact =>
    split_ifs at hmove
    obtain rfl := Option.some.inj hmove
    exact named_settle
  case h_13 id op ops hact =>
    obtain rfl := Option.some.inj hmove
    intro o ho
    rw [List.mem_singleton.1 ho]
    exact (hok.2.2 op (List.mem_cons_self ..)).named
  case h_16 => exact absurd hmove (by simp)

/-- Taking a ticket out of the queue begins nothing. -/
theorem fair_cancelQueued {H : TicketId → Proc → Prop} {s : Broker} (id : TicketId) :
    BeforeEach (Fair H) ((cancelQueued id).journal s) s := by
  cases hq : findQueueFile s id with
  | none =>
    have hj : (cancelQueued id).journal s = [] := by simp [cancelQueued, hq]
    rw [hj]
    trivial
  | some e =>
    have hj : (cancelQueued id).journal s =
        (dequeueSync id).journal s ++ [.writeCancelMarker id] := by simp [cancelQueued, hq]
    rw [hj]
    exact beforeEach_append.2 ⟨fair_dequeueSync, fair_of_named rfl, trivial⟩

/-- **A step that needs no memory of its process is fair.** -/
theorem fair_anyMove (h : Inv w) (hmove : anyMove w l = some m) :
    BeforeEach (Fair (w.MayHold l)) m.journal w.fs := by
  unfold anyMove at hmove
  dsimp only at hmove
  split at hmove
  case h_1 =>
    split_ifs at hmove
    obtain rfl := Option.some.inj hmove
    trivial
  case h_2 id hact =>
    split_ifs at hmove
    obtain rfl := Option.some.inj hmove
    exact fair_cancelQueued id
  case h_3 id gone hact =>
    split_ifs at hmove
    cases ha : w.fs.attempts.read id with
    | none => simp [ha] at hmove
    | some a =>
      rw [ha] at hmove
      dsimp only at hmove
      split_ifs at hmove
      obtain rfl := Option.some.inj hmove
      trivial
  case h_4 id gone hact | h_6 gone hact =>
    split_ifs at hmove
    obtain rfl := Option.some.inj hmove
    exact fair_reapOrphanedQueue none
  case h_5 keep gone released now hact =>
    split_ifs at hmove with hsound
    obtain rfl := Option.some.inj hmove
    exact h.fair_reap hsound keep released now
  case h_7 b hact =>
    obtain rfl := Option.some.inj hmove
    exact ⟨fair_of_named rfl, trivial⟩
  case h_8 => exact absurd hmove (by simp)

/-- **Every step is fair**: it names nobody new but the process that acts, on a ticket that this
one holds or takes, and it begins nothing for a ticket with a terminal result. -/
theorem fair_move (h : Inv w) (hmove : move w l = some m) :
    BeforeEach (Fair (w.MayHold l)) m.journal w.fs := by
  unfold move at hmove
  split at hmove
  case h_1 sup hread =>
    split_ifs at hmove with halive
    rcases hsup : supMove w l sup with _ | m'
    · rw [hsup] at hmove
      exact fair_anyMove h hmove
    · rw [hsup] at hmove
      obtain rfl := Option.some.inj hmove
      exact fair_supMove h hread halive hsup
  case h_2 c hnone hread => exact fair_of_forall_named (named_callerMove h hread hmove)
  case h_3 => exact fair_anyMove h hmove

/-! ### What a process remembers after its step -/

/-- **What a supervisor remembers after its step**: it goes on with its own ticket, which it takes
if it is not past the ownership check yet. -/
theorem remember_supMove (hread : w.sups.read l.actor = some sup)
    (hmove : supMove w l sup = some m) (v : World) :
    m.remember v = v ∨ m.remember v = v.kill l.actor ∨
      ∃ sup', sup'.id = sup.id ∧ m.remember v = v.setSup l.actor sup' ∧
        (sup.phase = .submitted → Takes w l sup.id) := by
  have hpast : ∀ ph, ph ≠ .submitted → sup.phase = ph → ∀ v' sup', v' = v.setSup l.actor sup' →
      sup'.id = sup.id → ∃ sup', sup'.id = sup.id ∧ v' = v.setSup l.actor sup' ∧
        (sup.phase = .submitted → Takes w l sup.id) := by
    intro ph hne hph v' sup' hv' hid
    exact ⟨sup', hid, hv', fun hs => absurd (hph.symm.trans hs) hne⟩
  have htakes : ∀ {f : Section Intake} {taken refusal}, taken.id = sup.id →
      sup.phase = .submitted →
      ((∃ now r, l.act = .createAttempt now r) ∨ ∃ now ls r, l.act = .enqueue now ls r) →
      (f.value w.fs = .taken ∨ f.value w.fs = .migrating → existingTicket w.fs sup.id none = none) →
      afterIntake l.actor sup taken refusal (f.value w.fs) v = v ∨
        afterIntake l.actor sup taken refusal (f.value w.fs) v = v.kill l.actor ∨
        ∃ sup', sup'.id = sup.id ∧
          afterIntake l.actor sup taken refusal (f.value w.fs) v = v.setSup l.actor sup' ∧
          (sup.phase = .submitted → Takes w l sup.id) := by
    intro f taken refusal hid hph hact he
    cases hv : f.value w.fs with
    | taken => exact .inr (.inr ⟨taken, hid, rfl, fun _ => ⟨sup, hread, rfl, hph,
        he (.inl hv), hact⟩⟩)
    | existing e => exact .inr (.inl rfl)
    | migrating =>
      have ht : Takes w l sup.id := ⟨sup, hread, rfl, hph, he (.inr hv), hact⟩
      cases hg : sup.generation.isSome with
      | true => exact .inr (.inr ⟨{ sup with phase := .leaving }, rfl,
          by simp only [afterIntake, hg, if_true]; rfl, fun _ => ht⟩)
      | false => exact .inr (.inr ⟨{ sup with phase := .closing [.writeResult sup.id refusal] },
          rfl, by simp only [afterIntake, hg]; rfl, fun _ => ht⟩)
  unfold supMove at hmove
  dsimp only at hmove
  split at hmove
  case h_1 now refusal hact hph hg =>
    split at hmove
    · obtain rfl := Option.some.inj hmove
      refine htakes rfl hph (.inl ⟨now, refusal, hact⟩) fun hv => ?_
      rcases createAttempt_cases sup.id l.actor now w.fs with ⟨-, he, -⟩ | ⟨hne, -, he⟩
      · exact he
      · exact he (hv.resolve_left hne)
    · exact absurd hmove (by simp)
  case h_2 now losers refusal hact hph hg =>
    split at hmove
    · exact absurd hmove (by simp)
    · obtain rfl := Option.some.inj hmove
      refine htakes rfl hph (.inr ⟨now, losers, refusal, hact⟩) fun hv => ?_
      rcases enqueue_cases sup.id l.actor now none losers w.fs with ⟨-, he, -⟩ | ⟨hne, -, he⟩
      · exact he
      · exact he (hv.resolve_left hne)
  case h_3 now losers refusal g hact hph hg =>
    obtain rfl := Option.some.inj hmove
    dsimp only [World.inSection]
    cases (enqueue sup.id l.actor now (some g) losers).value w.fs with
    | taken => exact .inr (.inr (hpast _ (by simp) hph _ _ rfl rfl))
    | existing e => exact .inr (.inl rfl)
    | migrating =>
      refine .inr (.inr (hpast _ (by simp) hph _ { sup with phase := .leaving } ?_ rfl))
      simp only [afterIntake, hg, Option.isSome_some, if_true]
      rw [toPhase, hg]
  case h_4 | h_5 | h_23 | h_24 =>
    obtain rfl := Option.some.inj hmove
    exact .inl rfl
  case h_6 reason g hact hph hg =>
    obtain rfl := Option.some.inj hmove
    dsimp only [World.inSection]
    cases (fallbackToLocal sup.id reason).value w.fs with
    | ok a => exact .inr (.inr (hpast _ (by simp) hph _ _ rfl rfl))
    | cancelled => exact .inl rfl
    | missing => exact .inr (.inl rfl)
  case h_7 r g hact hph hg | h_8 r g hact hph hg | h_9 r rec g hact hph hg =>
    obtain rfl := Option.some.inj hmove
    dsimp only [World.inSection]
    cases (publishTerminal sup.id g expectAny (verdictWriter sup.id r)).value w.fs with
    | published b => exact .inr (.inr (hpast _ (by simp) hph _ _ rfl rfl))
    | alreadyPublished | stale | refused => exact .inr (.inl rfl)
  case h_10 admitted gone released now hact hph =>
    split at hmove
    · obtain rfl := Option.some.inj hmove
      dsimp only [World.inSection]
      cases (tryStart sup.id l.actor admitted gone released now).value w.fs with
      | started => exact .inr (.inr (hpast _ (by simp) hph _ _ rfl rfl))
      | notQueued | waiting | cancelled => exact .inl rfl
    · exact absurd hmove (by simp)
  case h_11 fault g hact hph hg =>
    obtain rfl := Option.some.inj hmove
    dsimp only [World.inSection]
    cases (withdrawQueued sup.id l.actor fault).value w.fs with
    | withdrawn r => exact .inr (.inr (hpast _ (by simp) hph _ _ rfl rfl))
    | notTaken => exact .inl rfl
    | threw => exact .inr (.inl rfl)
  case h_17 r logged g hact hph hg =>
    obtain rfl := Option.some.inj hmove
    dsimp only [World.inSection]
    cases (publishTerminal sup.id g expectAny (finalizeWriter sup.id r)).value w.fs with
    | published b | alreadyPublished | stale | refused =>
      exact .inr (.inr (hpast _ (by simp) hph _ _ rfl rfl))
  case h_25 =>
    obtain rfl := Option.some.inj hmove
    exact .inr (.inl rfl)
  case h_26 => exact absurd hmove (by simp)
  all_goals
    obtain rfl := Option.some.inj hmove
    refine .inr (.inr (hpast _ ?_ (by assumption) _ _ rfl rfl))
    simp

/-- The supervisor that a `lane cancel` means to cancel: the one the record that it read names. -/
def Caller.aims : Caller → Option Proc
  | .attemptSeen _ a _ => some a.supervisor
  | .leaseSeen _ lease => some lease.supervisor
  | _ => none

/-- Whoever aims at a process has read a record of it. -/
theorem Caller.holds_of_aims {p : Proc} (h : c.aims = some p) : c.Holds := by
  cases c <;> simp only [Caller.aims, reduceCtorEq] at h <;> trivial

/-- **What a `lane cancel` or a reconciliation remembers**: whom it aims at, a record names. -/
theorem remember_callerMove (hmove : callerMove w l c = some m) (v : World) :
    m.remember v = v.kill l.actor ∨ m.remember v = v.dropCaller l.actor ∨
      ∃ c', m.remember v = v.setCaller l.actor c' ∧
        ∀ p, c'.aims = some p → p ∈ (filesFor w.fs c'.id).names := by
  have hplain : ∀ c' : Caller, c'.aims = none → ∃ c'', v.setCaller l.actor c' =
      v.setCaller l.actor c'' ∧ ∀ p, c''.aims = some p → p ∈ (filesFor w.fs c''.id).names :=
    fun c' hc' => ⟨c', rfl, fun p hp => by rw [hc'] at hp; cases hp⟩
  have hattempt : ∀ {id a} (o : Bool), w.fs.attempts.read id = some a →
      ∃ c', v.setCaller l.actor (.attemptSeen id a o) = v.setCaller l.actor c' ∧
        ∀ p, c'.aims = some p → p ∈ (filesFor w.fs c'.id).names := by
    refine fun {id a} o ha => ⟨_, rfl, fun p hp => ?_⟩
    exact TicketFiles.mem_names.2 (.inr (.inr ⟨a, ha, Option.some.inj hp⟩))
  unfold callerMove at hmove
  dsimp only at hmove
  split at hmove
  case h_1 id hact =>
    cases hl : w.fs.leases.read id with
    | some lease =>
      rw [hl] at hmove
      obtain rfl := Option.some.inj hmove
      refine .inr (.inr ⟨_, rfl, fun p hp => ?_⟩)
      exact TicketFiles.mem_names.2 (.inr (.inl ⟨lease, hl, Option.some.inj hp⟩))
    | none =>
      rw [hl] at hmove
      obtain rfl := Option.some.inj hmove
      exact .inr (.inr (hplain _ rfl))
  case h_2 id hact =>
    cases ha : w.fs.attempts.read id with
    | some a =>
      rw [ha] at hmove
      obtain rfl := Option.some.inj hmove
      exact .inr (.inr (hattempt false ha))
    | none =>
      rw [ha] at hmove
      obtain rfl := Option.some.inj hmove
      exact .inr (.inl rfl)
  case h_3 id hact =>
    cases ha : w.fs.attempts.read id with
    | some a =>
      rw [ha] at hmove
      obtain rfl := Option.some.inj hmove
      exact .inr (.inr (hattempt true ha))
    | none =>
      rw [ha] at hmove
      obtain rfl := Option.some.inj hmove
      exact .inr (.inl rfl)
  case h_4 id lease hact =>
    split at hmove <;> obtain rfl := Option.some.inj hmove <;> exact .inr (.inr (hplain _ rfl))
  case h_5 gone id a orphanOnly hact =>
    split_ifs at hmove <;> obtain rfl := Option.some.inj hmove
    · exact .inr (.inr (hplain _ rfl))
    · exact .inr (.inl rfl)
    · exact .inr (.inr (hplain _ rfl))
  case h_6 | h_13 =>
    obtain rfl := Option.some.inj hmove
    exact .inr (.inr (hplain _ rfl))
  case h_7 =>
    split_ifs at hmove <;> obtain rfl := Option.some.inj hmove
    · exact .inr (.inr (hplain _ rfl))
    · exact .inr (.inl rfl)
  case h_8 confirmed id a hact =>
    obtain rfl := Option.some.inj hmove
    cases confirmed with
    | true => exact .inr (.inr (hplain _ rfl))
    | false => exact .inr (.inl rfl)
  case h_9 | h_14 =>
    obtain rfl := Option.some.inj hmove
    exact .inr (.inl rfl)
  case h_10 r gone id lease a hact =>
    obtain rfl := Option.some.inj hmove
    dsimp only [World.inSection]
    cases (publishTerminal id a.generation expectAny (cancelLeaseWriter id a.executor)).value
      w.fs with
    | published b | alreadyPublished => exact .inr (.inr (hplain _ rfl))
    | stale | refused => exact .inr (.inl rfl)
  case h_11 | h_12 =>
    split_ifs at hmove
    obtain rfl := Option.some.inj hmove
    exact .inr (.inl rfl)
  case h_15 =>
    obtain rfl := Option.some.inj hmove
    exact .inl rfl
  case h_16 => exact absurd hmove (by simp)

/-- **What a process remembers of a step that needs no memory**: a submission before the ownership
check, or a caller that aims at nobody yet. -/
theorem remember_anyMove (hmove : anyMove w l = some m) (v : World) :
    m.remember v = v ∨ (∃ sup', m.remember v = v.setSup l.actor sup' ∧ sup'.phase = .submitted) ∨
      ∃ c', m.remember v = v.setCaller l.actor c' ∧ c'.aims = none := by
  unfold anyMove at hmove
  dsimp only at hmove
  split at hmove
  case h_1 =>
    split_ifs at hmove
    obtain rfl := Option.some.inj hmove
    exact .inr (.inl ⟨_, rfl, rfl⟩)
  case h_2 id hact =>
    split_ifs at hmove
    obtain rfl := Option.some.inj hmove
    dsimp only [World.inSection]
    cases (cancelQueued id).value w.fs with
    | true => exact .inl rfl
    | false => exact .inr (.inr ⟨.readingLease id, rfl, rfl⟩)
  case h_3 id gone hact =>
    split_ifs at hmove
    cases ha : w.fs.attempts.read id with
    | none => simp [ha] at hmove
    | some a =>
      rw [ha] at hmove
      dsimp only at hmove
      split_ifs at hmove
      obtain rfl := Option.some.inj hmove
      exact .inr (.inr ⟨_, rfl, rfl⟩)
  case h_4 id gone hact =>
    split_ifs at hmove
    obtain rfl := Option.some.inj hmove
    dsimp only [World.inSection]
    cases v.fs.attempts.read id with
    | some a => exact .inr (.inr ⟨.settlingLocal id a, rfl, rfl⟩)
    | none => exact .inl rfl
  case h_5 | h_6 =>
    split_ifs at hmove
    obtain rfl := Option.some.inj hmove
    exact .inl rfl
  case h_7 =>
    obtain rfl := Option.some.inj hmove
    exact .inl rfl
  case h_8 => exact absurd hmove (by simp)

/-- **Who has a ticket once a step is complete** had it before, or takes it. -/
theorem claimed_remember {q : Proc} {sq : Supervisor} (h : Inv w) (hsafe : RecoverySafe w l)
    (hmove : move w l = some m) (hc : (m.remember (m.files w)).Claimed q sq) :
    w.MayHold l sq.id q := by
  by_cases hq : q = l.actor
  swap
  · refine .inl (.inr ⟨sq, ?_, rfl⟩)
    rwa [World.Claimed, (stepOk_move h hsafe hmove).sups q hq] at hc
  subst hq
  have hsame : m.remember (m.files w) = m.files w → w.MayHold l sq.id l.actor := fun hr =>
    .inl (.inr ⟨sq, by rwa [hr] at hc, rfl⟩)
  have hkill : m.remember (m.files w) = (m.files w).kill l.actor → w.MayHold l sq.id l.actor :=
    fun hr => absurd (hr ▸ hc) (World.not_claimed_kill _ _ _)
  have hset : ∀ {sup'}, m.remember (m.files w) = (m.files w).setSup l.actor sup' → sup' = sq :=
    fun hr => by
      have hread := hc.1
      rw [hr, World.setSup, Dir.read_write_self] at hread
      exact Option.some.inj hread
  have hany : anyMove w l = some m → w.MayHold l sq.id l.actor := fun hany => by
    rcases remember_anyMove hany (m.files w) with hr | ⟨sup', hr, hph⟩ | ⟨c', hr, -⟩
    · exact hsame hr
    · exact absurd (hset hr ▸ hph) hc.2.2
    · exact .inl (.inr ⟨sq, by rwa [hr] at hc, rfl⟩)
  unfold move at hmove
  split at hmove
  case h_1 sup hread =>
    split_ifs at hmove with halive
    rcases hsup : supMove w l sup with _ | m'
    · rw [hsup] at hmove
      exact hany hmove
    · rw [hsup] at hmove
      obtain rfl := Option.some.inj hmove
      rcases remember_supMove hread hsup (m'.files w) with hr | hr | ⟨sup', hid, hr, htakes⟩
      · exact hsame hr
      · exact hkill hr
      · obtain rfl := hset hr
        rw [hid]
        by_cases hph : sup.phase = .submitted
        · exact .inr ⟨rfl, htakes hph⟩
        · exact .inl (.inr ⟨sup, ⟨hread, halive, hph⟩, rfl⟩)
  case h_2 c hnone hread =>
    rcases remember_callerMove hmove (m.files w) with hr | hr | ⟨c', hr, -⟩
    · exact hkill hr
    · exact .inl (.inr ⟨sq, by rwa [hr] at hc, rfl⟩)
    · exact .inl (.inr ⟨sq, by rwa [hr] at hc, rfl⟩)
  case h_3 => exact hany hmove

/-- **Whom a caller aims at once a step is complete**, it aimed at before, or a record names it. -/
theorem caller_remember {q p : Proc} (h : Inv w) (hsafe : RecoverySafe w l)
    (hmove : move w l = some m) (hc : (m.remember (m.files w)).callers.read q = some c)
    (hp : c.aims = some p) :
    w.callers.read q = some c ∨ p ∈ (filesFor w.fs c.id).names := by
  by_cases hq : q = l.actor
  swap
  · exact .inl ((stepOk_move h hsafe hmove).callers q hq ▸ hc)
  subst hq
  have hset : ∀ {c'}, m.remember (m.files w) = (m.files w).setCaller l.actor c' → c' = c :=
    fun hr => by
      rw [hr, World.setCaller, Dir.read_write_self] at hc
      exact Option.some.inj hc
  have hkill : m.remember (m.files w) = (m.files w).kill l.actor → False := fun hr => by
    rw [hr, World.kill_callers, if_pos rfl] at hc
    cases hc
  have hany : anyMove w l = some m →
      w.callers.read l.actor = some c ∨ p ∈ (filesFor w.fs c.id).names := fun hany => by
    rcases remember_anyMove hany (m.files w) with hr | ⟨sup', hr, -⟩ | ⟨c', hr, hc'⟩
    · exact .inl (by rwa [hr] at hc)
    · exact .inl (by rwa [hr] at hc)
    · rw [hset hr, hp] at hc'
      cases hc'
  unfold move at hmove
  split at hmove
  case h_1 sup hread =>
    split_ifs at hmove with halive
    rcases hsup : supMove w l sup with _ | m'
    · rw [hsup] at hmove
      exact hany hmove
    · rw [hsup] at hmove
      obtain rfl := Option.some.inj hmove
      rcases remember_supMove hread hsup (m'.files w) with hr | hr | ⟨sup', -, hr, -⟩
      · exact .inl (by rwa [hr] at hc)
      · exact (hkill hr).elim
      · exact .inl (by rwa [hr] at hc)
  case h_2 c₀ hnone hread =>
    rcases remember_callerMove hmove (m.files w) with hr | hr | ⟨c', hr, haims⟩
    · exact (hkill hr).elim
    · rw [hr, World.dropCaller, Dir.read_unlink_self] at hc
      cases hc
    · obtain rfl := hset hr
      exact .inr (haims p hp)
  case h_3 => exact hany hmove

/-! ### Whose files a submission touches -/

/-- Operations about the files of the tickets `X` only. -/
def Touches (X : TicketId → Prop) (ops : List FileOp) : Prop :=
  ∀ op ∈ ops, ∀ i, op.about = some i → X i

section Touches

variable {X K : TicketId → Prop} {ops : List FileOp} {op : FileOp} {s : Broker} {id : TicketId}
  {p : Proc}

theorem SafeSection.touches (h : SafeSection X K ops s) : Touches X ops := fun _ hop _ hi =>
  h.about hop hi

theorem Touches.mono {Y : TicketId → Prop} (h : Touches X ops) (hX : ∀ i, X i → Y i) :
    Touches Y ops := fun op hop i hi => hX i (h op hop i hi)

theorem Touches.nil : Touches X [] := fun _ hop => by simp at hop

theorem Touches.cons (hop : ∀ i, op.about = some i → X i) (h : Touches X ops) :
    Touches X (op :: ops) := fun _ ho i hi => by
  rcases List.mem_cons.1 ho with rfl | ho
  · exact hop i hi
  · exact h _ ho i hi

/-- Operations on no ticket. -/
theorem Touches.of_about_none (h : ∀ op ∈ ops, op.about = none) : Touches X ops :=
  fun op hop i hi => by rw [h op hop] at hi; cases hi

/-- A release is of its own ticket. -/
theorem ReleaseOp.touches (h : ∀ op ∈ ops, ReleaseOp id op) : Touches (· = id) ops := by
  intro op hop i hi
  have hrel := h op hop
  cases op <;> simp only [FileOp.about, Option.some.injEq, reduceCtorEq] at hi <;> subst hi <;>
    first | exact hrel | exact hrel.elim | skip
  case unlinkParked why n =>
    cases why
    · exact hrel.elim
    · exact hrel

theorem touches_patchAttemptLocked (patch : Attempt → Attempt) :
    Touches (· = id) ((patchAttemptLocked id patch).journal s) := by
  rw [journal_patchAttemptLocked]
  cases s.attempts.read id with
  | none => exact .nil
  | some a => exact .cons (fun i hi => (Option.some.inj hi).symm) .nil

/-- A record is made of a ticket that nobody has. -/
theorem touches_createAttempt (now : ℕ) :
    Touches (fun i => i = id ∧ existingTicket s id none = none)
      ((createAttempt id p now).journal s) := by
  rcases createAttempt_cases id p now s with ⟨-, he, hj⟩ | ⟨-, hj, -⟩ <;> rw [hj]
  · exact .cons (fun i hi => ⟨(Option.some.inj hi).symm, he⟩) .nil
  · exact .nil

/-- A ticket is queued that nobody has, or that is its own. -/
theorem touches_enqueue (now : ℕ) (g : Option ℕ) (losers : List (TicketId × TicketId)) :
    Touches (fun i => i = id ∧ existingTicket s id g = none)
      ((enqueue id p now g losers).journal s) := by
  rcases enqueue_cases id p now g losers s with ⟨-, he, marks, hmarks, hj⟩ | ⟨-, hj, -⟩ <;> rw [hj]
  · exact .cons (fun i hi => ⟨(Option.some.inj hi).symm, he⟩)
      (.cons (fun i hi => ⟨(Option.some.inj hi).symm, he⟩)
        (.of_about_none fun op hop => (hmarks op hop).1))
  · exact .nil

theorem touches_updateAttempt (n : ℕ) (patch : Attempt → Attempt) :
    Touches (· = id) ((updateAttempt id n patch).journal s) := by
  rcases journal_updateAttempt_cases id n patch s with hj | ⟨a, -, -, hj⟩ <;> rw [hj]
  · exact .nil
  · exact .cons (fun i hi => (Option.some.inj hi).symm) .nil

theorem touches_fallbackToLocal (reason : String) :
    Touches (· = id) ((fallbackToLocal id reason).journal s) := by
  rcases fallbackToLocal_cases id reason s with ⟨a, -, -, hj⟩ | ⟨-, hj⟩ <;> rw [hj]
  · exact .cons (fun i hi => (Option.some.inj hi).symm) .nil
  · exact .nil

theorem touches_withdrawQueued (fault : Option WithdrawFault) :
    Touches (· = id) ((withdrawQueued id p fault).journal s) := by
  have hfile : ∀ {n r}, (filesFor s id).queued.head? = some (n, r) → ∀ i, some n.id = some i →
      i = id := by
    rintro n r hq i ⟨rfl⟩
    exact id_of_mem_files (e := (n, r)) hq
  rcases withdrawQueued_cases id p fault s with ⟨n, r, -, hq, -, hj⟩ | ⟨-, hj | ⟨n, r, hq, hj⟩⟩ <;>
    rw [hj]
  · exact .cons (hfile hq) (touches_patchAttemptLocked _)
  · exact .nil
  · exact .cons (hfile hq) (.cons (hfile hq) .nil)

/-- **A publish touches the ticket that it is about.** -/
theorem touches_publishTerminal {n : ℕ} {expect : Broker → Attempt → Bool}
    {wr : Bool → Section Unit} (hw : RowWriter id wr) (h : AllTidy s) :
    Touches (· = id) ((publishTerminal id n expect wr).journal s) :=
  (hw.safe (X := (· = id)) (K := fun _ => False) h fun _ _ _ => rfl).touches

/-- **A poll touches the ticket that polls**, and what it reaps. -/
theorem touches_tryStart {gone : List Proc} (admitted : Bool) (released : List TicketId) (now : ℕ)
    (hreap : SafeSection X K ((reapStale (some id) gone released now).journal s) s) :
    Touches (fun i => i = id ∨ X i) ((tryStart id p admitted gone released now).journal s) := by
  rcases tryStart_cases id p admitted gone released now s with ⟨-, -, hj⟩ | ⟨-, hj⟩ <;> rw [hj]
  · intro op hop i hi
    rw [List.mem_append, List.mem_append, List.mem_singleton] at hop
    rcases hop with hop | hop | rfl
    · exact .inr (hreap.about hop hi)
    · exact .inl ((safe_dequeueSync (X := (· = id)) (K := K) hreap.2 rfl).about hop hi)
    · exact .inl (Option.some.inj hi).symm
  · exact hreap.touches.mono fun i hi => .inr hi

end Touches

/-- The ticket of a supervisor that is past the ownership check, or that takes it now. -/
def World.Has (w : World) (l : Label) (id : TicketId) : Prop :=
  (∃ sup, w.Claimed l.actor sup ∧ sup.id = id) ∨ Takes w l id

/-- **A supervisor's step touches its own ticket**, or those of dead supervisors. -/
theorem touches_supMove (h : Inv w) (hread : w.sups.read l.actor = some sup)
    (halive : sup.alive = true) (hmove : supMove w l sup = some m) :
    Touches (fun i => w.Has l i ∨ w.Unowned i) m.journal := by
  have hown : ∀ {ops}, sup.phase ≠ .submitted → Touches (· = sup.id) ops →
      Touches (fun i => w.Has l i ∨ w.Unowned i) ops := fun hph ht =>
    ht.mono fun i hi => .inl (.inl ⟨sup, ⟨hread, halive, hph⟩, hi.symm⟩)
  have htakes : ∀ {ops}, sup.phase = .submitted →
      ((∃ now r, l.act = .createAttempt now r) ∨ ∃ now ls r, l.act = .enqueue now ls r) →
      Touches (fun i => i = sup.id ∧ existingTicket w.fs sup.id none = none) ops →
      Touches (fun i => w.Has l i ∨ w.Unowned i) ops := fun hph hact ht =>
    ht.mono fun i hi => .inl (.inr ⟨sup, hread, hi.1.symm, hph, hi.1 ▸ hi.2, hact⟩)
  unfold supMove at hmove
  dsimp only at hmove
  split at hmove
  case h_1 now refusal hact hph hg =>
    split at hmove
    · obtain rfl := Option.some.inj hmove
      exact htakes hph (.inl ⟨now, refusal, hact⟩) (touches_createAttempt now)
    · exact absurd hmove (by simp)
  case h_2 now losers refusal hact hph hg =>
    split at hmove
    · exact absurd hmove (by simp)
    · obtain rfl := Option.some.inj hmove
      exact htakes hph (.inr ⟨now, losers, refusal, hact⟩) (touches_enqueue now none losers)
  case h_3 now losers refusal g hact hph hg =>
    obtain rfl := Option.some.inj hmove
    exact hown (by simp [hph]) ((touches_enqueue now (some g) losers).mono fun i hi => hi.1)
  case h_4 patch g hact hph hg | h_5 patch r g hact hph hg | h_12 rec g hact hph hg =>
    obtain rfl := Option.some.inj hmove
    exact hown (by simp [hph]) (touches_updateAttempt g _)
  case h_6 reason g hact hph hg =>
    obtain rfl := Option.some.inj hmove
    exact hown (by simp [hph]) (touches_fallbackToLocal reason)
  case h_7 r g hact hph hg | h_8 r g hact hph hg | h_9 r rec g hact hph hg =>
    obtain rfl := Option.some.inj hmove
    exact hown (by simp [hph]) (touches_publishTerminal (rowWriter_verdict sup.id r) h.tidy)
  case h_10 admitted gone released now hact hph =>
    split at hmove
    · rename_i hsound
      obtain rfl := Option.some.inj hmove
      refine (touches_tryStart admitted released now
        (h.safe_reap hsound (some sup.id) released now)).mono fun i hi => ?_
      exact hi.imp_left fun hi => .inl ⟨sup, ⟨hread, halive, by simp [hph]⟩, hi.symm⟩
    · exact absurd hmove (by simp)
  case h_11 fault g hact hph hg =>
    obtain rfl := Option.some.inj hmove
    exact hown (by simp [hph]) (touches_withdrawQueued fault)
  case h_13 now rec hact hph =>
    obtain rfl := Option.some.inj hmove
    have hphase := (h.owned _ _ ⟨hread, halive, by simp [hph]⟩).phase
    rw [hph] at hphase
    obtain ⟨hrid, hr, e, hpe⟩ := hphase
    refine hown (by simp [hph]) (safe_restoreLocked (X := (· = sup.id)) (K := fun _ => False)
      h.tidy hrid ?_ (hrid ▸ hr)).touches
    rw [hrid, hpe]
    simp
  case h_14 hact hph =>
    obtain rfl := Option.some.inj hmove
    exact hown (by simp [hph])
      (safe_dequeueSync (X := (· = sup.id)) (K := fun _ => False) h.tidy rfl).touches
  case h_15 hact hph =>
    obtain rfl := Option.some.inj hmove
    exact hown (by simp [hph]) (.cons (fun i hi => (Option.some.inj hi).symm) .nil)
  case h_16 r logged g hact hph hg =>
    obtain rfl := Option.some.inj hmove
    exact hown (by simp [hph]) (touches_publishTerminal (rowWriter_leaving sup.id r logged) h.tidy)
  case h_17 r logged g hact hph hg =>
    obtain rfl := Option.some.inj hmove
    exact hown (by simp [hph]) (ReleaseOp.touches (releaseOp_finalize sup.id g r w.fs))
  case h_18 | h_19 | h_20 | h_22 | h_25 =>
    obtain rfl := Option.some.inj hmove
    exact .nil
  case h_21 op ops hact hph =>
    obtain rfl := Option.some.inj hmove
    have hphase := (h.owned _ _ ⟨hread, halive, by simp [hph]⟩).phase
    rw [hph] at hphase
    refine hown (by simp [hph]) (ReleaseOp.touches fun o ho => ?_)
    rw [List.mem_singleton.1 ho]
    exact hphase.2.2.release op (List.mem_cons_self ..)
  case h_23 hact hph =>
    obtain rfl := Option.some.inj hmove
    exact hown (by simp [hph])
      (safe_clearTicketMarkers (X := (· = sup.id)) (K := fun _ => False) h.tidy rfl).touches
  case h_24 hact =>
    obtain rfl := Option.some.inj hmove
    exact .of_about_none (by simp [Move.single, FileOp.about])
  case h_26 => exact absurd hmove (by simp)

/-- **No step of a submission touches the files of another's ticket.** -/
theorem touches_move (h : Inv w) (hread : w.sups.read l.actor = some sup)
    (hmove : move w l = some m) : Touches (fun i => w.Has l i ∨ w.Unowned i) m.journal := by
  have hfresh : w.fresh l.actor = false := by simp [World.fresh, hread]
  have hany : anyMove w l = some m → Touches (fun i => w.Has l i ∨ w.Unowned i) m.journal := by
    intro hmove
    unfold anyMove at hmove
    simp only [hfresh, Bool.false_and, Bool.false_eq_true, if_false] at hmove
    split at hmove
    case h_5 keep gone released now hact =>
      split_ifs at hmove with hsound
      obtain rfl := Option.some.inj hmove
      exact (h.safe_reap hsound keep released now).touches.mono fun i hi => .inr hi
    case h_6 gone hact =>
      split_ifs at hmove with hsound
      obtain rfl := Option.some.inj hmove
      exact (h.safe_reapQueue hsound).touches.mono fun i hi => .inr hi
    case h_7 b hact =>
      obtain rfl := Option.some.inj hmove
      exact .of_about_none (by simp [Move.single, FileOp.about])
    all_goals exact absurd hmove (by simp)
  unfold move at hmove
  rw [hread] at hmove
  dsimp only at hmove
  split_ifs at hmove with halive
  rcases hsup : supMove w l sup with _ | m'
  · rw [hsup] at hmove
    exact hany hmove
  · rw [hsup] at hmove
    obtain rfl := Option.some.inj hmove
    exact touches_supMove h hread halive hsup

end Steps

end LaneBroker
