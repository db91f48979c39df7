/-
# Every step keeps the broker's invariant

One lemma for each step of a supervisor, of `lane cancel` or a reconciliation, and of a process
that reaps: its journal is safe and the process's new memory agrees with the files (`StepOk`).
The lemmas about a supervisor's own ticket all say the same three things: no other live
supervisor has the ticket, every record of it still names this one, and what the phase claims of
the parked file, the lease and the result holds of the files the section left.
-/

import LaneBroker.Broker.Recovery

namespace LaneBroker

open LaneBroker.Basis

/-! ### The steps of a supervisor -/

section SupSteps

variable {w : World} {l : Label} {m : Move} {sup : Supervisor} {K : TicketId → Prop}

/-- A claimed ticket that is parked has no result yet, unless its supervisor is done with it. -/
theorem PhaseOk.parked_result {id : TicketId} {v : TicketFiles} {ph : SupPhase}
    (h : PhaseOk id v ph) (hs : ph ≠ .submitted) (hd : ph ≠ .settled) (hp : v.parked ≠ []) :
    v.result = none := by
  cases ph <;> simp only [PhaseOk] at h <;> try contradiction
  case withdrawn r => exact h.2.1
  case returning r => exact h.2.1
  case queued => exact absurd h.1 hp
  all_goals exact absurd h.2.1 hp

/-- The write of a claimed ticket's own attempt record. -/
theorem Inv.safe_ownAttempt (h : Inv w) (hc : w.Claimed l.actor sup) (hd : sup.phase ≠ .settled)
    (a : Attempt) :
    SafeSection (· = sup.id) K [.writeAttempt sup.id a] w.fs := by
  refine .cons (h.tidy.safeOp ?_ (by simp) (by simp)) (.nil (h.tidy.writeAttempt fun hp hr => ?_))
  · rintro i ⟨rfl⟩
    rfl
  · exact absurd ((h.owned _ _ hc).phase.parked_result hc.2.2 hd hp) hr

theorem World.Claimed.eq {p : Proc} {sup sup' : Supervisor} (h : w.Claimed p sup)
    (h' : w.Claimed p sup') : sup = sup' := Option.some.inj (h.1.symm.trans h'.1)

/-- The step of a section that at most writes the ticket's own attempt record, of the
generation `g`. -/
theorem Inv.ownAttempt (h : Inv w) (hc : w.Claimed l.actor sup) (hd : sup.phase ≠ .settled)
    {g : ℕ} (hg : ∀ a, (filesFor w.fs sup.id).attempt = some a → m.journal = [] → a.generation = g)
    (hj : m.journal = [] ∨ ∃ a, a.supervisor = l.actor ∧ a.generation = g ∧
      m.journal = [.writeAttempt sup.id a]) :
    MoveOk w l m ∧ ∀ sup' : Supervisor, sup'.id = sup.id → sup'.generation = some g →
      PhaseOk sup.id (filesFor w.fs sup.id) sup'.phase →
        Owned l.actor sup' (filesFor (m.files w).fs sup'.id) := by
  have hown := h.owned _ _ hc
  rcases hj with hj | ⟨a, ha, hag, hj⟩
  · have hfs : (m.files w).fs = w.fs := by rw [Move.files, hj]; rfl
    rw [hfs]
    refine ⟨h.moveOk hc (K := fun _ => False) (hj ▸ .nil h.tidy) fun _ hf => hf.elim,
      fun sup' hid hgen hph => ?_⟩
    rw [← hid] at hown hg hph
    refine ⟨hown.names, hph, fun g' b hg' hb => ?_⟩
    rw [hgen] at hg'
    exact (hg b hb hj).trans (Option.some.inj hg')
  · have hfs : (m.files w).fs = (FileOp.writeAttempt sup.id a).apply w.fs := by
      rw [Move.files, hj]
      rfl
    rw [hfs]
    refine ⟨h.moveOk hc (K := fun _ => False) (hj ▸ h.safe_ownAttempt hc hd a)
      fun _ hf => hf.elim, fun sup' hid hgen hph => ?_⟩
    rw [hid]
    refine ⟨hown.names.apply fun _ q hq => ?_, ?_, fun g' b hg' hb => ?_⟩
    · rw [← ha]
      exact (Option.some.inj hq).symm
    · rw [hid, filesFor_writeAttempt]
      exact hph.congr (fun hq => hq) rfl rfl rfl
    · rw [filesFor_writeAttempt] at hb
      obtain rfl := Option.some.inj hb
      rw [hgen] at hg'
      exact hag.trans (Option.some.inj hg')

/-- What a fenced patch does to the ticket's own record: it names the same supervisor, at the same
generation. -/
theorem Inv.updateAttempt_step {g : ℕ} (patch : Attempt → Attempt) {k : Bool → World → World}
    (h : Inv w) (hc : w.Claimed l.actor sup) (hd : sup.phase ≠ .settled)
    (hg : sup.generation = some g)
    (hpatch : ∀ a, (patch a).supervisor = a.supervisor ∧ (patch a).generation = a.generation) :
    MoveOk w l (w.inSection (updateAttempt sup.id g patch) k) ∧
      ∀ sup' : Supervisor, sup'.id = sup.id → sup'.generation = some g →
        PhaseOk sup.id (filesFor w.fs sup.id) sup'.phase →
          Owned l.actor sup'
            (filesFor ((w.inSection (updateAttempt sup.id g patch) k).files w).fs sup'.id) := by
  have hown := h.owned _ _ hc
  refine h.ownAttempt hc hd (fun a ha _ => hown.generation g a hg ha) ?_
  rcases journal_updateAttempt_cases sup.id g patch w.fs with hj | ⟨a, ha, hag, hj⟩
  · exact .inl hj
  · refine .inr ⟨patch a, ?_, (hpatch a).2.trans hag, hj⟩
    rw [(hpatch a).1]
    exact hown.names.attempt a ha

/-- **A patch of the own attempt record**, of the generation that was read. -/
theorem stepOk_updateAttempt {g : ℕ} (h : Inv w) (hc : w.Claimed l.actor sup)
    (hd : sup.phase ≠ .settled) (hg : sup.generation = some g) (patch : AttemptPatch) :
    StepOk w l (w.inSection (updateAttempt sup.id g patch.apply) fun _ w => w) := by
  obtain ⟨hm, howned⟩ := Inv.updateAttempt_step patch.apply (k := fun _ w => w) h hc hd hg
    fun _ => ⟨rfl, rfl⟩
  refine .stay h hm rfl fun sup' hc' => ?_
  obtain rfl := hc.eq hc'
  exact howned sup rfl hg (h.owned _ _ hc).phase

/-- The record says local again before the queue file comes back. -/
theorem stepOk_abandonRebind {r : QueueRecord} {g : ℕ} (h : Inv w)
    (hc : w.Claimed l.actor sup) (hd : sup.phase = .withdrawn r) (hg : sup.generation = some g)
    {patch : Attempt → Attempt}
    (hpatch : ∀ a, (patch a).supervisor = a.supervisor ∧ (patch a).generation = a.generation) :
    StepOk w l (w.inSection (updateAttempt sup.id g patch)
      fun _ w => toPhase l.actor sup (.returning r) w) := by
  have hph := (h.owned _ _ hc).phase
  rw [hd] at hph
  obtain ⟨hm, howned⟩ := Inv.updateAttempt_step patch
    (k := fun _ w => toPhase l.actor sup (.returning r) w) h hc (by simp [hd]) hg hpatch
  exact .set _ h hm rfl (.inl ⟨sup, hc, rfl, by simp [hd, SupPhase.Left]⟩)
    (howned { sup with phase := .returning r } rfl hg hph)

/-- **`fallbackToLocal`**: the record turns local under a new generation, and the supervisor with
it; without a record it exits. -/
theorem stepOk_fallbackToLocal {g : ℕ} (h : Inv w) (hc : w.Claimed l.actor sup)
    (hd : sup.phase = .attempting) (hg : sup.generation = some g) (reason : String)
    (k : Fallback → World → World)
    (hok : ∀ a w', k (.ok a) w' =
      w'.setSup l.actor { sup with phase := .fallen, generation := some a.generation })
    (hcancelled : ∀ w', k .cancelled w' = w') (hmissing : ∀ w', k .missing w' = w'.kill l.actor) :
    StepOk w l (w.inSection (fallbackToLocal sup.id reason) k) := by
  have hown := h.owned _ _ hc
  have hph := hown.phase
  rw [hd] at hph
  rcases fallbackToLocal_cases sup.id reason w.fs with ⟨a, ha, hv, hj⟩ | ⟨hv, hj⟩
  · have hsup : (a.fallBack reason).supervisor = l.actor := hown.names.attempt a ha
    have hj' : (w.inSection (fallbackToLocal sup.id reason) k).journal ≠ [] := by
      simp [World.inSection, hj]
    obtain ⟨hm, howned⟩ := h.ownAttempt (m := w.inSection (fallbackToLocal sup.id reason) k) hc
      (by simp [hd]) (fun _ _ hnil => absurd hnil hj') (.inr ⟨_, hsup, rfl, hj⟩)
    refine .set { sup with phase := .fallen, generation := some (a.fallBack reason).generation }
      h hm ?_ (.inl ⟨sup, hc, rfl, by simp [hd, SupPhase.Left]⟩) (howned _ rfl rfl hph)
    simp only [World.inSection, hv, hok]
  · obtain ⟨hm, howned⟩ := h.ownAttempt (m := w.inSection (fallbackToLocal sup.id reason) k) hc
      (by simp [hd]) (fun a ha _ => hown.generation g a hg ha) (.inl hj)
    rcases hv with hv | hv
    · refine .stay h hm (by simp only [World.inSection, hv, hcancelled]) fun sup' hc' => ?_
      obtain rfl := hc.eq hc'
      exact howned sup rfl hg hown.phase
    · exact .exit h hm (by simp only [World.inSection, hv, hmissing])

/-- A supervisor takes an id: it has it already and is not done with it, or nobody has. -/
def World.MayTake (w : World) (p : Proc) (id : TicketId) : Prop :=
  (∃ sup, w.Claimed p sup ∧ sup.id = id ∧ ¬ sup.phase.Left) ∨ w.Alone id

/-- Whoever takes the ticket was its supervisor before, or there is none. -/
theorem World.MayTake.claim {p : Proc} {id : TicketId} (h : w.MayTake p id)
    (sup' : Supervisor) (hid : sup'.id = id) :
    (∃ sup, w.Claimed p sup ∧ sup.id = sup'.id ∧ (sup.phase.Left → sup'.phase.Left)) ∨
      w.Alone sup'.id := by
  subst hid
  exact h.imp_left fun ⟨sup, hc, hid, hleft⟩ => ⟨sup, hc, hid, fun hl => absurd hl hleft⟩

/-- A section about an id its process may take. -/
theorem World.MayTake.moveOk {id : TicketId} (hmay : w.MayTake l.actor id) (h : Inv w)
    (hs : SafeSection (· = id) (fun _ => False) m.journal w.fs) : MoveOk w l m := by
  rcases hmay with ⟨sup, hc, rfl, -⟩ | halone
  · exact h.moveOk hc hs fun _ hf => hf.elim
  · exact .of_unowned (X := (· = id)) (fun i hi => hi ▸ halone.1) hs

/-- **The ownership check and what follows it**: the ticket is taken, or it is another one's and
the process ends, or a migration refuses the intake and the process publishes that. -/
theorem stepOk_intake {f : Section Intake} {g : Option ℕ} {taken : Supervisor}
    (refusal : TicketResult) (h : Inv w) (hid : taken.id = sup.id) (hg : sup.generation = g)
    (hmay : existingTicket w.fs sup.id g = none → w.MayTake l.actor sup.id)
    (hnames : existingTicket w.fs sup.id g = none → Names l.actor (filesFor w.fs sup.id))
    (hf : (f.value w.fs = .taken ∧ existingTicket w.fs sup.id g = none ∧
        SafeSection (· = sup.id) (fun _ => False) (f.journal w.fs) w.fs ∧
        Owned l.actor taken (filesFor (applyAll (f.journal w.fs) w.fs) sup.id)) ∨
      f.value w.fs ≠ .taken ∧ f.journal w.fs = [] ∧
        (f.value w.fs = .migrating → existingTicket w.fs sup.id g = none)) :
    StepOk w l (w.inSection f (afterIntake l.actor sup taken refusal)) := by
  rcases hf with ⟨hv, he, hs, hown⟩ | ⟨hv, hj, he⟩
  · refine .set taken h ((hmay he).moveOk h hs) (by simp only [World.inSection, hv, afterIntake])
      ((hmay he).claim taken hid) ?_
    rw [hid]
    exact hown
  · have hs : SafeSection (fun _ => False) (fun _ => False) (f.journal w.fs) w.fs :=
      hj ▸ .nil h.tidy
    have hm : MoveOk w l (w.inSection f (afterIntake l.actor sup taken refusal)) :=
      .of_unowned (fun _ hf => hf.elim) hs
    have hfs : ((w.inSection f (afterIntake l.actor sup taken refusal)).files w).fs = w.fs := by
      rw [Move.files, World.inSection, hj]
      rfl
    cases hval : f.value w.fs with
    | taken => exact absurd hval hv
    | existing e => exact .exit h hm (by simp only [World.inSection, hval, afterIntake])
    | migrating =>
      have hnone := he hval
      obtain ⟨hq, hp, -, hr, ha⟩ := existingTicket_eq_none hnone
      have hgen : ∀ g' a, sup.generation = some g' → (filesFor w.fs sup.id).attempt = some a →
          a.generation = g' := by
        intro g' a hg' h
        rw [← hg, hg'] at ha
        exact (Option.some.inj (ha a h)).symm
      cases hsome : sup.generation.isSome with
      | true =>
        refine .set { sup with phase := .leaving } h hm
          (by simp only [World.inSection, hval, afterIntake, hsome]; rfl)
          ((hmay hnone).claim _ rfl) ?_
        rw [hfs]
        exact ⟨hnames hnone, ⟨hq, hp, hr⟩, hgen⟩
      | false =>
        refine .set { sup with phase := .closing [.writeResult sup.id refusal] } h hm
          (by simp only [World.inSection, hval, afterIntake, hsome]; rfl)
          ((hmay hnone).claim _ rfl) ?_
        rw [hfs]
        exact ⟨hnames hnone, ⟨hq, hp, by simp [ReleaseOp], by simp, fun _ _ _ => hr⟩, hgen⟩

/-- **A remote ticket is taken**: nobody claims it yet, and the new record names this process. -/
theorem stepOk_createAttempt {taken : Supervisor} (now : ℕ) (refusal : TicketResult) (h : Inv w)
    (hg : sup.generation = none) (hid : taken.id = sup.id) (hph : taken.phase = .attempting)
    (htaken : taken.generation = some 0)
    (halone : existingTicket w.fs sup.id none = none → w.Alone sup.id) :
    StepOk w l (w.inSection (createAttempt sup.id l.actor now)
      (afterIntake l.actor sup taken refusal)) := by
  have hnone : ∀ {v : TicketFiles}, v.queued = [] → v.parked = [] → v.lease = none →
      (∀ a, v.attempt = some a → a.supervisor = l.actor) → Names l.actor v :=
    fun hq hp hl ha => ⟨by simp [hq, hp], by simp [hl], ha⟩
  refine stepOk_intake refusal h hid hg (fun he => .inr (halone he)) (fun he => ?_) ?_
  · obtain ⟨hq, hp, hl, -, ha⟩ := existingTicket_eq_none he
    exact hnone hq hp hl fun a h => absurd (ha a h) (by simp)
  · rcases createAttempt_cases sup.id l.actor now w.fs with ⟨hv, he, hj⟩ | hrefused
    · obtain ⟨hq, hp, hl, hr, -⟩ := existingTicket_eq_none he
      refine .inl ⟨hv, he, ?_, ?_⟩
      · rw [hj]
        refine .cons (h.tidy.safeOp ?_ (by simp) (by simp))
          (.nil (h.tidy.writeAttempt fun hne => absurd hp hne))
        rintro i ⟨rfl⟩
        rfl
      · have hfiles : filesFor (applyAll ((createAttempt sup.id l.actor now).journal w.fs) w.fs)
            sup.id = { filesFor w.fs sup.id with attempt := some (newAttempt l.actor now) } := by
          rw [hj]
          exact filesFor_writeAttempt ..
        rw [hfiles]
        refine ⟨hnone hq hp hl ?_, ?_, ?_⟩
        · rintro a ⟨rfl⟩
          rfl
        · rw [hph]
          exact ⟨hq, hp, hl, hr⟩
        · rintro g a hg ⟨rfl⟩
          rw [htaken] at hg
          exact Option.some.inj hg
    · exact .inr hrefused

/-- The files of a ticket that was just enqueued. -/
theorem filesFor_enqueued {s : Broker} {id : TicketId} {r : QueueRecord} {marks : List FileOp}
    (hq : (filesFor s id).queued = []) (hmarks : ∀ op ∈ marks, FileOp.about op = none) :
    filesFor (applyAll (.bumpSeq id :: .writeQueue ⟨s.seqCounter + 1, id⟩ r :: marks) s) id =
      { filesFor s id with
        queued := [(⟨s.seqCounter + 1, id⟩, r)]
        seq := some (s.seqCounter + 1) } := by
  rw [applyAll_cons, applyAll_cons,
    filesFor_applyAll_of_ne fun op hop => by rw [hmarks op hop]; simp]
  change filesFor ((FileOp.writeQueue ⟨s.seqCounter + 1, id⟩ r).apply
    ((FileOp.bumpSeq id).apply s)) (QueueName.mk (s.seqCounter + 1) id).id = _
  rw [filesFor_writeQueue, filesFor_bumpSeq]
  simp [hq]

/-- A queue file for a ticket that has none, under the next number. -/
theorem safe_enqueued {s : Broker} {id : TicketId} {p : Proc} {now : ℕ} {marks : List FileOp}
    {g : Option ℕ} (h : AllTidy s) (he : existingTicket s id g = none)
    (hmarks : ∀ op ∈ marks, FileOp.about op = none) :
    SafeSection (· = id) K (.bumpSeq id :: .writeQueue ⟨s.seqCounter + 1, id⟩
      (enqueuedRecord s id p now) :: marks) s := by
  obtain ⟨hq, hp, hl, hr, -⟩ := existingTicket_eq_none he
  have hb : AllTidy ((FileOp.bumpSeq id).apply s) := h.bumpSeq hq hp
  have hfiles := filesFor_bumpSeq id s
  have hw : AllTidy ((FileOp.writeQueue ⟨s.seqCounter + 1, id⟩
      (enqueuedRecord s id p now)).apply ((FileOp.bumpSeq id).apply s)) := by
    refine hb.writeQueue (n := ⟨s.seqCounter + 1, id⟩) ?_ ?_ ?_ ⟨rfl, rfl, ?_⟩ <;> rw [hfiles]
    exacts [hq, hp, hl]
  have habout : ∀ i, some id = some i → i = id := by
    rintro i ⟨rfl⟩
    rfl
  refine .cons (h.safeOp habout (by simp) (by simp)) (.cons ?_ (.of_about_none hw hmarks))
  refine { tidy := .inl hb, requeue := ?_, about := habout, park := by simp }
  rintro n ⟨rfl⟩
  rw [hfiles]
  exact ⟨hr, rfl⟩

/-- **A ticket is queued**, new or fallen back: the queue file names this process. -/
theorem stepOk_enqueue {taken : Supervisor} {g : Option ℕ} (now : ℕ)
    (losers : List (TicketId × TicketId)) (refusal : TicketResult) (h : Inv w)
    (hg : sup.generation = g) (hid : taken.id = sup.id) (hph : taken.phase = .queued)
    (htaken : taken.generation = g)
    (hmay : existingTicket w.fs sup.id g = none → w.MayTake l.actor sup.id)
    (hattempt : existingTicket w.fs sup.id g = none →
      ∀ a, (filesFor w.fs sup.id).attempt = some a → a.supervisor = l.actor) :
    StepOk w l (w.inSection (enqueue sup.id l.actor now g losers)
      (afterIntake l.actor sup taken refusal)) := by
  refine stepOk_intake refusal h hid hg hmay (fun he => ?_) ?_
  · obtain ⟨hq, hp, hl, -, -⟩ := existingTicket_eq_none he
    exact ⟨by simp [hq, hp], by simp [hl], hattempt he⟩
  · rcases enqueue_cases sup.id l.actor now g losers w.fs with
      ⟨hv, he, marks, hmarks, hj⟩ | hrefused
    · obtain ⟨hq, hp, hl, hr, ha⟩ := existingTicket_eq_none he
      refine .inl ⟨hv, he, hj ▸ safe_enqueued h.tidy he fun op hop =>
        (hmarks op hop).1, ?_⟩
      rw [hj, filesFor_enqueued hq fun op hop => (hmarks op hop).1]
      refine ⟨⟨?_, by simp [hl], hattempt he⟩, ?_, ?_⟩
      · simp [hp, enqueuedRecord]
      · rw [hph]
        exact ⟨hp, hl, hr⟩
      · intro g' a hg' hat
        rw [← htaken, hg'] at ha
        exact (Option.some.inj (ha a hat)).symm
    · exact .inr hrefused

/-! #### Publishing -/

theorem rowWriter_row (id : TicketId) (r : TicketResult) (e : Option String) :
    RowWriter id fun _ => writeResultRow id r e := fun _ _ =>
  ⟨r, some ⟨id, r.exit, r.cancelled, e⟩, by simp, rfl⟩

/-- The verdict of a runner, or that it was cancelled. -/
theorem rowWriter_verdict (id : TicketId) (r : TicketResult) :
    RowWriter id (verdictWriter id r) := fun c s => by
  cases c
  · exact rowWriter_row id r none false s
  · exact rowWriter_row id remoteCancelledResult none true s

/-- The result of a supervisor that leaves, with its row or without. -/
theorem rowWriter_leaving (id : TicketId) (r : TicketResult) (logged : Bool) :
    RowWriter id (leavingWriter id r logged) := fun c s => by
  cases logged
  · exact ⟨r, none, by simp, rfl⟩
  · exact rowWriter_row id r none c s

theorem rowWriter_cancelLease (id : TicketId) (e : Executor) :
    RowWriter id (cancelLeaseWriter id e) := fun _ _ => ⟨_, some _, by simp, rfl⟩

/-- A publish names no process. -/
theorem named_of_rowWriter {id : TicketId} {wr : Bool → Section Unit} {g : ℕ}
    {expect : Broker → Attempt → Bool} {s : Broker} (hw : RowWriter id wr) :
    ∀ op ∈ (publishTerminal id g expect wr).journal s, op.named = none := by
  intro op hop
  rcases journal_publishTerminal_cases id g expect wr s with hj | ⟨a, c, -, -, -, -, hj⟩
  · simp [hj] at hop
  · obtain ⟨r, rows, -, hwj⟩ := hw c s
    rw [hj, hwj, List.cons_append, List.mem_cons, List.mem_append, List.mem_map,
      List.mem_singleton] at hop
    rcases hop with rfl | ⟨row, -, rfl⟩ | rfl <;> rfl

/-- A supervisor's section after which it is done with its ticket. -/
theorem StepOk.settle (h : Inv w) (hc : w.Claimed l.actor sup)
    (hs : SafeSection (· = sup.id) (fun _ => False) m.journal w.fs)
    (hnamed : ∀ op ∈ m.journal, op.named = none)
    (hrem : m.remember (m.files w) = toPhase l.actor sup .settled (m.files w)) :
    StepOk w l m :=
  .set { sup with phase := .settled } h (h.moveOk hc hs fun _ hf => hf.elim) hrem
    (.inl ⟨sup, hc, rfl, fun _ => trivial⟩)
    ⟨(h.owned _ _ hc).names.applyAll fun op hop _ q hq => by
      rw [hnamed op hop] at hq
      exact absurd hq (by simp), trivial, (h.owned _ _ hc).generation_applyAll hnamed⟩

/-- **A verdict is published**, and the supervisor settles; where it is not, it exits. -/
theorem stepOk_publishRemote (h : Inv w) (hc : w.Claimed l.actor sup) (g : ℕ)
    (r : TicketResult) {k : Publication → World → World}
    (hpub : ∀ b w', k (.published b) w' = toPhase l.actor sup .settled w')
    (hexit : ∀ v w', (∀ b, v ≠ .published b) → k v w' = w'.kill l.actor) :
    StepOk w l
      (w.inSection (publishTerminal sup.id g expectAny (verdictWriter sup.id r)) k) := by
  have hw := rowWriter_verdict sup.id r
  have hs : SafeSection (· = sup.id) (fun _ => False)
      ((publishTerminal sup.id g expectAny (verdictWriter sup.id r)).journal w.fs) w.fs :=
    hw.safe h.tidy fun _ _ _ => rfl
  cases hv : (publishTerminal sup.id g expectAny (verdictWriter sup.id r)).value w.fs with
  | published b =>
    exact .settle h hc hs (named_of_rowWriter hw) (by simp only [World.inSection, hv, hpub])
  | alreadyPublished | stale | refused =>
    refine .exit h (h.moveOk hc hs fun _ hf => hf.elim) ?_
    simp only [World.inSection, hv]
    exact hexit _ _ (by simp)

/-- A supervisor with no lease publishes and settles. -/
theorem stepOk_publishLeaving (h : Inv w) (hc : w.Claimed l.actor sup) (g : ℕ)
    (r : TicketResult) (logged : Bool) :
    StepOk w l (w.inSection
      (publishTerminal sup.id g expectAny (leavingWriter sup.id r logged))
      fun _ w => toPhase l.actor sup .settled w) :=
  .settle h hc ((rowWriter_leaving sup.id r logged).safe h.tidy fun _ _ _ => rfl)
    (named_of_rowWriter (rowWriter_leaving sup.id r logged)) rfl

theorem journal_finalizeWriter (id : TicketId) (r : TicketResult) (c : Bool) (s : Broker) :
    ∀ op ∈ (finalizeWriter id r c).journal s, ReleaseOp id op := by
  intro op hop
  have hj : (finalizeWriter id r c).journal s =
      [.writeResult id r, .appendHistory ⟨id, r.exit, r.cancelled, none⟩, .unlinkLease id] ++
        (clearTicketMarkers id).journal (applyAll [FileOp.writeResult id r,
          .appendHistory ⟨id, r.exit, r.cancelled, none⟩, .unlinkLease id] s) := rfl
  rw [hj, journal_clearTicketMarkers, journal_discardRebinding] at hop
  simp only [List.mem_append, List.mem_cons, List.not_mem_nil, or_false, Option.mem_toList,
    Option.map_eq_some_iff] at hop
  rcases hop with (rfl | rfl | rfl) | ⟨e, he, rfl⟩ | rfl | rfl
  · rfl
  · trivial
  · rfl
  · exact id_of_mem_files he
  · trivial
  · trivial

/-- The end of a started ticket is a result, a row and the release. -/
theorem releaseOp_finalize (id : TicketId) (g : ℕ) (r : TicketResult) (s : Broker) :
    ∀ op ∈ (publishTerminal id g expectAny (finalizeWriter id r)).journal s, ReleaseOp id op := by
  intro op hop
  rcases journal_publishTerminal_cases id g expectAny (finalizeWriter id r) s with
    hj | ⟨a, c, -, -, -, -, hj⟩
  · simp [hj] at hop
  · rw [hj, List.mem_append, List.mem_singleton] at hop
    rcases hop with hop | rfl
    · exact journal_finalizeWriter _ _ _ _ op hop
    · rfl

theorem ReleaseOp.named {id : TicketId} {op : FileOp} (h : ReleaseOp id op) :
    op.named = none := by
  cases op <;> first | rfl | exact h.elim

/-- A release leaves a ticket that is neither queued nor parked so. -/
theorem ReleaseOp.files {id : TicketId} {ops : List FileOp} {s : Broker}
    (hops : ∀ op ∈ ops, ReleaseOp id op) (hq : (filesFor s id).queued = [])
    (hp : (filesFor s id).parked = []) :
    (filesFor (applyAll ops s) id).queued = [] ∧ (filesFor (applyAll ops s) id).parked = [] := by
  refine ⟨?_, parked_applyAll_of_nil (fun _ hn => (hops _ hn).elim) hp⟩
  induction ops generalizing s with
  | nil => exact hq
  | cons op ops ih =>
    have hop := hops op (List.mem_cons_self ..)
    refine ih (fun o ho => hops o (List.mem_cons_of_mem _ ho)) ?_ (parked_apply_of_nil ?_ hp)
    · by_cases habout : op.about = some id
      · cases op <;> first | exact hop.elim | exact hq | skip
        case unlinkQueue n =>
          obtain rfl : n.id = id := hop
          change (filesFor ((FileOp.unlinkQueue n).apply s) n.id).queued = []
          rw [filesFor_unlinkQueue, hq]
          rfl
      · change (filesFor (op.apply s) id).queued = []
        rw [filesFor_apply_of_ne habout]
        exact hq
    · rintro n rfl
      exact hop.elim

/-- A supervisor's step that releases its ticket, and what it remembers then. -/
theorem StepOk.release (ph : SupPhase) (h : Inv w) (hc : w.Claimed l.actor sup)
    (hq : (filesFor w.fs sup.id).queued = []) (hp : (filesFor w.fs sup.id).parked = [])
    (hops : ∀ op ∈ m.journal, ReleaseOp sup.id op)
    (hrem : m.remember (m.files w) = toPhase l.actor sup ph (m.files w)) (hleft : ph.Left)
    (hph : (filesFor (m.files w).fs sup.id).queued = [] →
      (filesFor (m.files w).fs sup.id).parked = [] →
        PhaseOk sup.id (filesFor (m.files w).fs sup.id) ph) : StepOk w l m := by
  have hnamed : ∀ op ∈ m.journal, op.named = none := fun op hop => (hops op hop).named
  obtain ⟨hq', hp'⟩ := ReleaseOp.files hops hq hp
  refine .set { sup with phase := ph } h (h.moveOk hc (K := fun _ => False)
    (safe_releaseOps h.tidy rfl hp hops) fun _ hf => hf.elim) hrem
    (.inl ⟨sup, hc, rfl, fun _ => hleft⟩)
    ⟨(h.owned _ _ hc).names.applyAll fun op hop _ q hn => ?_, hph hq' hp',
      (h.owned _ _ hc).generation_applyAll hnamed⟩
  rw [hnamed op hop] at hn
  exact absurd hn (by simp)

/-- **The result of a started ticket**: it settles, or goes on to release its lease by hand. -/
theorem stepOk_finalize (h : Inv w) (hc : w.Claimed l.actor sup) (hd : sup.phase = .started)
    (g : ℕ) (r : TicketResult) {k : Publication → World → World}
    (hk : ∀ v, ∃ ph, (∀ w', k v w' = toPhase l.actor sup ph w') ∧
      (ph = .settled ∨ ∃ ops, ph = .closing ops ∧ (∀ op ∈ ops, ReleaseOp sup.id op) ∧
        (∀ i r, FileOp.writeResult i r ∉ ops.tail) ∧
        ((∃ i r, ops.head? = some (.writeResult i r)) → v = .refused))) :
    StepOk w l
      (w.inSection (publishTerminal sup.id g expectAny (finalizeWriter sup.id r)) k) := by
  have hph := (h.owned _ _ hc).phase
  rw [hd] at hph
  have hops : ∀ op ∈ (publishTerminal sup.id g expectAny (finalizeWriter sup.id r)).journal w.fs,
      ReleaseOp sup.id op := releaseOp_finalize sup.id g r w.fs
  obtain ⟨ph, hk, hcase⟩ := hk
    ((publishTerminal sup.id g expectAny (finalizeWriter sup.id r)).value w.fs)
  refine .release ph h hc hph.1 hph.2.1 hops (hk _) ?_ fun hq hp => ?_
  · rcases hcase with rfl | ⟨ops, rfl, -⟩ <;> trivial
  · rcases hcase with rfl | ⟨ops, rfl, hrel, honce, hfirst⟩
    · trivial
    · refine ⟨hq, hp, hrel, honce, fun i r' hhead => ?_⟩
      have hj := journal_publishTerminal_refused (hfirst ⟨i, r', hhead⟩)
      change (filesFor (applyAll (Locked.journal _ w.fs) w.fs) sup.id).result = none
      rw [hj]
      exact hph.2.2

/-- A supervisor begins to write a result of its own and to release. -/
theorem stepOk_closing {ops : List FileOp} (h : Inv w) (hc : w.Claimed l.actor sup)
    (hd : sup.phase = .leaving ∨ sup.phase = .started)
    (hops : ∀ op ∈ ops, ReleaseOp sup.id op) (honce : ∀ i r, FileOp.writeResult i r ∉ ops.tail) :
    StepOk w l (.silent (toPhase l.actor sup (.closing ops))) := by
  obtain ⟨hq, hp, hr⟩ : (filesFor w.fs sup.id).queued = [] ∧
      (filesFor w.fs sup.id).parked = [] ∧ (filesFor w.fs sup.id).result = none := by
    have hph := (h.owned _ _ hc).phase
    rcases hd with hd | hd <;> rw [hd] at hph <;> exact hph
  exact .release _ h hc hq hp (by simp [Move.silent]) rfl trivial fun hq hp =>
    ⟨hq, hp, hops, honce, fun _ _ _ => hr⟩

/-- What is left to be written after the first operation. -/
theorem ClosingOk.step {id : TicketId} {v v' : TicketFiles} {op : FileOp} {ops : List FileOp}
    (h : ClosingOk id v (op :: ops)) : ClosingOk id v' ops where
  release o ho := h.release o (List.mem_cons_of_mem _ ho)
  once i r hmem := h.once i r (List.mem_of_mem_tail hmem)
  first i r hhead := absurd (List.mem_of_head? hhead) (h.once i r)

/-- **One operation of the closing**: the result is the first of them, so no other comes behind it.
-/
theorem stepOk_closeStep {op : FileOp} {ops : List FileOp} (h : Inv w)
    (hc : w.Claimed l.actor sup) (hd : sup.phase = .closing (op :: ops)) :
    StepOk w l (.single op (toPhase l.actor sup (.closing ops))) := by
  have hph := (h.owned _ _ hc).phase
  rw [hd] at hph
  refine .release _ h hc hph.1 hph.2.1 (fun o ho => ?_) rfl trivial fun hq hp =>
    ⟨hq, hp, hph.2.2.step⟩
  rw [List.mem_singleton.1 ho]
  exact hph.2.2.release op (List.mem_cons_self ..)

theorem stepOk_closed (h : Inv w) (hc : w.Claimed l.actor sup) :
    StepOk w l (.silent (toPhase l.actor sup .settled)) :=
  .settle h hc (.nil h.tidy) (by simp [Move.silent]) rfl

/-- A lease that nothing ran under is given back. -/
theorem stepOk_releaseUnused (h : Inv w) (hc : w.Claimed l.actor sup)
    (hd : sup.phase = .started) :
    StepOk w l (.single (.unlinkLease sup.id) (toPhase l.actor sup .leaving)) := by
  have hph := (h.owned _ _ hc).phase
  rw [hd] at hph
  refine .release _ h hc hph.1 hph.2.1 (fun o ho => ?_) rfl trivial fun hq hp => ⟨hq, hp, ?_⟩
  · rw [List.mem_singleton.1 ho]
    rfl
  · change (filesFor ((FileOp.unlinkLease sup.id).apply w.fs) sup.id).result = none
    rw [filesFor_unlinkLease]
    exact hph.2.2

/-- The markers of a settled ticket go. -/
theorem stepOk_clearMarkers (h : Inv w) (hc : w.Claimed l.actor sup)
    (hd : sup.phase = .settled) :
    StepOk w l (w.inSection (clearTicketMarkers sup.id) fun _ w => w) := by
  have hs : SafeSection (· = sup.id) (fun _ => False)
      ((clearTicketMarkers sup.id).journal w.fs) w.fs := safe_clearTicketMarkers h.tidy rfl
  refine .stay h (h.moveOk hc hs fun _ hf => hf.elim) rfl fun sup' hc' => ?_
  obtain rfl := hc.eq hc'
  have hnamed : ∀ op ∈ (clearTicketMarkers sup.id).journal w.fs, op.named = none := by
    intro op hop
    rw [journal_clearTicketMarkers, journal_discardRebinding] at hop
    simp only [List.mem_append, List.mem_cons, List.not_mem_nil, or_false, Option.mem_toList,
      Option.map_eq_some_iff] at hop
    rcases hop with ⟨e, he, rfl⟩ | rfl | rfl <;> rfl
  refine ⟨(h.owned _ _ hc).names.applyAll fun op hop _ q hq => ?_, by rw [hd]; trivial,
    (h.owned _ _ hc).generation_applyAll hnamed⟩
  rw [hnamed op hop] at hq
  exact absurd hq (by simp)

/-! #### Reaping and the queue -/

/-- A liveness probe never finds the supervisor of a claimed ticket gone, so the tickets whose
records name a process it found gone have no live supervisor. -/
theorem Inv.heldAlive (h : Inv w) {gone : List Proc} (hsound : w.probeSound gone = true)
    {id : TicketId} (hid : ¬ w.Unowned id) : HeldAlive gone (filesFor w.fs id) := by
  unfold World.Unowned at hid
  push Not at hid
  obtain ⟨q, sq, hq, rfl⟩ := hid
  have halive : q ∉ gone := by
    intro hmem
    have := List.all_eq_true.1 hsound q hmem
    simp [World.supAlive, hq.1, hq.2.1] at this
  have hn := (h.owned q sq hq).names
  exact ⟨fun e he => (hn.files e he).symm ▸ halive, fun l hl => (hn.lease l hl).symm ▸ halive⟩

/-- A ticket whose only possible supervisor was found gone has none. -/
theorem World.unowned_of_gone {gone : List Proc} (hsound : w.probeSound gone = true)
    {id : TicketId} {p : Proc} (hp : p ∈ gone)
    (hclaim : ∀ q sq, w.Claimed q sq → sq.id = id → p = q) : w.Unowned id := by
  intro q sq hq hid
  obtain rfl := hclaim q sq hq hid
  have := List.all_eq_true.1 hsound p hp
  simp [World.supAlive, hq.1, hq.2.1] at this

/-- The reaping touches only tickets that no live supervisor has. -/
theorem Inv.safe_reap (h : Inv w) {gone : List Proc} (hsound : w.probeSound gone = true)
    (keep : Option TicketId) (released : List TicketId) (now : ℕ) :
    SafeSection w.Unowned (fun _ => False) ((reapStale keep gone released now).journal w.fs)
      w.fs :=
  safe_reapStale h.tidy (fun _ hid => h.heldAlive hsound hid) keep released now

/-- A step about tickets that no live supervisor has, after which nobody remembers anything
new. -/
theorem StepOk.reap (h : Inv w) (hs : SafeSection w.Unowned (fun _ => False) m.journal w.fs)
    (hrem : m.remember (m.files w) = m.files w) : StepOk w l m := by
  refine .stay h (.of_unowned (fun _ hi => hi) hs) hrem fun sup hc => ?_
  have hframe : filesFor (m.files w).fs sup.id = filesFor w.fs sup.id :=
    hs.frame fun hun => hun _ _ hc rfl
  rw [hframe]
  exact h.owned _ _ hc

/-- The queue files of a claimed queued ticket. -/
theorem Inv.queued_phase (h : Inv w) (hc : w.Claimed l.actor sup) (hd : sup.phase = .queued) :
    (filesFor w.fs sup.id).parked = [] ∧ (filesFor w.fs sup.id).lease = none ∧
      (filesFor w.fs sup.id).result = none := by
  have := (h.owned _ _ hc).phase
  rwa [hd] at this

theorem Tidy.queued_head {id : TicketId} {v : TicketFiles} (h : Tidy id v) :
    v.queued = v.queued.head?.toList := by
  rcases h.queued_cases with hq | ⟨e, hq, -⟩ <;> rw [hq] <;> rfl

/-- The files of a ticket that was just dequeued. -/
theorem filesFor_dequeued {s : Broker} (id : TicketId) (h : AllTidy s) :
    filesFor (applyAll ((dequeueSync id).journal s) s) id =
      { filesFor s id with queued := [] } := by
  rw [journal_dequeueSync]
  have hq := (h id).queued_head
  cases hhead : (filesFor s id).queued.head? with
  | none =>
    rw [hhead] at hq
    change filesFor s id = _
    conv_lhs => rw [show filesFor s id = { filesFor s id with queued := (filesFor s id).queued }
      from rfl, hq]
    rfl
  | some e =>
    obtain rfl : e.1.id = id := id_of_mem_files hhead
    rw [hhead] at hq
    change filesFor ((FileOp.unlinkQueue e.1).apply s) e.1.id = _
    rw [filesFor_unlinkQueue, hq]
    simp

/-- A ticket leaves the queue for good. -/
theorem stepOk_leaveQueue (h : Inv w) (hc : w.Claimed l.actor sup) (hd : sup.phase = .queued) :
    StepOk w l (w.inSection (dequeueSync sup.id) fun _ w => toPhase l.actor sup .leaving w) := by
  obtain ⟨hp, -, hr⟩ := h.queued_phase hc hd
  have hs : SafeSection (· = sup.id) (fun _ => False)
      ((dequeueSync sup.id).journal w.fs) w.fs := safe_dequeueSync h.tidy rfl
  have hown := h.owned _ _ hc
  refine .set { sup with phase := .leaving } h (h.moveOk hc hs fun _ hf => hf.elim) rfl
    (.inl ⟨sup, hc, rfl, fun _ => trivial⟩) ?_
  change Owned _ _ (filesFor (applyAll ((dequeueSync sup.id).journal w.fs) w.fs) sup.id)
  rw [filesFor_dequeued sup.id h.tidy]
  exact ⟨{ hown.names with files := fun e he => hown.names.files e (List.mem_append_right _ he) },
    ⟨rfl, hp, hr⟩, hown.generation⟩

/-- **A poll of `tryStart`**: the reaping leaves the polled ticket's files as they were, then the
ticket goes from its queue file to a lease, or stays queued. -/
theorem stepOk_tryStart {gone : List Proc} (h : Inv w) (hc : w.Claimed l.actor sup)
    (hd : sup.phase = .queued) (hsound : w.probeSound gone = true) (admitted : Bool)
    (released : List TicketId) (now : ℕ) {k : Poll → World → World}
    (hstarted : ∀ w', k .started w' = toPhase l.actor sup .started w')
    (hstay : ∀ v w', v ≠ .started → k v w' = w') :
    StepOk w l
      (w.inSection (tryStart sup.id l.actor admitted gone released now) k) := by
  have hreap := h.safe_reap hsound (some sup.id) released now
  have hframe : filesFor (applyAll ((reapStale (some sup.id) gone released now).journal w.fs) w.fs)
      sup.id = filesFor w.fs sup.id := hreap.frame fun hun => hun _ _ hc rfl
  rcases tryStart_cases sup.id l.actor admitted gone released now w.fs with
    ⟨hv, -, hj⟩ | ⟨hv, hj⟩
  · obtain ⟨hp, -, hr⟩ := h.queued_phase hc hd
    have hown := h.owned _ _ hc
    have hdeq : SafeSection (· = sup.id) (fun _ => False) ((dequeueSync sup.id).journal _)
        (applyAll ((reapStale (some sup.id) gone released now).journal w.fs) w.fs) :=
      safe_dequeueSync hreap.2 rfl
    have hfiles := filesFor_dequeued sup.id hreap.2
    rw [hframe] at hfiles
    have hlease : SafeSection (· = sup.id) (fun _ => False)
        ((dequeueSync sup.id).journal (applyAll ((reapStale (some sup.id) gone released
          now).journal w.fs) w.fs) ++ [.writeLease ⟨sup.id, l.actor, .running⟩])
        (applyAll ((reapStale (some sup.id) gone released now).journal w.fs) w.fs) := by
      refine hdeq.append (.cons (hdeq.2.safeOp ?_ (by simp) (by simp))
        (.nil (hdeq.2.writeLease ?_ ?_)))
      · rintro i ⟨rfl⟩
        rfl
      · rw [hfiles]
      · rw [hfiles]
        exact hp
    have hs : SafeSection (fun i => w.Unowned i ∨ i = sup.id) (fun _ => False)
        ((tryStart sup.id l.actor admitted gone released now).journal w.fs) w.fs := by
      rw [hj]
      exact (hreap.mono fun _ hi => .inl hi).append (hlease.mono fun _ hi => .inr hi)
    refine .set { sup with phase := .started } h
      (.of_safe (hs.mono fun i hi q sq hq hid => ?_) fun _ hf => hf.elim)
      (by simp only [World.inSection, hv, hstarted]; rfl)
      (.inl ⟨sup, hc, rfl, fun _ => trivial⟩) ?_
    · rcases hi with hi | rfl
      · exact absurd hid (hi q sq hq)
      · exact h.unique q l.actor sq sup hq hc hid
    · change Owned _ _ (filesFor (applyAll _ w.fs) sup.id)
      rw [World.inSection, hj, applyAll_append, applyAll_append]
      change Owned _ _ (filesFor ((FileOp.writeLease ⟨sup.id, l.actor, .running⟩).apply _)
        (Lease.mk sup.id l.actor .running).id)
      rw [filesFor_writeLease]
      dsimp only
      rw [hfiles]
      refine ⟨{ hown.names with
        files := fun e he => hown.names.files e (List.mem_append_right _ he)
        lease := ?_ }, ⟨rfl, hp, hr⟩, hown.generation⟩
      rintro lease ⟨rfl⟩
      rfl
  · refine .reap h ?_ (by simp only [World.inSection, hstay _ _ hv])
    rw [World.inSection, hj]
    exact hreap

/-- A withdrawal that is renamed back leaves the ticket's files as they were. -/
theorem filesFor_park_unpark {s : Broker} {n : QueueName} {r : QueueRecord}
    (hq : (filesFor s n.id).queued = [(n, r)]) (hp : (filesFor s n.id).parked = []) :
    filesFor ((FileOp.unpark n).apply ((FileOp.park n).apply s)) n.id = filesFor s n.id := by
  have hpark := filesFor_park hq hp
  rw [filesFor_unpark (r := r) (by rw [hpark]) (by rw [hpark]), hpark, ← hq, ← hp]

/-- What the withdrawal of a claimed queued ticket finds: its one queue file. -/
theorem Inv.queued_file (h : Inv w) {id : TicketId} {n : QueueName} {r : QueueRecord}
    (hhead : (filesFor w.fs id).queued.head? = some (n, r)) :
    n.id = id ∧ (filesFor w.fs n.id).queued = [(n, r)] := by
  obtain rfl : n.id = id := id_of_mem_files hhead
  have hq := (h.tidy n.id).queued_head
  rw [hhead] at hq
  exact ⟨rfl, hq⟩

/-- **The queue file is moved aside** in one rename: it is in one place before and after. -/
theorem safe_park (h : Inv w) {n : QueueName} {r : QueueRecord}
    (hq : (filesFor w.fs n.id).queued = [(n, r)]) (hr : (filesFor w.fs n.id).result = none) :
    SafeOp (· = n.id) (· = n.id) (.park n) w.fs ∧ AllTidy ((FileOp.park n).apply w.fs) := by
  refine ⟨{ h.tidy.guarded (by simp) with about := ?_, park := ?_ },
    h.tidy.park hq fun hne => absurd hr hne⟩
  · rintro i ⟨rfl⟩
    rfl
  · rintro m ⟨rfl⟩
    rfl

/-- **A withdrawal**: the queue file is parked, and comes back where the attempt record was not
written. -/
theorem stepOk_withdrawQueued (h : Inv w) (hc : w.Claimed l.actor sup)
    (hd : sup.phase = .queued) (fault : Option WithdrawFault) {k : Withdrawal → World → World}
    (hwithdrawn : ∀ r w', k (.withdrawn r) w' = toPhase l.actor sup (.withdrawn r) w')
    (hnot : ∀ w', k .notTaken w' = w') (hthrew : ∀ w', k .threw w' = w'.kill l.actor) :
    StepOk w l (w.inSection (withdrawQueued sup.id l.actor fault) k) := by
  obtain ⟨hp, hl, hr⟩ := h.queued_phase hc hd
  have hown := h.owned _ _ hc
  rcases withdrawQueued_cases sup.id l.actor fault w.fs with
    ⟨n, r, hv, hhead, hrid, hj⟩ | ⟨hv, hj⟩
  · obtain ⟨hid, hq⟩ := h.queued_file hhead
    rw [← hid] at hp hr
    obtain ⟨hpark, htidy⟩ := safe_park h hq hr
    have hs : SafeSection (· = sup.id) (· = sup.id)
        ((withdrawQueued sup.id l.actor fault).journal w.fs) w.fs := by
      rw [hj, ← hid]
      exact .cons hpark (safe_patchAttemptLocked htidy rfl fun a => rfl)
    have hfiles : filesFor (applyAll ((withdrawQueued sup.id l.actor fault).journal w.fs) w.fs)
        sup.id = { filesFor w.fs sup.id with
          queued := []
          parked := [(n, r)]
          attempt := (filesFor w.fs sup.id).attempt.map fun a =>
            { a with rebinding := some l.actor } } := by
      have hpf := filesFor_park hq hp
      rw [hid] at hpf
      rw [hj, applyAll_cons]
      change filesFor (applyAll _ ((FileOp.park n).apply w.fs)) sup.id = _
      rw [filesFor_patched, hpf]
    refine .set { sup with phase := .withdrawn r } h
      (h.moveOk hc hs fun i hi => ⟨hi, hd⟩)
      (by simp only [World.inSection, hv, hwithdrawn]; rfl)
      (.inl ⟨sup, hc, rfl, by simp [hd, SupPhase.Left]⟩) ?_
    change Owned _ _ (filesFor (applyAll ((withdrawQueued sup.id l.actor fault).journal w.fs)
      w.fs) sup.id)
    rw [hfiles]
    refine ⟨⟨?_, hown.names.lease, ?_⟩, ⟨hrid, hid ▸ hr, (n, r), rfl⟩, ?_⟩
    · intro e he
      obtain rfl : e = (n, r) := by simpa using he
      exact hown.names.files _ (List.mem_append_left _ (List.mem_of_head? hhead))
    · intro a ha
      obtain ⟨b, hb, rfl⟩ := Option.map_eq_some_iff.1 ha
      exact hown.names.attempt b hb
    · intro g a hg ha
      obtain ⟨b, hb, rfl⟩ := Option.map_eq_some_iff.1 ha
      exact hown.generation g b hg hb
  · have hkeep : SafeSection (· = sup.id) (· = sup.id)
        ((withdrawQueued sup.id l.actor fault).journal w.fs) w.fs ∧
        filesFor (applyAll ((withdrawQueued sup.id l.actor fault).journal w.fs) w.fs) sup.id =
          filesFor w.fs sup.id := by
      rcases hj with hj | ⟨n, r, hhead, hj⟩
      · rw [hj]
        exact ⟨.nil h.tidy, rfl⟩
      · obtain ⟨hid, hq⟩ := h.queued_file hhead
        rw [← hid] at hp hr
        obtain ⟨hpark, htidy⟩ := safe_park h hq hr
        have hpf := filesFor_park hq hp
        rw [hj, ← hid]
        refine ⟨.cons hpark (safe_unpark (r := r) htidy rfl (by rw [hpf]) ?_),
          filesFor_park_unpark hq hp⟩
        rw [hpf]
        exact hr
    have hm : MoveOk w l (w.inSection (withdrawQueued sup.id l.actor fault) k) :=
      h.moveOk hc hkeep.1 fun i hi => ⟨hi, hd⟩
    cases hval : (withdrawQueued sup.id l.actor fault).value w.fs with
    | withdrawn r => exact absurd hval (hv r)
    | notTaken =>
      refine .stay h hm (by simp only [World.inSection, hval, hnot]) fun sup' hc' => ?_
      obtain rfl := hc.eq hc'
      change Owned _ _ (filesFor (applyAll ((withdrawQueued sup.id l.actor fault).journal w.fs)
        w.fs) sup.id)
      rw [hkeep.2]
      exact hown
    | threw => exact .exit h hm (by simp only [World.inSection, hval, hthrew])

/-- **A parked ticket comes back to the queue.** -/
theorem stepOk_restoreQueued {r : QueueRecord} (h : Inv w) (hc : w.Claimed l.actor sup)
    (hd : sup.phase = .returning r) (now : ℕ) :
    StepOk w l (w.inSection (restoreLocked r now) fun _ w => toPhase l.actor sup .queued w) := by
  have hown := h.owned _ _ hc
  have hph := hown.phase
  rw [hd] at hph
  obtain ⟨hrid, hr, e, hpe⟩ := hph
  have hs : SafeSection (· = r.id) (fun _ => False) ((restoreLocked r now).journal w.fs) w.fs :=
    safe_restoreLocked h.tidy rfl (by rw [hrid, hpe]; simp) (hrid ▸ hr)
  have hfiles : filesFor (applyAll ((restoreLocked r now).journal w.fs) w.fs) sup.id =
      { filesFor w.fs sup.id with
        queued := [(e.1, { e.2 with localSince := now })]
        parked := []
        attempt := (filesFor w.fs sup.id).attempt.map fun a => { a with rebinding := none } } := by
    rw [← hrid] at hpe ⊢
    exact filesFor_restored now (h.tidy r.id) hpe
  refine .set { sup with phase := .queued } h (h.moveOk hc (hs.mono fun i hi => hi.trans hrid)
    fun _ hf => hf.elim) rfl (.inl ⟨sup, hc, rfl, by simp [hd, SupPhase.Left]⟩) ?_
  change Owned _ _ (filesFor (applyAll ((restoreLocked r now).journal w.fs) w.fs) sup.id)
  have hl : (filesFor w.fs sup.id).lease = none := by
    rcases (h.tidy sup.id).parked_cases with hnil | ⟨_, _, _, hl⟩
    · simp [hpe] at hnil
    · exact hl
  rw [hfiles]
  refine ⟨⟨?_, hown.names.lease, ?_⟩, ⟨rfl, hl, hr⟩, ?_⟩
  · intro f hf
    obtain rfl : f = (e.1, { e.2 with localSince := now }) := by simpa using hf
    exact hown.names.files e (List.mem_append_right _ (by simp [hpe]))
  · intro a ha
    obtain ⟨b, hb, rfl⟩ := Option.map_eq_some_iff.1 ha
    exact hown.names.attempt b hb
  · intro g a hg ha
    obtain ⟨b, hb, rfl⟩ := Option.map_eq_some_iff.1 ha
    exact hown.generation g b hg hb

theorem stepOk_signal (h : Inv w) :
    StepOk w l (.single (.writeCancelMarker sup.id) fun w => w) :=
  .reap h (.of_about_none h.tidy (by simp [Move.single, FileOp.about])) rfl

/-- A process dies, and what it claimed is nobody's. -/
theorem stepOk_die (h : Inv w) : StepOk w l (.silent fun w => w.kill l.actor) :=
  .exit h (.silent h _) rfl

end SupSteps

/-- **Every step of a supervisor keeps the invariant.** -/
theorem stepOk_supMove {w : World} {l : Label} {m : Move} {sup : Supervisor} (h : Inv w)
    (hread : w.sups.read l.actor = some sup) (halive : sup.alive = true)
    (hsafe : RecoverySafe w l) (hmove : supMove w l sup = some m) : StepOk w l m := by
  have hclaim : ∀ {ph}, sup.phase = ph → ph ≠ .submitted → w.Claimed l.actor sup :=
    fun hph hs => ⟨hread, halive, hph ▸ hs⟩
  have htakes : sup.phase = .submitted →
      ((∃ now r, l.act = .createAttempt now r) ∨ ∃ now ls r, l.act = .enqueue now ls r) →
      existingTicket w.fs sup.id none = none → w.Alone sup.id :=
    fun hph hact he => hsafe.submit _ ⟨sup, hread, rfl, hph, he, hact⟩
  unfold supMove at hmove
  dsimp only at hmove
  split at hmove
  case h_1 now refusal hact hph hg =>
    split at hmove
    · obtain rfl := Option.some.inj hmove
      exact stepOk_createAttempt now refusal h hg rfl rfl rfl (htakes hph (.inl ⟨now, refusal, hact⟩))
    · exact absurd hmove (by simp)
  case h_2 now losers refusal hact hph hg =>
    split at hmove
    · exact absurd hmove (by simp)
    · obtain rfl := Option.some.inj hmove
      refine stepOk_enqueue now losers refusal h hg rfl rfl hg
        (fun he => .inr (htakes hph (.inr ⟨now, losers, refusal, hact⟩) he)) fun he a ha => ?_
      exact absurd ((existingTicket_eq_none he).2.2.2.2 a ha) (by simp)
  case h_3 now losers refusal g hact hph hg =>
    obtain rfl := Option.some.inj hmove
    have hc := hclaim hph (by simp)
    exact stepOk_enqueue now losers refusal h hg rfl rfl hg
      (fun _ => .inl ⟨sup, hc, rfl, by simp [hph, SupPhase.Left]⟩)
      fun _ a ha => (h.owned _ _ hc).names.attempt a ha
  case h_4 patch g hact hph hg | h_5 patch r g hact hph hg =>
    obtain rfl := Option.some.inj hmove
    exact stepOk_updateAttempt h (hclaim hph (by simp)) (by simp [hph]) hg patch
  case h_6 reason g hact hph hg =>
    obtain rfl := Option.some.inj hmove
    exact stepOk_fallbackToLocal h (hclaim hph (by simp)) hph hg reason _ (fun _ _ => rfl)
      (fun _ => rfl) fun _ => rfl
  case h_7 r g hact hph hg | h_8 r g hact hph hg | h_9 r rec g hact hph hg =>
    obtain rfl := Option.some.inj hmove
    exact stepOk_publishRemote h (hclaim hph (by simp)) g r (fun _ _ => rfl)
      fun v _ hv => by cases v <;> first | rfl | exact absurd rfl (hv _)
  case h_10 admitted gone released now hact hph =>
    split at hmove
    · rename_i hsound
      obtain rfl := Option.some.inj hmove
      exact stepOk_tryStart h (hclaim hph (by simp)) hph hsound admitted released now
        (fun _ => rfl) fun v _ hv => by cases v <;> first | rfl | exact absurd rfl hv
    · exact absurd hmove (by simp)
  case h_11 fault g hact hph hg =>
    obtain rfl := Option.some.inj hmove
    exact stepOk_withdrawQueued h (hclaim hph (by simp)) hph fault (fun _ _ => rfl)
      (fun _ => rfl) fun _ => rfl
  case h_12 rec g hact hph hg =>
    obtain rfl := Option.some.inj hmove
    exact stepOk_abandonRebind h (hclaim hph (by simp)) hph hg fun _ => ⟨rfl, rfl⟩
  case h_13 now rec hact hph =>
    obtain rfl := Option.some.inj hmove
    exact stepOk_restoreQueued h (hclaim hph (by simp)) hph now
  case h_14 hact hph =>
    obtain rfl := Option.some.inj hmove
    exact stepOk_leaveQueue h (hclaim hph (by simp)) hph
  case h_15 hact hph =>
    obtain rfl := Option.some.inj hmove
    exact stepOk_releaseUnused h (hclaim hph (by simp)) hph
  case h_16 r logged g hact hph hg =>
    obtain rfl := Option.some.inj hmove
    exact stepOk_publishLeaving h (hclaim hph (by simp)) g r logged
  case h_17 r logged g hact hph hg =>
    obtain rfl := Option.some.inj hmove
    refine stepOk_finalize h (hclaim hph (by simp)) hph g r fun v => ?_
    cases v with
    | published b => exact ⟨.settled, fun _ => rfl, .inl rfl⟩
    | alreadyPublished | stale =>
      exact ⟨_, fun _ => rfl, .inr ⟨[.unlinkLease sup.id], rfl, by simp [ReleaseOp], by simp,
        by simp⟩⟩
    | refused =>
      exact ⟨_, fun _ => rfl, .inr ⟨[.writeResult sup.id r,
        .appendHistory ⟨sup.id, r.exit, r.cancelled, none⟩, .unlinkLease sup.id], rfl,
        by simp [ReleaseOp], by simp, fun _ => rfl⟩⟩
  case h_18 hact hph hg =>
    obtain rfl := Option.some.inj hmove
    exact stepOk_closing h (hclaim hph (by simp)) (.inl hph) (by simp) (by simp)
  case h_19 r hact hph hg =>
    obtain rfl := Option.some.inj hmove
    exact stepOk_closing h (hclaim hph (by simp)) (.inl hph) (by simp [ReleaseOp]) (by simp)
  case h_20 r hact hph hg =>
    obtain rfl := Option.some.inj hmove
    exact stepOk_closing h (hclaim hph (by simp)) (.inr hph) (by simp [ReleaseOp]) (by simp)
  case h_21 op ops hact hph =>
    obtain rfl := Option.some.inj hmove
    exact stepOk_closeStep h (hclaim hph (by simp)) hph
  case h_22 hact hph =>
    obtain rfl := Option.some.inj hmove
    exact stepOk_closed h (hclaim hph (by simp))
  case h_23 hact hph =>
    obtain rfl := Option.some.inj hmove
    exact stepOk_clearMarkers h (hclaim hph (by simp)) hph
  case h_24 hact =>
    obtain rfl := Option.some.inj hmove
    exact stepOk_signal h
  case h_25 hact =>
    obtain rfl := Option.some.inj hmove
    exact stepOk_die h
  case h_26 => exact absurd hmove (by simp)

/-! ### The steps of `lane cancel` and of a reconciliation -/

section CallerSteps

variable {w : World} {l : Label} {m : Move} {c : Caller} {id : TicketId} {a : Attempt}
  {lease : Lease}

/-- The record a caller reads names the ticket's live supervisor, if it has one. -/
theorem Inv.attempt_names (h : Inv w) (ha : w.fs.attempts.read id = some a) {q : Proc}
    {sq : Supervisor} (hq : w.Claimed q sq) (hid : sq.id = id) : a.supervisor = q :=
  (h.owned q sq hq).names.attempt a (hid ▸ ha)

/-- A ticket with a lease left the queue for good. -/
theorem Inv.lease_left (h : Inv w) (hl : w.fs.leases.read id = some lease) :
    (filesFor w.fs id).parked = [] ∧
      ∀ q sq, w.Claimed q sq → sq.id = id → lease.supervisor = q ∧ sq.phase.Left := by
  have hne : (filesFor w.fs id).lease ≠ none := by simp [filesFor, hl]
  refine ⟨((h.tidy id).of_lease hne).2, ?_⟩
  rintro q sq hq rfl
  have hown := h.owned q sq hq
  refine ⟨hown.names.lease lease hl, ?_⟩
  have hp := ((h.tidy sq.id).of_lease hne).2
  have hph := hown.phase
  have hs := hq.2.2
  cases hcase : sq.phase <;> rw [hcase] at hph hs <;> simp only [PhaseOk, SupPhase.Left] at hph ⊢
  case submitted => exact hs rfl
  case attempting => exact hne hph.2.2.1
  case fallen => exact hne hph.2.2.1
  case queued => exact hne hph.2.1
  case withdrawn r | returning r =>
    obtain ⟨e, he⟩ := hph.2.2
    simp [he] at hp

/-- A caller's step that touches no ticket's files. -/
theorem MoveOk.of_markers (h : Inv w) (hm : ∀ op ∈ m.journal, op.about = none) : MoveOk w l m :=
  .of_unowned (X := fun _ => False) (fun _ hf => hf.elim) (.of_about_none h.tidy hm)

/-- What a caller knows does not change with the files of no ticket. -/
theorem CallerOk.markers (h : CallerOk w c) (hm : ∀ op ∈ m.journal, op.about = none) :
    CallerOk (m.files w) c := by
  refine h.keep (fun q sq hq hid => ⟨sq, hq, hid, fun hl => hl⟩) fun hp _ => ?_
  change (filesFor (applyAll m.journal w.fs) c.id).parked = []
  rw [filesFor_applyAll_of_ne fun op hop => by rw [hm op hop]; simp]
  exact hp

/-- A caller reads, or writes a marker, and goes on. -/
theorem StepOk.look (h : Inv w) (hnone : w.sups.read l.actor = none)
    (hm : ∀ op ∈ m.journal, op.about = none)
    (hrem : m.remember (m.files w) = (m.files w).setCaller l.actor c) (hc : CallerOk w c) :
    StepOk w l m :=
  .caller h (.of_markers h hm) hnone hrem (hc.markers hm)

/-- A caller finds nothing more to do. -/
theorem StepOk.quit (h : Inv w) (hnone : w.sups.read l.actor = none)
    (hm : ∀ op ∈ m.journal, op.about = none)
    (hrem : m.remember (m.files w) = (m.files w).dropCaller l.actor) : StepOk w l m :=
  .drop h (.of_markers h hm) hnone hrem

/-- The operations of a release that has no attempt record. -/
theorem releaseOp_plainLeaseOps (s : Broker) (id : TicketId) :
    ∀ op ∈ plainLeaseOps s id, ReleaseOp id op := by simp [plainLeaseOps, ReleaseOp]

/-- A publish of a caller, for a ticket that no live supervisor has. -/
theorem MoveOk.publish {g : ℕ} {expect : Broker → Attempt → Bool} {wr : Bool → Section Unit}
    {k : Publication → World → World} (h : Inv w) (hw : RowWriter id wr)
    (hun : ∀ a, w.fs.attempts.read id = some a → expect w.fs a = true → w.Unowned id) :
    MoveOk w l (w.inSection (publishTerminal id g expect wr) k) := by
  refine .of_unowned (X := fun i => i = id ∧ w.Unowned id) (fun i hi => hi.1 ▸ hi.2)
    (hw.safe h.tidy fun a ha he => ⟨rfl, hun a ha he⟩)

/-- A reconciliation's fence holds only for an attempt whose supervisor is dead. -/
theorem Inv.unowned_of_fence (h : Inv w) {gone : List Proc} (hsound : w.probeSound gone = true)
    (ha : w.fs.attempts.read id = some a) (hgone : a.supervisor ∈ gone) : w.Unowned id :=
  World.unowned_of_gone hsound hgone fun _ _ hq hid => h.attempt_names ha hq hid

/-- The settlement of an abandoned local attempt: a result and its row unless one is there, and
the removal of the attempt. -/
theorem MoveOk.settle {gone : List Proc} {g : ℕ} {k : Publication → World → World} (h : Inv w)
    (hsound : w.probeSound gone = true) :
    MoveOk w l
      (w.inSection (publishTerminal id g (isAbandoned id gone) (settleWriter id)) k) := by
  rcases journal_publishTerminal_cases id g (isAbandoned id gone) (settleWriter id) w.fs with
    hj | ⟨a, b, ha, he, -, -, hj⟩
  · exact .of_markers h (by simp [World.inSection, hj])
  · have hun : w.Unowned id := by
      refine h.unowned_of_fence hsound ha ?_
      simp only [isAbandoned, Bool.and_eq_true, decide_eq_true_eq] at he
      exact he.1.1.1.1.2
    refine .of_unowned (X := (· = id)) (fun i hi => hi ▸ hun) ?_
    simp only [World.inSection]
    rw [hj]
    cases hr : (w.fs.results.read id).isSome with
    | true =>
      have hw : (settleWriter id b).journal w.fs = [] := by simp [settleWriter, hr]
      rw [hw]
      refine .cons (h.tidy.safeOp ?_ (by simp) (by simp)) (.nil h.tidy.unlinkAttempt)
      rintro i ⟨rfl⟩
      rfl
    | false =>
      have hw : ∃ (r : TicketResult) (rows : List HistoryRow), (∀ row ∈ rows, row.id = id) ∧
          (settleWriter id b).journal w.fs = .writeResult id r :: rows.map .appendHistory := by
        refine ⟨_, [_], ?_, by simp [settleWriter, hr]; exact ⟨rfl, rfl⟩⟩
        simp
      obtain ⟨r, rows, hrows, hw⟩ := hw
      rw [hw]
      exact safe_publish h.tidy rfl ha hrows

/-- What a caller relies on to release a lease that nobody has. -/
theorem CallerOk.performing {ops : List FileOp} (hm : MoveOk w l m)
    (hp : (filesFor w.fs id).parked = []) (hun : w.Unowned id)
    (hops : ∀ op ∈ ops, ReleaseOp id op) : CallerOk (m.files w) (.performing id ops) := by
  refine ⟨?_, hun, hops⟩
  have := hm.parked_nil hp (fun sq hsq hid => absurd hid (hun _ sq hsq)) m.journal.length
  rwa [List.take_length] at this

/-- A cancel publishes for an orphaned lease, and goes on to release it. -/
theorem stepOk_publishLease {g : ℕ} {e : Executor} {k : Publication → World → World} (h : Inv w)
    (hnone : w.sups.read l.actor = none) (hp : (filesFor w.fs id).parked = [])
    (hun : w.Unowned id)
    (hk : ∀ v, (∀ w', k v w' = w'.dropCaller l.actor) ∨ ∃ ops, (∀ op ∈ ops, ReleaseOp id op) ∧
      ∀ w', k v w' = w'.setCaller l.actor (.performing id ops)) :
    StepOk w l
      (w.inSection (publishTerminal id g expectAny (cancelLeaseWriter id e)) k) := by
  have hm : MoveOk w l
      (w.inSection (publishTerminal id g expectAny (cancelLeaseWriter id e)) k) :=
    .publish h (rowWriter_cancelLease id e) fun _ _ _ => hun
  rcases hk ((publishTerminal id g expectAny (cancelLeaseWriter id e)).value w.fs) with
    hdrop | ⟨ops, hops, hset⟩
  · exact .drop h hm hnone (hdrop _)
  · exact .caller h hm hnone (hset _) (.performing hm hp hun hops)

/-- One operation of such a release. -/
theorem stepOk_callerOp {op : FileOp} {ops : List FileOp} (h : Inv w)
    (hnone : w.sups.read l.actor = none) (hok : CallerOk w (.performing id (op :: ops))) :
    StepOk w l (.single op fun w => w.setCaller l.actor (.performing id ops)) := by
  obtain ⟨hp, hun, hops⟩ := hok
  have hm : MoveOk w l (.single op fun w => w.setCaller l.actor (.performing id ops)) := by
    refine .of_unowned (X := (· = id)) (fun i hi => hi ▸ hun)
      (safe_releaseOps h.tidy rfl hp fun o ho => ?_)
    rw [List.mem_singleton.1 ho]
    exact hops op (List.mem_cons_self ..)
  exact .caller h hm hnone rfl
    (.performing hm hp hun fun o ho => hops o (List.mem_cons_of_mem _ ho))

/-- **Every step of `lane cancel` and of a reconciliation keeps the invariant.** -/
theorem stepOk_callerMove (h : Inv w) (hnone : w.sups.read l.actor = none)
    (hread : w.callers.read l.actor = some c) (hmove : callerMove w l c = some m) :
    StepOk w l m := by
  have hok := h.callers _ _ hread
  unfold callerMove at hmove
  dsimp only at hmove
  split at hmove
  case h_1 id hact =>
    cases hl : w.fs.leases.read id with
    | some lease =>
      rw [hl] at hmove
      obtain rfl := Option.some.inj hmove
      exact .look h hnone (by simp [Move.silent]) rfl (h.lease_left hl)
    | none =>
      rw [hl] at hmove
      obtain rfl := Option.some.inj hmove
      exact .look (c := .readingAttempt id) h hnone (by simp [Move.silent]) rfl trivial
  case h_2 id hact | h_3 id hact =>
    cases ha : w.fs.attempts.read id with
    | some a =>
      rw [ha] at hmove
      obtain rfl := Option.some.inj hmove
      exact .look h hnone (by simp [Move.silent]) rfl fun _ _ hq hid => h.attempt_names ha hq hid
    | none =>
      rw [ha] at hmove
      obtain rfl := Option.some.inj hmove
      exact .quit h hnone (by simp [Move.silent]) rfl
  case h_4 id lease hact =>
    cases ha : w.fs.attempts.read id with
    | some a =>
      rw [ha] at hmove
      obtain rfl := Option.some.inj hmove
      exact .look (c := .publishingLease id lease a) h hnone (by simp [Move.silent]) rfl hok
    | none =>
      rw [ha] at hmove
      obtain rfl := Option.some.inj hmove
      exact .look h hnone (by simp [Move.silent]) rfl
        ⟨hok.1, hok.2, releaseOp_plainLeaseOps w.fs id⟩
  case h_5 gone id a orphanOnly hact =>
    split_ifs at hmove with hsound hgone horphan
    · obtain rfl := Option.some.inj hmove
      rw [Bool.not_eq_true, Bool.not_eq_false'] at hsound
      exact .look (c := .confirming id a) h hnone (by simp [Move.single, FileOp.about]) rfl
        (World.unowned_of_gone hsound hgone hok)
    · obtain rfl := Option.some.inj hmove
      exact .quit h hnone (by simp [Move.silent]) rfl
    · obtain rfl := Option.some.inj hmove
      exact .look (c := .awaitingSupervisor id) h hnone (by simp [Move.single, FileOp.about]) rfl
        trivial
  case h_6 id lease hact =>
    obtain rfl := Option.some.inj hmove
    exact .look (c := .leaseMarked id lease) h hnone (by simp [Move.single, FileOp.about]) rfl hok
  case h_7 gone id lease hact =>
    split_ifs at hmove with hsound hgone
    · obtain rfl := Option.some.inj hmove
      rw [Bool.not_eq_true, Bool.not_eq_false'] at hsound
      exact .look (c := .leaseOrphan id lease) h hnone (by simp [Move.silent]) rfl
        ⟨hok.1, World.unowned_of_gone hsound hgone fun q sq hq hid => (hok.2 q sq hq hid).1⟩
    · obtain rfl := Option.some.inj hmove
      exact .quit h hnone (by simp [Move.silent]) rfl
  case h_8 confirmed id a hact =>
    obtain rfl := Option.some.inj hmove
    cases confirmed with
    | true =>
      exact .look (c := .publishingCancel id a) h hnone (by simp [Move.silent]) rfl hok
    | false => exact .quit h hnone (by simp [Move.silent]) rfl
  case h_9 r gone id a hact =>
    obtain rfl := Option.some.inj hmove
    exact .drop h (.publish h (rowWriter_row id remoteCancelledResult none) fun _ _ _ => hok)
      hnone rfl
  case h_10 r gone id lease a hact =>
    obtain rfl := Option.some.inj hmove
    refine stepOk_publishLease h hnone hok.1 hok.2 fun v => ?_
    cases v with
    | published b | alreadyPublished =>
      exact .inr ⟨[.unlinkLease id, .unlinkSuperseded id], by simp [ReleaseOp], fun _ => rfl⟩
    | stale => exact .inl fun _ => rfl
    | refused => exact .inl fun _ => rfl
  case h_11 r gone id a hact =>
    split_ifs at hmove with hsound
    obtain rfl := Option.some.inj hmove
    refine .drop h (.publish h (rowWriter_verdict id r) fun b hb he => ?_) hnone rfl
    simp only [expectReconciled, Bool.and_eq_true, decide_eq_true_eq] at he
    exact h.unowned_of_fence hsound hb he.1.2
  case h_12 r gone id a hact =>
    split_ifs at hmove with hsound
    obtain rfl := Option.some.inj hmove
    exact .drop h (.settle h hsound) hnone rfl
  case h_13 id op ops hact =>
    obtain rfl := Option.some.inj hmove
    exact stepOk_callerOp h hnone hok
  case h_14 id hact =>
    obtain rfl := Option.some.inj hmove
    exact .quit h hnone (by simp [Move.silent]) rfl
  case h_15 hact =>
    obtain rfl := Option.some.inj hmove
    exact .exit h (.silent h _) rfl
  case h_16 => exact absurd hmove (by simp)
end CallerSteps

/-! ### Starting, and reaping -/

section AnySteps

variable {w : World} {l : Label} {m : Move} {id : TicketId}

/-- `lane cancel` of a queued ticket dequeues it, whoever has it. -/
theorem moveOk_cancelQueued {k : Bool → World → World} (h : Inv w) :
    MoveOk w l (w.inSection (cancelQueued id) k) := by
  cases hq : findQueueFile w.fs id with
  | none => exact .of_markers h (by simp [World.inSection, cancelQueued, hq])
  | some e =>
    have hj : (cancelQueued id).journal w.fs =
        (dequeueSync id).journal w.fs ++ [.writeCancelMarker id] := by
      simp [cancelQueued, hq]
    have hd : SafeSection (· = id) (fun _ => False) ((cancelQueued id).journal w.fs) w.fs := by
      have hd : SafeSection (· = id) (fun _ => False) ((dequeueSync id).journal w.fs) w.fs :=
        safe_dequeueSync h.tidy rfl
      rw [hj]
      exact hd.append (.of_about_none hd.2 (by simp [FileOp.about]))
    refine ⟨hd.1.mono fun _ _ ho => ho.toGuarded, hd.2, fun q sq hc hne j => ?_,
      fun n hn => (hd.park hn).elim⟩
    -- what is done of the dequeue removes queue files and changes nothing else
    have hunlink : (dequeueSync id).journal w.fs = [.unlinkQueue e.1] := by
      rw [journal_dequeueSync, ← findQueueFile_eq, hq]
      rfl
    have hcalm : ∀ n s,
        Calm (filesFor s sq.id) (filesFor ((FileOp.unlinkQueue n).apply s) sq.id) := by
      intro n s
      by_cases hn : n.id = sq.id
      · rw [← hn, filesFor_unlinkQueue]
        exact ⟨fun e he => List.mem_of_mem_filter he, rfl, rfl, rfl, rfl⟩
      · rw [filesFor_apply_of_ne (by simpa [FileOp.about] using hn)]
        exact .refl _
    change Calm _ (filesFor (applyAll (((cancelQueued id).journal w.fs).take j) w.fs) sq.id)
    rw [hj, hunlink]
    rcases j with _ | _ | j
    · exact .refl _
    · exact hcalm e.1 w.fs
    · rw [List.take_of_length_le (by simp)]
      exact hcalm e.1 w.fs

/-- **`lane cancel` begins**: it takes a queued ticket out, or reads on. -/
theorem stepOk_cancelCommand (h : Inv w) (hsups : w.sups.read l.actor = none) :
    StepOk w l (w.inSection (cancelQueued id) fun v w =>
      if v then w else w.setCaller l.actor (.readingLease id)) := by
  cases hv : (cancelQueued id).value w.fs with
  | true =>
    refine .stay h (moveOk_cancelQueued h) (by simp [World.inSection, hv]) fun sup hc => ?_
    rw [World.Claimed, hsups] at hc
    exact absurd hc.1 (by simp)
  | false =>
    exact .caller (c := .readingLease id) h (moveOk_cancelQueued h) hsups
      (by simp [World.inSection, hv]) trivial

/-- The reap of the queue that `lane reconcile` starts with. -/
theorem Inv.safe_reapQueue (h : Inv w) {gone : List Proc} (hsound : w.probeSound gone = true) :
    SafeSection w.Unowned (fun _ => False) ((reapOrphanedQueue none gone).journal w.fs) w.fs :=
  safe_reapOrphanedQueue ⟨h.tidy, fun _ hid => h.heldAlive hsound hid, fun _ _ => rfl⟩ none

/-- **Every step that needs no memory of its process keeps the invariant.** -/
theorem stepOk_anyMove (h : Inv w) (hmove : anyMove w l = some m) : StepOk w l m := by
  have hfresh : w.fresh l.actor = true →
      w.sups.read l.actor = none ∧ w.callers.read l.actor = none := by
    intro hf
    simpa [World.fresh] using hf
  unfold anyMove at hmove
  dsimp only at hmove
  split at hmove
  case h_1 id remote hact =>
    split_ifs at hmove with hf
    obtain rfl := Option.some.inj hmove
    refine .of h (.silent h _) rfl rfl (fun q hq => Dir.read_write_of_ne _ _ hq) (fun _ _ => rfl)
      (fun sup hc => ?_) fun c hc => .inl hc
    obtain ⟨hread, -, hs⟩ := hc
    change (w.sups.write l.actor _).read l.actor = some sup at hread
    rw [Dir.read_write_self] at hread
    obtain rfl := Option.some.inj hread
    exact absurd rfl hs
  case h_2 id hact =>
    split_ifs at hmove with hf
    obtain rfl := Option.some.inj hmove
    exact stepOk_cancelCommand h (hfresh hf).1
  case h_3 id gone hact =>
    split_ifs at hmove with hf
    rw [Bool.and_eq_true] at hf
    cases ha : w.fs.attempts.read id with
    | none => simp [ha] at hmove
    | some a =>
      rw [ha] at hmove
      dsimp only at hmove
      split_ifs at hmove
      obtain rfl := Option.some.inj hmove
      exact .look (c := .reconciling id a) h (hfresh hf.1).1 (by simp [Move.silent]) rfl trivial
  case h_4 id gone hact =>
    split_ifs at hmove with hf
    rw [Bool.and_eq_true] at hf
    obtain rfl := Option.some.inj hmove
    have hs := h.safe_reapQueue hf.2
    cases ha : (applyAll ((reapOrphanedQueue none gone).journal w.fs) w.fs).attempts.read id with
    | none => exact .reap h hs (by simp [World.inSection, Move.files, ha])
    | some a =>
      exact .caller (c := .settlingLocal id a) h (.of_unowned (fun _ hi => hi) hs)
        (hfresh hf.1).1 (by simp [World.inSection, Move.files, ha]) trivial
  case h_5 keep gone released now hact =>
    split_ifs at hmove with hsound
    obtain rfl := Option.some.inj hmove
    exact .reap h (h.safe_reap hsound keep released now) rfl
  case h_6 gone hact =>
    split_ifs at hmove with hsound
    obtain rfl := Option.some.inj hmove
    exact .reap h (h.safe_reapQueue hsound) rfl
  case h_7 b hact =>
    obtain rfl := Option.some.inj hmove
    exact .reap h (.of_about_none h.tidy (by simp [Move.single, FileOp.about])) rfl
  case h_8 => exact absurd hmove (by simp)

end AnySteps

/-- **Every step keeps the invariant.** -/
theorem stepOk_move {w : World} {l : Label} {m : Move} (h : Inv w) (hsafe : RecoverySafe w l)
    (hmove : move w l = some m) : StepOk w l m := by
  unfold move at hmove
  split at hmove
  case h_1 sup hread =>
    split_ifs at hmove with halive
    rcases hsup : supMove w l sup with _ | m'
    · rw [hsup] at hmove
      exact stepOk_anyMove h hmove
    · rw [hsup] at hmove
      obtain rfl := Option.some.inj hmove
      exact stepOk_supMove h hread halive hsafe hsup
  case h_2 c hnone hread => exact stepOk_callerMove h hnone hread hmove
  case h_3 => exact stepOk_anyMove h hmove

end LaneBroker
