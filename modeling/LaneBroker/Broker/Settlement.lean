/-
# One terminal result for each ticket

The result about the parties that can publish for a ticket: its supervisor, `lane cancel`, the
reconciliations and `reapOrphanedQueue`.  In every run without crashes in which an id is not
taken again while an earlier process still works on it, and in which no `lane cancel` and no
reconciliation of a remote attempt publishes for a ticket that is queued or has a result already
(neither of them looks), at most one result and one history row are ever written for a ticket,
and a result is never written over.

The invariant `PubInv` adds to `Inv` the counts, and the operations a process still has to make
of a publish it makes without the lock (`World.pendingOps`): a row that is still to come is the
only one, of a ticket whose result is written.
-/

import LaneBroker.Broker.Published
import LaneBroker.Broker.Placement

namespace LaneBroker

open LaneBroker.Basis

/-! ### The conditions on a run -/

/-- A party that publishes without looking whether there is a result: `lane cancel`, and the
reconciliation of a remote attempt. -/
def Caller.Blind : Caller → Prop
  | .publishingCancel .. | .publishingLease .. | .performing .. | .reconciling .. => True
  | _ => False

/-- **The steps of a run in which each ticket is settled once.** -/
structure PublishSafe (w : World) (l : Label) : Prop where
  complete : l.crashAt = none
  /-- An id is not taken again while an earlier process still works on it. -/
  submit : ∀ id, Takes w l id → w.Alone id
  /-- No `lane cancel` and no reconciliation publishes for a ticket that is queued, or that has
  a result. -/
  blind : ∀ c m id r, w.callers.read l.actor = some c → c.Blind → move w l = some m →
    .writeResult id r ∈ m.journal →
      w.fs.results.read id = none ∧ (filesFor w.fs id).queued = []

theorem PublishSafe.recoverySafe {w : World} {l : Label} (h : PublishSafe w l) :
    RecoverySafe w l := by
  have hcrash : ∀ P, ¬ CrashesWhere w l P := by
    rintro P ⟨m, k, op, -, hk, -⟩
    rw [h.complete] at hk
    exact absurd hk (by simp)
  exact ⟨hcrash _, hcrash _, h.submit⟩

/-! ### Operations still to come -/

/-- What a supervisor in this phase still has to do of a publish without the lock. -/
def SupPhase.pending : SupPhase → List FileOp
  | .closing ops => ops
  | _ => []

/-- What a caller still has to do of a publish without the lock. -/
def Caller.pending : Caller → List FileOp
  | .performing _ ops => ops
  | _ => []

/-- The file operations a process still has to make of a publish without the lock. -/
def World.pendingOps (w : World) (p : Proc) : List FileOp :=
  match w.sups.read p with
  | some sup => if sup.alive then sup.phase.pending else []
  | none => ((w.callers.read p).map Caller.pending).getD []

/-- **What is left of a publish**: at most a result first, then at most its row, then operations
that publish nothing. -/
structure PendShape (ops : List FileOp) : Prop where
  result : ∀ i r, FileOp.writeResult i r ∉ ops.tail
  row : ∀ x, FileOp.appendHistory x ∈ ops.tail → ∃ r rest,
    ops = .writeResult x.id r :: .appendHistory x :: rest ∧ ∀ y, FileOp.appendHistory y ∉ rest

theorem PendShape.nil : PendShape [] := ⟨by simp, by simp⟩

theorem PendShape.tail {op : FileOp} {ops : List FileOp} (h : PendShape (op :: ops)) :
    PendShape ops where
  result i r hr := h.result i r (List.mem_of_mem_tail hr)
  row x hx := by
    obtain ⟨r, rest, hops, hrest⟩ := h.row x (List.mem_of_mem_tail hx)
    obtain ⟨-, rfl⟩ := List.cons_eq_cons.1 hops
    exact absurd hx (hrest x)

/-- A row that comes next was preceded by its result. -/
theorem PendShape.next {op : FileOp} {ops : List FileOp} {x : HistoryRow} {rest : List FileOp}
    (h : PendShape (op :: ops)) (hops : ops = .appendHistory x :: rest) :
    ∃ r, op = .writeResult x.id r := by
  obtain ⟨r, rest', hcons, -⟩ := h.row x (by rw [hops]; exact List.mem_cons_self ..)
  exact ⟨r, (List.cons_eq_cons.1 hcons).1⟩

/-- **The invariant of a run without crashes.** -/
structure PubInv (w : World) : Prop where
  inv : Inv w
  counted : Counted w.fs
  unpublished : Unpublished w.fs
  shape : ∀ p, PendShape (w.pendingOps p)
  row : ∀ p x rest, w.pendingOps p = .appendHistory x :: rest →
    w.fs.results.read x.id ≠ none ∧ rowCount w.fs x.id = 0
  one : ∀ p q x y rest rest', w.pendingOps p = .appendHistory x :: rest →
    w.pendingOps q = .appendHistory y :: rest' → x.id = y.id → p = q

/-- **What a step does to the results and the history.** -/
structure PubOk (w : World) (l : Label) (m : Move) : Prop where
  each : BeforeEach PublishesOnce m.journal w.fs
  queued : Unpublished (applyAll m.journal w.fs)
  /-- A row goes with its result, or is the one the process had still to write. -/
  rows : ∀ x, FileOp.appendHistory x ∈ m.journal →
    (∃ r, .writeResult x.id r ∈ m.journal) ∨ ∃ rest, w.pendingOps l.actor = .appendHistory x :: rest
  shape : PendShape ((m.remember (m.files w)).pendingOps l.actor)
  /-- A row still to come goes with the result just written, or was still to come before. -/
  next : ∀ x rest, (m.remember (m.files w)).pendingOps l.actor = .appendHistory x :: rest →
    (∃ r, m.journal = [.writeResult x.id r]) ∨ w.pendingOps l.actor = .appendHistory x :: rest ∧
      ∀ y, FileOp.appendHistory y ∈ m.journal → ∃ r, .writeResult y.id r ∈ m.journal

section Steps

variable {w : World} {l : Label} {m : Move} {sup : Supervisor} {c : Caller}

/-- Who acts does not change what another process has still to do. -/
theorem pendingOps_congr {w w' : World} {p : Proc} (hs : w'.sups.read p = w.sups.read p)
    (hc : w'.callers.read p = w.callers.read p) : w'.pendingOps p = w.pendingOps p := by
  unfold World.pendingOps
  rw [hs, hc]

/-- A ticket whose row is still to come gets no other row from the step. -/
theorem PubOk.rowCount_eq (h : PubInv w) (hm : PubOk w l m) {p : Proc} {x : HistoryRow}
    {rest : List FileOp} (hp : w.pendingOps p = .appendHistory x :: rest)
    (hother : ∀ y, FileOp.appendHistory y ∈ m.journal → y.id = x.id →
      ∃ r, .writeResult y.id r ∈ m.journal) :
    (applyAll m.journal w.fs).results.read x.id ≠ none ∧
      rowCount (applyAll m.journal w.fs) x.id = 0 := by
  obtain ⟨hres, hzero⟩ := h.row p x rest hp
  refine ⟨results_applyAll hres, ?_⟩
  rw [rowCount_applyAll_of_ne, hzero]
  intro y hid hy
  obtain ⟨r, hr⟩ := hother y hy hid
  rw [hid] at hr
  exact hres (result_none_of_mem hm.each r hr)

/-- **The invariant after a step.** -/
theorem PubInv.step (h : PubInv w) (hs : StepOk w l m) (hm : PubOk w l m) :
    PubInv (m.remember (m.files w)) := by
  have hpend : ∀ q, q ≠ l.actor →
      (m.remember (m.files w)).pendingOps q = w.pendingOps q :=
    fun q hq => pendingOps_congr (hs.sups q hq) (hs.callers q hq)
  -- a row still to come of the process that acts leaves no other process such a row
  have hactor : ∀ x rest q y rest', q ≠ l.actor →
      (m.remember (m.files w)).pendingOps l.actor = .appendHistory x :: rest →
      w.pendingOps q = .appendHistory y :: rest' → x.id ≠ y.id := by
    intro x rest q y rest' hq hx hy hid
    rcases hm.next x rest hx with ⟨r, hj⟩ | ⟨hold, -⟩
    · refine (h.row q y rest' hy).1 (hid ▸ result_none_of_mem hm.each r ?_)
      rw [hj]
      exact List.mem_singleton_self _
    · exact hq (h.one _ _ _ _ _ _ hold hy hid).symm
  refine ⟨hs.inv, hs.fs ▸ h.counted.applyAll hm.each, hs.fs ▸ hm.queued, fun q => ?_,
    fun q x rest hx => ?_, fun p q x y rest rest' hx hy hid => ?_⟩
  · by_cases hq : q = l.actor
    · exact hq ▸ hm.shape
    · exact hpend q hq ▸ h.shape q
  · rw [hs.fs]
    by_cases hq : q = l.actor
    · subst hq
      rcases hm.next x rest hx with ⟨r, hj⟩ | ⟨hold, hrows⟩
      · have hnone : w.fs.results.read x.id = none := result_none_of_mem hm.each r
          (by rw [hj]; exact List.mem_singleton_self _)
        rw [hj]
        refine ⟨?_, (h.counted.fresh x.id hnone).2⟩
        change (w.fs.results.write x.id r).read x.id ≠ none
        simp
      · exact hm.rowCount_eq h hold fun y hy _ => hrows y hy
    · have hold := hpend q hq ▸ hx
      refine hm.rowCount_eq h hold fun y hy hyx => ?_
      rcases hm.rows y hy with hr | ⟨rest', hy'⟩
      · exact hr
      · exact absurd (h.one _ _ _ _ _ _ hold hy' hyx.symm) hq
  · by_cases hp : p = l.actor
    · by_cases hq : q = l.actor
      · rw [hp, hq]
      · rw [hpend q hq] at hy
        exact absurd hid (hactor x rest q y rest' hq (hp ▸ hx) hy)
    · rw [hpend p hp] at hx
      by_cases hq : q = l.actor
      · exact absurd hid.symm (hactor y rest' p x rest hp (hq ▸ hy) hx)
      · rw [hpend q hq] at hy
        exact h.one p q x y rest rest' hx hy hid

/-- What a process has still to do after a step: what it had before, or the start of a publish
that begins with no row. -/
def PendNext (w : World) (l : Label) (m : Move) : Prop :=
  (m.remember (m.files w)).pendingOps l.actor = w.pendingOps l.actor ∨
    PendShape ((m.remember (m.files w)).pendingOps l.actor) ∧
      ∀ x rest, (m.remember (m.files w)).pendingOps l.actor ≠ .appendHistory x :: rest

/-- A step that is one publishing section. -/
theorem PubOk.once (h : PubInv w) (hone : OnceSection m.journal w.fs) (hp : PendNext w l m) :
    PubOk w l m where
  each := hone.each
  queued := hone.queued
  rows x hx := .inl (hone.rows x hx)
  shape := by
    rcases hp with hp | hp
    · exact hp ▸ h.shape _
    · exact hp.1
  next x rest hx := by
    rcases hp with hp | hp
    · exact .inr ⟨hp ▸ hx, hone.rows⟩
    · exact absurd hx (hp.2 x rest)

/-- A step that publishes nothing. -/
theorem PubOk.quiet (h : PubInv w) (hs : StepOk w l m)
    (hq : ∀ op ∈ m.journal, op.publishes = false) (hp : PendNext w l m) : PubOk w l m :=
  .once h (.quiet h.unpublished hs.move.guarded hq) hp

/-- **One operation of a publish without the lock.** -/
theorem PubOk.pending {op : FileOp} {ops : List FileOp} {id : TicketId} (h : PubInv w)
    (hp : w.pendingOps l.actor = op :: ops) (hj : m.journal = [op])
    (hp' : (m.remember (m.files w)).pendingOps l.actor = ops) (hop : ReleaseOp id op)
    (hfree : ∀ r, op = .writeResult id r →
      w.fs.results.read id = none ∧ (filesFor w.fs id).queued = []) : PubOk w l m := by
  have hshape := h.shape l.actor
  rw [hp] at hshape
  have hre : op.requeues = none := by cases op <;> first | rfl | exact hop.elim
  have hresult : ∀ i r, op = .writeResult i r → i = id := by
    rintro i r rfl
    exact hop
  refine ⟨?_, ?_, fun x hx => ?_, hp' ▸ hshape.tail, fun x rest hx => ?_⟩
  · rw [hj]
    refine ⟨⟨fun i r hi => ?_, fun x hx => ?_⟩, trivial⟩
    · obtain rfl := hresult i r hi
      exact (hfree r hi).1
    · exact h.row l.actor x ops (by rw [hp, hx])
  · rw [hj]
    intro i hne
    by_cases hi : ∃ r, op = .writeResult i r
    · obtain ⟨r, rfl⟩ := hi
      obtain rfl := hresult i r rfl
      exact absurd (hfree r rfl).2 hne
    · exact unpublished_apply (h.unpublished i) (fun r hr => hi ⟨r, hr⟩)
        (fun n hn => by rw [hre] at hn; exact absurd hn (by simp)) hne
  · rw [hj, List.mem_singleton] at hx
    exact .inr ⟨ops, by rw [hp, hx]⟩
  · obtain ⟨r, hr⟩ := hshape.next (hp' ▸ hx)
    exact .inl ⟨r, by rw [hj, hr]⟩

theorem pendingOps_sup {w : World} {p : Proc} {sup : Supervisor} (hread : w.sups.read p = some sup)
    (halive : sup.alive = true) : w.pendingOps p = sup.phase.pending := by
  simp [World.pendingOps, hread, halive]

theorem pendingOps_caller {w : World} {p : Proc} (hnone : w.sups.read p = none)
    (hread : w.callers.read p = some c) : w.pendingOps p = c.pending := by
  simp [World.pendingOps, hnone, hread]

theorem pendingOps_kill (w : World) (p : Proc) : (w.kill p).pendingOps p = [] := by
  unfold World.pendingOps
  split
  case h_1 sup hread =>
    split_ifs with halive
    · by_contra hne
      refine World.not_claimed_kill w p sup ⟨hread, halive, fun hph => hne ?_⟩
      rw [hph]
      rfl
    · rfl
  case h_2 hread =>
    rw [World.kill_callers, if_pos rfl]
    rfl

theorem PendNext.of_nil (h : (m.remember (m.files w)).pendingOps l.actor = []) :
    PendNext w l m := .inr ⟨h ▸ .nil, by simp [h]⟩

theorem PendNext.stay (hrem : m.remember (m.files w) = m.files w) : PendNext w l m :=
  .inl (by rw [hrem]; rfl)

theorem PendNext.exit (hrem : m.remember (m.files w) = (m.files w).kill l.actor) :
    PendNext w l m := .of_nil (by rw [hrem, pendingOps_kill])

theorem PendNext.set (sup' : Supervisor)
    (hrem : m.remember (m.files w) = (m.files w).setSup l.actor sup')
    (hshape : PendShape sup'.phase.pending)
    (hrow : ∀ x rest, sup'.phase.pending ≠ .appendHistory x :: rest) : PendNext w l m := by
  have hp : (m.remember (m.files w)).pendingOps l.actor = sup'.phase.pending ∨
      (m.remember (m.files w)).pendingOps l.actor = [] := by
    rw [hrem]
    simp only [World.pendingOps, World.setSup, Dir.read_write_self]
    split_ifs <;> simp
  rcases hp with hp | hp
  · exact .inr ⟨hp ▸ hshape, hp ▸ hrow⟩
  · exact .of_nil hp

/-- The supervisor goes on to a phase in which it has no publish under way. -/
theorem PendNext.phase (sup' : Supervisor)
    (hrem : m.remember (m.files w) = (m.files w).setSup l.actor sup')
    (hph : sup'.phase.pending = []) : PendNext w l m :=
  .set sup' hrem (hph ▸ .nil) (by simp [hph])

theorem PendNext.caller (hnone : w.sups.read l.actor = none)
    (hrem : m.remember (m.files w) = (m.files w).setCaller l.actor c)
    (hshape : PendShape c.pending) (hrow : ∀ x rest, c.pending ≠ .appendHistory x :: rest) :
    PendNext w l m := by
  have hp : (m.remember (m.files w)).pendingOps l.actor = c.pending := by
    rw [hrem]
    exact pendingOps_caller hnone (Dir.read_write_self _ _ _)
  exact .inr ⟨hp ▸ hshape, hp ▸ hrow⟩

/-- A caller goes on with no publish under way. -/
theorem PendNext.look (hnone : w.sups.read l.actor = none) (c : Caller)
    (hrem : m.remember (m.files w) = (m.files w).setCaller l.actor c) (hc : c.pending = []) :
    PendNext w l m :=
  .caller hnone hrem (hc ▸ .nil) (by simp [hc])

theorem PendNext.drop (hnone : w.sups.read l.actor = none)
    (hrem : m.remember (m.files w) = (m.files w).dropCaller l.actor) : PendNext w l m := by
  refine .of_nil ?_
  rw [hrem]
  change (match w.sups.read l.actor with
    | some sup => if sup.alive then sup.phase.pending else []
    | none => (((w.callers.unlink l.actor).read l.actor).map Caller.pending).getD []) = []
  rw [hnone]
  simp

/-! ### The steps of a supervisor -/

theorem publishes_createAttempt {s : Broker} {id : TicketId} {p : Proc} {now : ℕ} :
    ∀ op ∈ (createAttempt id p now).journal s, op.publishes = false := by
  rcases createAttempt_cases id p now s with ⟨-, -, hj⟩ | ⟨-, hj, -⟩ <;> rw [hj] <;> simp

theorem publishes_enqueue {s : Broker} {id : TicketId} {p : Proc} {now : ℕ} {g : Option ℕ}
    {losers : List (TicketId × TicketId)} :
    ∀ op ∈ (enqueue id p now g losers).journal s, op.publishes = false := by
  intro op hop
  rcases enqueue_cases id p now g losers s with ⟨-, -, marks, hmarks, hj⟩ | ⟨-, hj, -⟩
  · rw [hj, List.mem_cons, List.mem_cons] at hop
    rcases hop with rfl | rfl | hop
    exacts [rfl, rfl, (hmarks op hop).2]
  · simp [hj] at hop

theorem publishes_updateAttempt {s : Broker} {id : TicketId} {g : ℕ}
    {patch : Attempt → Attempt} :
    ∀ op ∈ (updateAttempt id g patch).journal s, op.publishes = false := by
  rcases journal_updateAttempt_cases id g patch s with hj | ⟨a, -, -, hj⟩ <;> rw [hj] <;> simp

theorem publishes_fallbackToLocal {s : Broker} {id : TicketId} {reason : String} :
    ∀ op ∈ (fallbackToLocal id reason).journal s, op.publishes = false := by
  rcases fallbackToLocal_cases id reason s with ⟨a, -, -, hj⟩ | ⟨-, hj⟩ <;> rw [hj] <;> simp

theorem publishes_withdrawQueued {s : Broker} {id : TicketId} {p : Proc}
    {fault : Option WithdrawFault} :
    ∀ op ∈ (withdrawQueued id p fault).journal s, op.publishes = false := by
  intro op hop
  rcases withdrawQueued_cases id p fault s with ⟨n, r, -, -, -, hj⟩ | ⟨-, hj | ⟨n, r, -, hj⟩⟩
  · rw [hj, List.mem_cons] at hop
    rcases hop with rfl | hop
    exacts [rfl, publishes_patchAttemptLocked op hop]
  · simp [hj] at hop
  · rw [hj] at hop
    simp only [List.mem_cons, List.not_mem_nil, or_false] at hop
    rcases hop with rfl | rfl <;> rfl

theorem publishes_clearTicketMarkers {s : Broker} {id : TicketId} :
    ∀ op ∈ (clearTicketMarkers id).journal s, op.publishes = false := by
  intro op hop
  rw [journal_clearTicketMarkers] at hop
  rcases List.mem_append.1 hop with hop | hop
  · exact publishes_discardRebinding op hop
  · simp only [List.mem_cons, List.not_mem_nil, or_false] at hop
    rcases hop with rfl | rfl <;> rfl

/-- The intake of an id leaves at most a result to write. -/
theorem PendNext.intake {f : Section Intake} {taken : Supervisor} {refusal : TicketResult}
    (htaken : taken.phase.pending = []) :
    PendNext w l (w.inSection f (afterIntake l.actor sup taken refusal)) := by
  cases hv : f.value w.fs with
  | taken => exact .phase taken (by simp only [World.inSection, hv, afterIntake]) htaken
  | existing e => exact .exit (by simp only [World.inSection, hv, afterIntake])
  | migrating =>
    cases hg : sup.generation.isSome with
    | true =>
      exact .phase { sup with phase := .leaving }
        (by simp only [World.inSection, hv, afterIntake, hg]; rfl) rfl
    | false =>
      refine .set { sup with phase := .closing [.writeResult sup.id refusal] }
        (by simp only [World.inSection, hv, afterIntake, hg]; rfl) ⟨?_, ?_⟩ ?_ <;>
        simp [SupPhase.pending]

/-- After its publish of a remote ticket a supervisor is done, or exits. -/
theorem PendNext.afterRemote {f : Section Publication} :
    PendNext w l (w.inSection f fun v w =>
      match v with
      | .published _ => toPhase l.actor sup .settled w
      | _ => w.kill l.actor) := by
  cases hv : f.value w.fs with
  | published b =>
    exact .phase { sup with phase := .settled } (by simp only [World.inSection, hv]; rfl) rfl
  | alreadyPublished | stale | refused => exact .exit (by simp only [World.inSection, hv])

/-- A supervisor starts to publish without an attempt record. -/
theorem PendNext.closing (r : TicketResult) (row : HistoryRow) (ops : List FileOp)
    (hrow : row.id = sup.id) (hops : ∀ op ∈ ops, op.publishes = false)
    (hrem : m.remember (m.files w) = toPhase l.actor sup
      (.closing (.writeResult sup.id r :: .appendHistory row :: ops)) (m.files w)) :
    PendNext w l m := by
  refine .set { sup with phase := _ } hrem ⟨?_, fun x hx => ?_⟩ ?_
  · intro i r' hr
    rcases List.mem_cons.1 hr with hr | hr
    · simp at hr
    · simpa using hops _ hr
  · rcases List.mem_cons.1 hx with hx | hx
    · obtain rfl := FileOp.appendHistory.inj hx
      exact ⟨r, ops, by rw [hrow]; rfl, fun y hy => by simpa using hops _ hy⟩
    · simpa using hops _ hx
  · simp [SupPhase.pending]

/-- The publish of a claimed remote ticket. -/
theorem PubInv.once_publishRemote (h : PubInv w) (hc : w.Claimed l.actor sup) {g : ℕ}
    {r : TicketResult}
    (hd : sup.phase = .attempting ∨ sup.phase = .fallen ∨ ∃ rec, sup.phase = .withdrawn rec) :
    OnceSection ((publishTerminal sup.id g expectAny (verdictWriter sup.id r)).journal w.fs)
      w.fs := by
  refine once_publishTerminal (rowWriter_verdict sup.id r) h.counted h.unpublished fun _ => ?_
  have hph := (h.inv.owned _ _ hc).phase
  rcases hd with hd | hd | ⟨rec, hd⟩ <;> rw [hd] at hph
  · exact ⟨hph.2.2.2, hph.1⟩
  · exact ⟨hph.2.2.2, hph.1⟩
  · obtain ⟨-, hr, e, he⟩ := hph
    rcases (h.inv.tidy sup.id).parked_cases with hnil | ⟨_, _, hq, _⟩
    · simp [he] at hnil
    · exact ⟨hr, hq⟩

/-- A poll of `tryStart` publishes for the tickets it reaps only. -/
theorem PubInv.once_tryStart (h : PubInv w) {gone : List Proc}
    (hsound : w.probeSound gone = true) (id : TicketId) (p : Proc) (admitted : Bool)
    (released : List TicketId) (now : ℕ)
    (hg : BeforeEach Guarded ((tryStart id p admitted gone released now).journal w.fs) w.fs) :
    OnceSection ((tryStart id p admitted gone released now).journal w.fs) w.fs := by
  have hreap := once_reapStale h.inv.tidy (fun _ hid => h.inv.heldAlive hsound hid) h.counted
    h.unpublished (some id) released now
  rcases tryStart_cases id p admitted gone released now w.fs with ⟨-, -, hj⟩ | ⟨-, hj⟩
  · rw [hj] at hg ⊢
    refine hreap.append (.quiet hreap.queued (beforeEach_append.1 hg).2 fun op hop => ?_)
    rcases List.mem_append.1 hop with hop | hop
    · exact (publishes_dequeueSync op hop).1
    · rw [List.mem_singleton.1 hop]
      rfl
  · rw [hj]
    exact hreap

/-- **A supervisor's step publishes once.** -/
theorem pubOk_supMove (h : PubInv w) (hread : w.sups.read l.actor = some sup)
    (halive : sup.alive = true) (hs : StepOk w l m) (hmove : supMove w l sup = some m) :
    PubOk w l m := by
  have hclaim : ∀ {ph}, sup.phase = ph → ph ≠ .submitted → w.Claimed l.actor sup :=
    fun hph hs => ⟨hread, halive, hph ▸ hs⟩
  have hpend := pendingOps_sup hread halive
  unfold supMove at hmove
  dsimp only at hmove
  split at hmove
  case h_1 now refusal hact hph hg =>
    split at hmove
    · obtain rfl := Option.some.inj hmove
      exact .quiet h hs publishes_createAttempt (.intake rfl)
    · exact absurd hmove (by simp)
  case h_2 now losers refusal hact hph hg =>
    split at hmove
    · exact absurd hmove (by simp)
    · obtain rfl := Option.some.inj hmove
      exact .quiet h hs publishes_enqueue (.intake rfl)
  case h_3 now losers refusal g hact hph hg =>
    obtain rfl := Option.some.inj hmove
    exact .quiet h hs publishes_enqueue (.intake rfl)
  case h_4 patch g hact hph hg | h_5 patch r g hact hph hg =>
    obtain rfl := Option.some.inj hmove
    exact .quiet h hs publishes_updateAttempt (.stay rfl)
  case h_6 reason g hact hph hg =>
    obtain rfl := Option.some.inj hmove
    refine .quiet h hs publishes_fallbackToLocal ?_
    cases hv : (fallbackToLocal sup.id reason).value w.fs with
    | ok a =>
      exact .phase { sup with phase := .fallen, generation := some a.generation }
        (by simp only [World.inSection, hv]) rfl
    | cancelled => exact .stay (by simp only [World.inSection, hv])
    | missing => exact .exit (by simp only [World.inSection, hv])
  case h_7 r g hact hph hg =>
    obtain rfl := Option.some.inj hmove
    exact .once h (h.once_publishRemote (hclaim hph (by simp)) (.inl hph)) .afterRemote
  case h_8 r g hact hph hg =>
    obtain rfl := Option.some.inj hmove
    exact .once h (h.once_publishRemote (hclaim hph (by simp)) (.inr (.inl hph))) .afterRemote
  case h_9 r rec g hact hph hg =>
    obtain rfl := Option.some.inj hmove
    exact .once h (h.once_publishRemote (hclaim hph (by simp)) (.inr (.inr ⟨rec, hph⟩)))
      .afterRemote
  case h_10 admitted gone released now hact hph =>
    split at hmove
    · rename_i hsound
      obtain rfl := Option.some.inj hmove
      refine .once h (h.once_tryStart hsound sup.id l.actor admitted released now
        hs.move.guarded) ?_
      cases hv : (tryStart sup.id l.actor admitted gone released now).value w.fs with
      | started =>
        exact .phase { sup with phase := .started } (by simp only [World.inSection, hv]; rfl) rfl
      | notQueued | waiting | cancelled => exact .stay (by simp only [World.inSection, hv])
    · exact absurd hmove (by simp)
  case h_11 fault g hact hph hg =>
    obtain rfl := Option.some.inj hmove
    refine .quiet h hs publishes_withdrawQueued ?_
    cases hv : (withdrawQueued sup.id l.actor fault).value w.fs with
    | withdrawn r =>
      exact .phase { sup with phase := .withdrawn r } (by simp only [World.inSection, hv]; rfl)
        rfl
    | notTaken => exact .stay (by simp only [World.inSection, hv])
    | threw => exact .exit (by simp only [World.inSection, hv])
  case h_12 rec g hact hph hg =>
    obtain rfl := Option.some.inj hmove
    exact .quiet h hs publishes_updateAttempt (.phase { sup with phase := .returning rec } rfl rfl)
  case h_13 now rec hact hph =>
    obtain rfl := Option.some.inj hmove
    exact .quiet h hs publishes_restoreLocked (.phase { sup with phase := .queued } rfl rfl)
  case h_14 hact hph =>
    obtain rfl := Option.some.inj hmove
    exact .quiet h hs (fun op hop => (publishes_dequeueSync op hop).1)
      (.phase { sup with phase := .leaving } rfl rfl)
  case h_15 hact hph =>
    obtain rfl := Option.some.inj hmove
    exact .quiet h hs (by simp [Move.single]) (.phase { sup with phase := .leaving } rfl rfl)
  case h_16 r logged g hact hph hg =>
    obtain rfl := Option.some.inj hmove
    have hown := (h.inv.owned _ _ (hclaim hph (by simp))).phase
    rw [hph] at hown
    exact .once h (once_publishTerminal (rowWriter_leaving sup.id r logged) h.counted
      h.unpublished fun _ => ⟨hown.2.2, hown.1⟩) (.phase { sup with phase := .settled } rfl rfl)
  case h_17 r logged g hact hph hg =>
    obtain rfl := Option.some.inj hmove
    have hown := (h.inv.owned _ _ (hclaim hph (by simp))).phase
    rw [hph] at hown
    refine .once h (once_finalize h.counted h.unpublished hown.2.2 hown.1 hown.2.1) ?_
    cases hv : (publishTerminal sup.id g expectAny (finalizeWriter sup.id r)).value w.fs with
    | published b =>
      exact .phase { sup with phase := .settled } (by simp only [World.inSection, hv]; rfl) rfl
    | alreadyPublished | stale =>
      exact .set { sup with phase := .closing [.unlinkLease sup.id] }
        (by simp only [World.inSection, hv]; rfl) ⟨by simp [SupPhase.pending],
          by simp [SupPhase.pending]⟩ (by simp [SupPhase.pending])
    | refused =>
      exact .closing r ⟨sup.id, r.exit, r.cancelled, none⟩ [.unlinkLease sup.id] rfl (by simp)
        (by simp only [World.inSection, hv])
  case h_18 hact hph hg =>
    obtain rfl := Option.some.inj hmove
    exact .quiet h hs (by simp [Move.silent]) (.phase { sup with phase := .closing [] } rfl rfl)
  case h_19 r hact hph hg | h_20 r hact hph hg =>
    obtain rfl := Option.some.inj hmove
    exact .quiet h hs (by simp [Move.silent]) (.closing r _ _ rfl (by simp) rfl)
  case h_21 op ops hact hph =>
    obtain rfl := Option.some.inj hmove
    have hown := (h.inv.owned _ _ (hclaim hph (by simp))).phase
    rw [hph] at hown hpend
    refine .pending h hpend rfl ?_ (hown.2.2.release op (List.mem_cons_self ..)) fun r hr => ?_
    · have halive' : ({ sup with phase := .closing ops } : Supervisor).alive = true := halive
      exact pendingOps_sup (Dir.read_write_self _ _ _) halive'
    · exact ⟨hown.2.2.first sup.id r (by rw [hr]; rfl), hown.1⟩
  case h_22 hact hph =>
    obtain rfl := Option.some.inj hmove
    exact .quiet h hs (by simp [Move.silent]) (.phase { sup with phase := .settled } rfl rfl)
  case h_23 hact hph =>
    obtain rfl := Option.some.inj hmove
    exact .quiet h hs publishes_clearTicketMarkers (.stay rfl)
  case h_24 hact =>
    obtain rfl := Option.some.inj hmove
    exact .quiet h hs (by simp [Move.single]) (.stay rfl)
  case h_25 hact =>
    obtain rfl := Option.some.inj hmove
    exact .quiet h hs (by simp [Move.silent]) (.exit rfl)
  case h_26 => exact absurd hmove (by simp)

/-! ### The steps of `lane cancel` and of a reconciliation -/

/-- A caller's publish, of a ticket that has no result and is not queued when it writes one. -/
theorem PubInv.once_caller {id : TicketId} {wr : Bool → Section Unit} {g : ℕ}
    {expect : Broker → Attempt → Bool} (h : PubInv w) (hw : RowWriter id wr)
    (hfree : ∀ r, FileOp.writeResult id r ∈ (publishTerminal id g expect wr).journal w.fs →
      w.fs.results.read id = none ∧ (filesFor w.fs id).queued = []) :
    OnceSection ((publishTerminal id g expect wr).journal w.fs) w.fs := by
  refine once_publishTerminal hw h.counted h.unpublished fun hne => ?_
  rcases journal_publishTerminal_cases id g expect wr w.fs with hj | ⟨a, c, -, -, -, -, hj⟩
  · exact absurd hj hne
  · obtain ⟨r, row, -, hwj⟩ := hw c w.fs
    refine hfree r ?_
    rw [hj, hwj]
    exact List.mem_cons_self ..

/-- The settlement of an abandoned local attempt looks for a result, and for a queue file. -/
theorem PubInv.once_settle {id : TicketId} {gone : List Proc} {g : ℕ} (h : PubInv w)
    (hs : BeforeEach Guarded
      ((publishTerminal id g (isAbandoned id gone) (settleWriter id)).journal w.fs) w.fs) :
    OnceSection ((publishTerminal id g (isAbandoned id gone) (settleWriter id)).journal w.fs)
      w.fs := by
  cases hr : w.fs.results.read id with
  | some r =>
    refine .quiet h.unpublished hs fun op hop => ?_
    rcases journal_publishTerminal_cases id g (isAbandoned id gone) (settleWriter id) w.fs with
      hj | ⟨a, c, -, -, -, -, hj⟩
    · simp [hj] at hop
    · have hw : (settleWriter id c).journal w.fs = [] := by simp [settleWriter, hr]
      rw [hj, hw, List.nil_append, List.mem_singleton] at hop
      subst hop
      rfl
  | none =>
    rcases journal_publishTerminal_cases id g (isAbandoned id gone) (settleWriter id) w.fs with
      hj | ⟨a, c, -, he, -, -, hj⟩
    · rw [hj]
      exact .quiet h.unpublished trivial (by simp)
    · have hw : ∃ (r : TicketResult) (row : HistoryRow), row.id = id ∧
          (settleWriter id c).journal w.fs = .writeResult id r :: [.appendHistory row] :=
        ⟨_, _, rfl, by simp [settleWriter, hr]; exact ⟨rfl, rfl⟩⟩
      obtain ⟨r, row, hrow, hw⟩ := hw
      have hq : (filesFor w.fs id).queued = [] := by
        simp only [isAbandoned, Bool.and_eq_true, Option.isNone_iff_eq_none] at he
        exact List.head?_eq_none_iff.1 he.1.2
      rw [hj, hw]
      exact once_row (some row) h.counted h.unpublished hr hq (by simpa using hrow)

/-- **A step of `lane cancel` or of a reconciliation publishes once.** -/
theorem pubOk_callerMove (h : PubInv w) (hnone : w.sups.read l.actor = none)
    (hread : w.callers.read l.actor = some c) (hs : StepOk w l m)
    (hblind : ∀ id r, c.Blind → FileOp.writeResult id r ∈ m.journal →
      w.fs.results.read id = none ∧ (filesFor w.fs id).queued = [])
    (hmove : callerMove w l c = some m) : PubOk w l m := by
  have hok := h.inv.callers _ _ hread
  have hpend := pendingOps_caller hnone hread
  unfold callerMove at hmove
  dsimp only at hmove
  split at hmove
  case h_1 id hact =>
    cases hl : w.fs.leases.read id <;> rw [hl] at hmove <;> obtain rfl := Option.some.inj hmove
    · exact .quiet h hs (by simp [Move.silent]) (.look hnone (.readingAttempt id) rfl rfl)
    · exact .quiet h hs (by simp [Move.silent]) (.look hnone (.leaseSeen id _) rfl rfl)
  case h_2 id hact =>
    cases ha : w.fs.attempts.read id <;> rw [ha] at hmove <;> obtain rfl := Option.some.inj hmove
    · exact .quiet h hs (by simp [Move.silent]) (.drop hnone rfl)
    · exact .quiet h hs (by simp [Move.silent]) (.look hnone (.attemptSeen id _ false) rfl rfl)
  case h_3 id hact =>
    cases ha : w.fs.attempts.read id <;> rw [ha] at hmove <;> obtain rfl := Option.some.inj hmove
    · exact .quiet h hs (by simp [Move.silent]) (.drop hnone rfl)
    · exact .quiet h hs (by simp [Move.silent]) (.look hnone (.attemptSeen id _ true) rfl rfl)
  case h_4 id lease hact =>
    cases ha : w.fs.attempts.read id <;> rw [ha] at hmove <;> obtain rfl := Option.some.inj hmove
    · refine .quiet h hs (by simp [Move.silent]) (.caller hnone rfl ⟨?_, ?_⟩ ?_)
      · simp [Caller.pending, plainLeaseOps]
      · simp [Caller.pending, plainLeaseOps]
      · simp [Caller.pending, plainLeaseOps]
    · exact .quiet h hs (by simp [Move.silent]) (.look hnone (.publishingLease id lease _) rfl rfl)
  case h_5 gone id a orphanOnly hact =>
    split_ifs at hmove <;> obtain rfl := Option.some.inj hmove
    · exact .quiet h hs (by simp [Move.single]) (.look hnone (.confirming id a) rfl rfl)
    · exact .quiet h hs (by simp [Move.silent]) (.drop hnone rfl)
    · exact .quiet h hs (by simp [Move.single]) (.look hnone (.awaitingSupervisor id) rfl rfl)
  case h_6 id lease hact =>
    obtain rfl := Option.some.inj hmove
    exact .quiet h hs (by simp [Move.single]) (.look hnone (.leaseMarked id lease) rfl rfl)
  case h_7 gone id lease hact =>
    split_ifs at hmove <;> obtain rfl := Option.some.inj hmove
    · exact .quiet h hs (by simp [Move.silent]) (.look hnone (.leaseOrphan id lease) rfl rfl)
    · exact .quiet h hs (by simp [Move.silent]) (.drop hnone rfl)
  case h_8 confirmed id a hact =>
    obtain rfl := Option.some.inj hmove
    cases confirmed with
    | true =>
      exact .quiet h hs (by simp [Move.silent]) (.look hnone (.publishingCancel id a) rfl rfl)
    | false => exact .quiet h hs (by simp [Move.silent]) (.drop hnone rfl)
  case h_9 r gone id a hact =>
    obtain rfl := Option.some.inj hmove
    exact .once h (h.once_caller (rowWriter_row id remoteCancelledResult none)
      fun r hr => hblind id r trivial hr) (.drop hnone rfl)
  case h_10 r gone id lease a hact =>
    obtain rfl := Option.some.inj hmove
    refine .once h (h.once_caller (rowWriter_cancelLease id a.executor)
      fun r hr => hblind id r trivial hr) ?_
    have hrelease : PendNext w l (w.inSection (publishTerminal id a.generation expectAny
        (cancelLeaseWriter id a.executor)) fun _ w => w.setCaller l.actor
          (.performing id [.unlinkLease id, .unlinkSuperseded id])) :=
      .caller hnone rfl ⟨by simp [Caller.pending], by simp [Caller.pending]⟩
        (by simp [Caller.pending])
    cases hv : (publishTerminal id a.generation expectAny
      (cancelLeaseWriter id a.executor)).value w.fs with
    | published b | alreadyPublished =>
      simp only [World.inSection, hv]
      exact hrelease
    | stale | refused => exact .drop hnone (by simp only [World.inSection, hv])
  case h_11 r gone id a hact =>
    split_ifs at hmove with hsound
    obtain rfl := Option.some.inj hmove
    exact .once h (h.once_caller (rowWriter_verdict id r) fun r hr => hblind id r trivial hr)
      (.drop hnone rfl)
  case h_12 r gone id a hact =>
    split_ifs at hmove with hsound
    obtain rfl := Option.some.inj hmove
    exact .once h (h.once_settle hs.move.guarded) (.drop hnone rfl)
  case h_13 id op ops hact =>
    obtain rfl := Option.some.inj hmove
    refine .pending h hpend rfl ?_ (hok.2.2 op (List.mem_cons_self ..)) fun r hr => ?_
    · exact pendingOps_caller (c := .performing id ops) hnone (Dir.read_write_self _ _ _)
    · exact hblind id r trivial (by rw [hr]; exact List.mem_singleton_self _)
  case h_14 id hact =>
    obtain rfl := Option.some.inj hmove
    exact .quiet h hs (by simp [Move.silent]) (.drop hnone rfl)
  case h_15 hact =>
    obtain rfl := Option.some.inj hmove
    exact .quiet h hs (by simp [Move.silent]) (.exit rfl)
  case h_16 => exact absurd hmove (by simp)

/-! ### Starting, and reaping -/

/-- **A step that needs no memory of its process publishes once.** -/
theorem pubOk_anyMove (h : PubInv w) (hs : StepOk w l m) (hmove : anyMove w l = some m) :
    PubOk w l m := by
  have hfresh : w.fresh l.actor = true → w.sups.read l.actor = none := by
    intro hf
    simp only [World.fresh, Bool.and_eq_true, Option.isNone_iff_eq_none] at hf
    exact hf.1
  unfold anyMove at hmove
  dsimp only at hmove
  split at hmove
  case h_1 id remote hact =>
    split_ifs at hmove with hf
    obtain rfl := Option.some.inj hmove
    exact .quiet h hs (by simp [Move.silent]) (.phase ⟨id, remote, none, .submitted, true⟩ rfl rfl)
  case h_2 id hact =>
    split_ifs at hmove with hf
    obtain rfl := Option.some.inj hmove
    refine .quiet h hs (fun op hop => ?_) ?_
    · cases hq : findQueueFile w.fs id with
      | none => simp [World.inSection, cancelQueued, hq] at hop
      | some e =>
        have hj : (cancelQueued id).journal w.fs =
            (dequeueSync id).journal w.fs ++ [.writeCancelMarker id] := by
          simp [cancelQueued, hq]
        rw [World.inSection, hj] at hop
        rcases List.mem_append.1 hop with hop | hop
        · exact (publishes_dequeueSync op hop).1
        · rw [List.mem_singleton.1 hop]
          rfl
    · cases hv : (cancelQueued id).value w.fs with
      | true => exact .stay (by simp [World.inSection, hv])
      | false => exact .look (hfresh hf) (.readingLease id) (by simp [World.inSection, hv]) rfl
  case h_3 id gone hact =>
    split_ifs at hmove with hf
    rw [Bool.and_eq_true] at hf
    cases ha : w.fs.attempts.read id with
    | none => simp [ha] at hmove
    | some a =>
      rw [ha] at hmove
      dsimp only at hmove
      split_ifs at hmove
      obtain rfl := Option.some.inj hmove
      exact .quiet h hs (by simp [Move.silent]) (.look (hfresh hf.1) (.reconciling id a) rfl rfl)
  case h_4 id gone hact =>
    split_ifs at hmove with hf
    rw [Bool.and_eq_true] at hf
    obtain rfl := Option.some.inj hmove
    refine .once h (once_reapOrphanedQueue h.inv.tidy h.counted h.unpublished none gone) ?_
    cases ha : (applyAll ((reapOrphanedQueue none gone).journal w.fs) w.fs).attempts.read id with
    | none => exact .stay (by simp [World.inSection, Move.files, ha])
    | some a =>
      exact .look (hfresh hf.1) (.settlingLocal id a)
        (by simp [World.inSection, Move.files, ha]) rfl
  case h_5 keep gone released now hact =>
    split_ifs at hmove with hsound
    obtain rfl := Option.some.inj hmove
    exact .once h (once_reapStale h.inv.tidy (fun _ hid => h.inv.heldAlive hsound hid) h.counted
      h.unpublished keep released now) (.stay rfl)
  case h_6 gone hact =>
    split_ifs at hmove with hsound
    obtain rfl := Option.some.inj hmove
    exact .once h (once_reapOrphanedQueue h.inv.tidy h.counted h.unpublished none gone)
      (.stay rfl)
  case h_7 b hact =>
    obtain rfl := Option.some.inj hmove
    exact .quiet h hs (by simp [Move.single]) (.stay rfl)
  case h_8 => exact absurd hmove (by simp)

/-- **Every step publishes once.** -/
theorem pubOk_move (h : PubInv w) (hsafe : PublishSafe w l) (hs : StepOk w l m)
    (hmove : move w l = some m) : PubOk w l m := by
  have hwhole := hmove
  unfold move at hmove
  split at hmove
  case h_1 sup hread =>
    split_ifs at hmove with halive
    rcases hsup : supMove w l sup with _ | m'
    · rw [hsup] at hmove
      exact pubOk_anyMove h hs hmove
    · rw [hsup] at hmove
      obtain rfl := Option.some.inj hmove
      exact pubOk_supMove h hread halive hs hsup
  case h_2 c hnone hread =>
    exact pubOk_callerMove h hnone hread hs
      (fun id r hb hr => hsafe.blind c m id r hread hb hwhole hr) hmove
  case h_3 => exact pubOk_anyMove h hs hmove

end Steps

/-! ### Runs -/

theorem pubInv_start {w : World} (h : brokerMachine.start w) : PubInv w := by
  have hinv := inv_start h
  obtain rfl : w = ⟨.init, .empty, .empty⟩ := h
  exact ⟨hinv, ⟨fun _ _ => ⟨rfl, rfl⟩, fun _ => Nat.zero_le _, fun _ => Nat.zero_le _⟩,
    fun _ _ => rfl, fun _ => .nil, by simp [World.pendingOps], by simp [World.pendingOps]⟩

theorem pubInv_step {w w' : World} {l : Label} (h : PubInv w) (hsafe : PublishSafe w l)
    (hnext : brokerMachine.next w l = some w') :
    PubInv w' ∧ ∃ ops, BeforeEach PublishesOnce ops w.fs ∧ w'.fs = applyAll ops w.fs := by
  obtain ⟨m, hmove, rfl⟩ := Option.map_eq_some_iff.1 hnext
  have hs := stepOk_move h.inv hsafe.recoverySafe hmove
  have hm := pubOk_move h hsafe hs hmove
  have hwhole : m.outcome w l = m.remember (m.files w) := by
    unfold Move.outcome
    rw [hsafe.complete]
    rfl
  rw [hwhole]
  exact ⟨h.step hs hm, m.journal, hm.each, hs.fs⟩

theorem pubInv_of_reach {w : World} (h : brokerMachine.Reach PublishSafe w) : PubInv w :=
  h.invariant (fun _ => pubInv_start) fun _ _ _ h hsafe hnext => (pubInv_step h hsafe hnext).1

/-! ### What the verdict of `publishTerminal` makes of a result -/

/-- The step is a publish, at the generation `g`, whose writer follows the verdict: the remote
supervisor's, `lane cancel`'s and the reconciliation's of a remote attempt. -/
def FollowsVerdict (w : World) (l : Label) (id : TicketId) (g : ℕ) : Prop :=
  (∃ sup r, w.sups.read l.actor = some sup ∧ l.act = .publishRemote r ∧ sup.id = id ∧
    sup.generation = some g) ∨
  w.sups.read l.actor = none ∧ ∃ c a r gone, w.callers.read l.actor = some c ∧
    l.act = .callerPublish r gone ∧ a.generation = g ∧
    (c = .publishingCancel id a ∨ (∃ lease, c = .publishingLease id lease a) ∨
      c = .reconciling id a)

/-- A writer that writes the cancelled result when it is told of the cancel. -/
def CancelWriter (w : Bool → Section Unit) : Prop :=
  ∀ s i r, FileOp.writeResult i r ∈ (w true).journal s → r.cancelled = true

theorem cancelled_of_publishTerminal {id : TicketId} {g : ℕ} {s : Broker}
    {expect : Broker → Attempt → Bool} {wr : Bool → Section Unit} (hw : CancelWriter wr)
    (h : isCancelled s id = true ∨
      ∃ a, s.attempts.read id = some a ∧ a.generation ≠ g) {i : TicketId} {r : TicketResult}
    (hr : FileOp.writeResult i r ∈ (publishTerminal id g expect wr).journal s) :
    r.cancelled = true := by
  rcases journal_publishTerminal_cases id g expect wr s with hj | ⟨a, c, ha, -, hc, hg, hj⟩
  · simp [hj] at hr
  · have htrue : c = true := by
      rcases h with h | ⟨b, hb, hne⟩
      · rw [← hc, h]
      · by_contra hfalse
        rw [ha] at hb
        obtain rfl := Option.some.inj hb
        exact hne (hg (by simpa using hfalse))
    subst htrue
    rw [hj] at hr
    rcases List.mem_append.1 hr with hr | hr
    · exact hw s i r hr
    · simp at hr

theorem cancelWriter_verdict (id : TicketId) (r : TicketResult) :
    CancelWriter (verdictWriter id r) := by
  intro s i r' hr
  simp only [verdictWriter, if_true, journal_writeResultRow, List.mem_cons, List.not_mem_nil,
    or_false, reduceCtorEq, FileOp.writeResult.injEq] at hr
  rw [hr.2]
  rfl

theorem cancelWriter_cancelAttempt (id : TicketId) : CancelWriter (cancelAttemptWriter id) :=
  cancelWriter_verdict id remoteCancelledResult

theorem cancelWriter_cancelLease (id : TicketId) (e : Executor) :
    CancelWriter (cancelLeaseWriter id e) := by
  intro s i r hr
  simp only [cancelLeaseWriter, Locked.journal_bind, Locked.journal_read, Locked.value_read,
    Locked.after_read, List.nil_append, journal_writeResultRow, List.mem_cons,
    List.not_mem_nil, or_false, reduceCtorEq, FileOp.writeResult.injEq] at hr
  rw [hr.2, withSupersession_cancelled]
  rfl

/-- **A publish that follows the verdict writes the cancelled result** when the marker is there,
and when its generation is no longer the record's. -/
theorem written_follows_verdict {w : World} {l : Label} {m : Move} {id : TicketId} {g : ℕ}
    (hf : FollowsVerdict w l id g) (hmove : move w l = some m)
    (h : isCancelled w.fs id = true ∨
      ∃ a, w.fs.attempts.read id = some a ∧ a.generation ≠ g) {i : TicketId} {r : TicketResult}
    (hr : FileOp.writeResult i r ∈ m.journal) : r.cancelled = true := by
  rcases hf with ⟨sup, r', hread, hact, rfl, hg⟩ |
    ⟨hnone, c, a, r', gone, hread, hact, rfl, hcase⟩
  · have hany : anyMove w l = none := by simp [anyMove, hact]
    simp only [move, hread, hany] at hmove
    split_ifs at hmove
    replace hmove : supMove w l sup = some m := by
      cases hsup : supMove w l sup with
      | none => simp [hsup] at hmove
      | some m' => simpa [hsup] using hmove
    have hj : m.journal =
        (publishTerminal sup.id g expectAny (verdictWriter sup.id r')).journal w.fs := by
      cases hph : sup.phase <;>
        simp only [supMove, hact, hg, hph, reduceCtorEq, Option.some.injEq] at hmove <;>
        (rw [← hmove]; rfl)
    rw [hj] at hr
    exact cancelled_of_publishTerminal (cancelWriter_verdict sup.id r') h hr
  · simp only [move, hnone, hread] at hmove
    rcases hcase with rfl | ⟨lease, rfl⟩ | rfl
    · simp only [callerMove, hact] at hmove
      obtain rfl := Option.some.inj hmove
      exact cancelled_of_publishTerminal (cancelWriter_cancelAttempt id) h hr
    · simp only [callerMove, hact] at hmove
      obtain rfl := Option.some.inj hmove
      exact cancelled_of_publishTerminal (cancelWriter_cancelLease id a.executor) h hr
    · simp only [callerMove, hact] at hmove
      split_ifs at hmove
      obtain rfl := Option.some.inj hmove
      exact cancelled_of_publishTerminal (cancelWriter_verdict id r') h hr

/-! ### The result -/

/-- A local ticket that is enqueued and started. -/
def startedLocally : List Label :=
  [⟨1, .launch 7 false, none⟩, ⟨1, .enqueue 0 [] remoteCancelledResult, none⟩,
    ⟨1, .tryStart true [] [] 0, none⟩]

/-- A remote ticket that falls back to the local queue. -/
def fellBack : List Label :=
  [⟨1, .launch 7 true, none⟩, ⟨1, .createAttempt 0 remoteCancelledResult, none⟩,
    ⟨1, .fallbackToLocal "no runner", none⟩, ⟨1, .enqueue 0 [] remoteCancelledResult, none⟩]

/-- It is started, and a `lane cancel` that finds its lease writes the marker. -/
def cancelledLate : List Label :=
  fellBack ++ [⟨1, .tryStart true [] [] 0, none⟩, ⟨2, .cancelCommand 7, none⟩,
    ⟨2, .callerRead, none⟩, ⟨2, .callerMark, none⟩]

/-- Its supervisor dies while it is queued, the queue reap settles it, and a `lane cancel` finds
the attempt record the reap left. -/
def cancelledAgain : List Label :=
  fellBack ++ [⟨1, .die, none⟩, ⟨3, .reapQueue [1], none⟩, ⟨2, .cancelCommand 7, none⟩,
    ⟨2, .callerRead, none⟩, ⟨2, .callerRead, none⟩, ⟨2, .callerJudge [1], none⟩,
    ⟨2, .callerConfirm true, none⟩, ⟨2, .callerPublish remoteCancelledResult [], none⟩]

/-- The result of a local run that ended with exit 0. -/
def exitZero : TicketResult :=
  { exit := some 0, cancelled := false, reason := none, executor := some .local,
    reconciled := false }

end LaneBroker
