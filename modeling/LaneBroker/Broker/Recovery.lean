/-
# Every ticket in one place, whatever crashes

The invariant of the broker machine behind `withdrawQueued`, `restoreQueued`,
`recoverRebinding` and `reapOrphanedQueue`: in every run in which

* no crash falls between a restore's queue write and its unlink of the parked file, nor inside a
  terminal publish of a ticket that is parked with an attempt that was never dispatched, and
* an id is not submitted a second time while an earlier supervisor, `lane cancel` or
  reconciliation of that id still works on it with nothing of it left on disk,

every ticket is in at most one of the three places, it keeps the seq it was enqueued with, and
no queue file is written for a ticket that has a terminal result
(`recovery_keeps_one_place`).  Without the first condition the third part fails
(`restore_cut_requeues_finished_ticket`): the passes that follow find the parked file of a
restore that was cut, and put the ticket back after its result was published.

The invariant `Inv` says of every ticket that its files are in order, of every supervisor that is
alive and past the ownership check that the files of its ticket name it and agree with what it
remembers (`PhaseOk`), and of every caller that what it read is still worth acting on
(`CallerOk`).
-/

import LaneBroker.Broker.Guarded
import LaneBroker.Broker.Processes

namespace LaneBroker

open LaneBroker.Basis

/-! ### The sections a supervisor runs on its own ticket -/

section OwnSections

variable {X : TicketId → Prop} {K : Prop} {s : Broker} {id : TicketId} {p : Proc}
  {now g : ℕ}

theorem createAttempt_cases (id : TicketId) (p : Proc) (now : ℕ) (s : Broker) :
    ((createAttempt id p now).value s = .taken ∧ existingTicket s id none = none ∧
        (createAttempt id p now).journal s = [.writeAttempt id (newAttempt p now)]) ∨
      (createAttempt id p now).value s ≠ .taken ∧
        (createAttempt id p now).journal s = [] ∧
        ((createAttempt id p now).value s = .migrating → existingTicket s id none = none) := by
  cases he : existingTicket s id none with
  | some e => exact .inr ⟨by simp [createAttempt, he], by simp [createAttempt, he],
      by simp [createAttempt, he]⟩
  | none =>
    cases hm : s.migrating with
    | true => exact .inr ⟨by simp [createAttempt, he, hm], by simp [createAttempt, he, hm],
        fun _ => rfl⟩
    | false => exact .inl ⟨by simp [createAttempt, he, hm], rfl, by simp [createAttempt, he, hm]⟩

theorem journal_markSuperseded {losers : List (TicketId × TicketId)} {op : FileOp}
    (h : op ∈ (markSuperseded losers).journal s) : op.about = none ∧ op.publishes = false := by
  induction losers generalizing s with
  | nil => simp [markSuperseded, List.forM] at h
  | cons e es ih =>
    have hj : (markSuperseded (e :: es)).journal s =
        [.writeSuperseded e.1 e.2, .writeCancelMarker e.1] ++ (markSuperseded es).journal
          (applyAll [FileOp.writeSuperseded e.1 e.2, .writeCancelMarker e.1] s) := rfl
    rw [hj] at h
    rcases List.mem_append.1 h with h | h
    · simp only [List.mem_cons, List.not_mem_nil, or_false] at h
      rcases h with rfl | rfl <;> exact ⟨rfl, rfl⟩
    · exact ih h

/-- The queue file `enqueue` writes. -/
def enqueuedRecord (s : Broker) (id : TicketId) (p : Proc) (now : ℕ) : QueueRecord :=
  { id := id, seq := s.seqCounter + 1, supervisor := p, localSince := now }

theorem enqueue_cases (id : TicketId) (p : Proc) (now : ℕ) (g : Option ℕ)
    (losers : List (TicketId × TicketId)) (s : Broker) :
    ((enqueue id p now g losers).value s = .taken ∧ existingTicket s id g = none ∧
        ∃ marks, (∀ op ∈ marks, FileOp.about op = none ∧ op.publishes = false) ∧
          (enqueue id p now g losers).journal s =
            .bumpSeq id :: .writeQueue ⟨s.seqCounter + 1, id⟩ (enqueuedRecord s id p now) ::
              marks) ∨
      (enqueue id p now g losers).value s ≠ .taken ∧
        (enqueue id p now g losers).journal s = [] ∧
        ((enqueue id p now g losers).value s = .migrating → existingTicket s id g = none) := by
  cases he : existingTicket s id g with
  | some e => exact .inr ⟨by simp [enqueue, he], by simp [enqueue, he], by simp [enqueue, he]⟩
  | none =>
    cases hm : s.migrating with
    | true =>
      exact .inr ⟨by simp [enqueue, he, hm], by simp [enqueue, he, hm], fun _ => rfl⟩
    | false =>
      refine .inl ⟨by simp [enqueue, he, hm], rfl, (markSuperseded losers).journal (applyAll
        [FileOp.bumpSeq id, .writeQueue ⟨s.seqCounter + 1, id⟩ (enqueuedRecord s id p now)] s),
        fun op hop => journal_markSuperseded hop, ?_⟩
      simp only [enqueue, he, hm, Locked.journal_bind, Locked.journal_read, Locked.value_read,
        Locked.after_read, List.nil_append, Bool.false_eq_true, if_false, Locked.journal_pure,
        List.append_nil]
      rfl

/-- The withdrawal of a ticket that is queued in one file: that file is renamed and the attempt
marked, or nothing changes in the end. -/
theorem withdrawQueued_cases (id : TicketId) (p : Proc) (fault : Option WithdrawFault)
    (s : Broker) :
    (∃ n r, (withdrawQueued id p fault).value s = .withdrawn r ∧
        (filesFor s id).queued.head? = some (n, r) ∧ r.id = id ∧
        (withdrawQueued id p fault).journal s = .park n ::
          (patchAttemptLocked id fun a => { a with rebinding := some p }).journal
            ((FileOp.park n).apply s)) ∨
      (∀ r, (withdrawQueued id p fault).value s ≠ .withdrawn r) ∧
        ((withdrawQueued id p fault).journal s = [] ∨
          ∃ n r, (filesFor s id).queued.head? = some (n, r) ∧
            (withdrawQueued id p fault).journal s = [.park n, .unpark n]) := by
  cases hm : s.migrating with
  | true => exact .inr ⟨by simp [withdrawQueued, hm], .inl (by simp [withdrawQueued, hm])⟩
  | false =>
    cases hc : isCancelled s id with
    | true => exact .inr ⟨by simp [withdrawQueued, hm, hc],
        .inl (by simp [withdrawQueued, hm, hc])⟩
    | false =>
      cases hq : findQueueFile s id with
      | none => exact .inr ⟨by simp [withdrawQueued, hm, hc, hq],
          .inl (by simp [withdrawQueued, hm, hc, hq])⟩
      | some e =>
        obtain ⟨n, r⟩ := e
        by_cases hid : r.id = id
        · cases fault with
          | none =>
            refine .inl ⟨n, r, by simp [withdrawQueued, hm, hc, hq, hid], hq, hid, ?_⟩
            simp [withdrawQueued, hm, hc, hq, hid]
            rfl
          | some f =>
            refine .inr ⟨?_, ?_⟩
            · cases f <;> simp [withdrawQueued, hm, hc, hq, hid]
            · cases f
              · exact .inl (by simp [withdrawQueued, hm, hc, hq])
              · exact .inr ⟨n, r, hq, by simp [withdrawQueued, hm, hc, hq, hid]⟩
              · exact .inr ⟨n, r, hq, by simp [withdrawQueued, hm, hc, hq, hid]⟩
        · exact .inr ⟨by simp [withdrawQueued, hm, hc, hq, hid],
            .inl (by simp [withdrawQueued, hm, hc, hq, hid])⟩

/-- What `tryStart` does after its reaping, to the state `t` that the reaping left. -/
theorem tryStart_cases (id : TicketId) (p : Proc) (admitted : Bool) (gone : List Proc)
    (released : List TicketId) (now : ℕ) (s : Broker) :
    let reap := (reapStale (some id) gone released now).journal s
    let t := applyAll reap s
    ((tryStart id p admitted gone released now).value s = .started ∧
        (∃ n r, (filesFor t id).queued.head? = some (n, r)) ∧
        (tryStart id p admitted gone released now).journal s =
          reap ++ ((dequeueSync id).journal t ++ [.writeLease ⟨id, p, .running⟩])) ∨
      (tryStart id p admitted gone released now).value s ≠ .started ∧
        (tryStart id p admitted gone released now).journal s = reap := by
  intro reap t
  cases hq : findQueueFile t id with
  | none => exact .inr ⟨by simp [tryStart, reap, t, Locked.after] at hq ⊢; simp [hq],
      by simp [tryStart, reap, t, Locked.after] at hq ⊢; simp [hq]⟩
  | some e =>
    cases admitted with
    | false => exact .inr ⟨by simp [tryStart, reap, t, Locked.after] at hq ⊢; simp [hq],
        by simp [tryStart, reap, t, Locked.after] at hq ⊢; simp [hq]⟩
    | true =>
      cases hc : isCancelled t id with
      | true =>
        exact .inr ⟨by simp [tryStart, reap, t, Locked.after] at hq hc ⊢; simp [hq, hc],
          by simp [tryStart, reap, t, Locked.after] at hq hc ⊢; simp [hq, hc]⟩
      | false =>
        refine .inl ⟨?_, ⟨e.1, e.2, hq⟩, ?_⟩
        · simp [tryStart, reap, t, Locked.after] at hq hc ⊢; simp [hq, hc]
        · simp [tryStart, reap, t, Locked.after] at hq hc ⊢; simp [hq, hc]

end OwnSections

/-! ### The invariant -/

/-- A supervisor is past the ownership check and alive. -/
def Supervisor.Claims (sup : Supervisor) : Prop := sup.alive = true ∧ sup.phase ≠ .submitted

/-- The live supervisors that are past the ownership check. -/
def World.Claimed (w : World) (p : Proc) (sup : Supervisor) : Prop :=
  w.sups.read p = some sup ∧ sup.Claims

/-- No live supervisor works on the ticket. -/
def World.Unowned (w : World) (id : TicketId) : Prop := ∀ q sq, w.Claimed q sq → sq.id ≠ id

/-- A supervisor whose ticket left the queue for good. -/
def SupPhase.Left : SupPhase → Prop
  | .started | .leaving | .closing _ | .settled => True
  | _ => False

/-- **The operations of a publish without an attempt record**, as long as they are not all done:
they release the ticket, and at most the first one writes its result, which is not there yet. -/
structure ClosingOk (id : TicketId) (v : TicketFiles) (ops : List FileOp) : Prop where
  release : ∀ op ∈ ops, ReleaseOp id op
  once : ∀ i r, FileOp.writeResult i r ∉ ops.tail
  first : ∀ i r, ops.head? = some (.writeResult i r) → v.result = none

/-- **The files agree with what the ticket's live supervisor remembers.** -/
def PhaseOk (id : TicketId) (v : TicketFiles) : SupPhase → Prop
  | .submitted | .settled => True
  | .attempting | .fallen =>
      v.queued = [] ∧ v.parked = [] ∧ v.lease = none ∧ v.result = none
  | .queued => v.parked = [] ∧ v.lease = none ∧ v.result = none
  | .withdrawn r | .returning r => r.id = id ∧ v.result = none ∧ ∃ e, v.parked = [e]
  | .started | .leaving => v.queued = [] ∧ v.parked = [] ∧ v.result = none
  | .closing ops => v.queued = [] ∧ v.parked = [] ∧ ClosingOk id v ops

theorem PhaseOk.congr {id : TicketId} {v v' : TicketFiles} {ph : SupPhase}
    (h : PhaseOk id v ph) (hq : v.queued = [] → v'.queued = []) (hp : v'.parked = v.parked)
    (hl : v'.lease = v.lease) (hr : v'.result = v.result) : PhaseOk id v' ph := by
  cases ph <;> simp only [PhaseOk, hp, hl, hr] at h ⊢
  case attempting | fallen | started | leaving => exact ⟨hq h.1, h.2⟩
  case closing ops => exact ⟨hq h.1, h.2.1, { h.2.2 with first := hr ▸ h.2.2.first }⟩
  all_goals exact h

/-- Every record of a ticket names the one supervisor. -/
structure Names (p : Proc) (v : TicketFiles) : Prop where
  files : ∀ e ∈ v.queued ++ v.parked, e.2.supervisor = p
  lease : ∀ l, v.lease = some l → l.supervisor = p
  attempt : ∀ a, v.attempt = some a → a.supervisor = p

/-- **What a live supervisor can rely on.** -/
structure Owned (p : Proc) (sup : Supervisor) (v : TicketFiles) : Prop where
  names : Names p v
  phase : PhaseOk sup.id v sup.phase
  /-- The generation its fences act on is the record's. -/
  generation : ∀ g a, sup.generation = some g → v.attempt = some a → a.generation = g

/-- **What a caller read is still worth acting on**: its ticket's supervisor is the one it read,
and once it judged that one dead, no live supervisor has the ticket. -/
def CallerOk (w : World) : Caller → Prop
  | .attemptSeen id a _ => ∀ q sq, w.Claimed q sq → sq.id = id → a.supervisor = q
  | .confirming id _ | .publishingCancel id _ => w.Unowned id
  | .leaseSeen id l | .leaseMarked id l => (filesFor w.fs id).parked = [] ∧
      ∀ q sq, w.Claimed q sq → sq.id = id → l.supervisor = q ∧ sq.phase.Left
  | .leaseOrphan id _ | .publishingLease id _ _ =>
      (filesFor w.fs id).parked = [] ∧ w.Unowned id
  | .performing id ops => (filesFor w.fs id).parked = [] ∧ w.Unowned id ∧
      ∀ op ∈ ops, ReleaseOp id op
  | _ => True

/-- **The invariant of the broker.** -/
structure Inv (w : World) : Prop where
  tidy : AllTidy w.fs
  unique : ∀ p q sp sq, w.Claimed p sp → w.Claimed q sq → sp.id = sq.id → p = q
  owned : ∀ p sp, w.Claimed p sp → Owned p sp (filesFor w.fs sp.id)
  callers : ∀ p c, w.callers.read p = some c → CallerOk w c

/-! ### The conditions on a run -/

/-- The step crashes before an operation, and in a state, that satisfies `P`. -/
def CrashesWhere (w : World) (l : Label) (P : FileOp → Broker → Prop) : Prop :=
  ∃ m k op, move w l = some m ∧ l.crashAt = some k ∧ (m.journal.drop k).head? = some op ∧
    P op (applyAll (m.journal.take k) w.fs)

/-- The process is about to take an id of which nothing is on disk. -/
def Takes (w : World) (l : Label) (id : TicketId) : Prop :=
  ∃ sup, w.sups.read l.actor = some sup ∧ sup.id = id ∧ sup.phase = .submitted ∧
    existingTicket w.fs id none = none ∧
    ((∃ now r, l.act = .createAttempt now r) ∨ ∃ now ls r, l.act = .enqueue now ls r)

/-- A caller acts on what it read of the ticket's lease or attempt, not under a fence that reads
it again. -/
def Caller.Holds : Caller → Prop
  | .attemptSeen .. | .confirming .. | .publishingCancel .. | .leaseSeen .. | .leaseMarked ..
  | .leaseOrphan .. | .publishingLease .. | .performing .. => True
  | _ => False

/-- No live supervisor has the id, and no `lane cancel` acts on what it read of it. -/
def World.Alone (w : World) (id : TicketId) : Prop :=
  w.Unowned id ∧ ∀ q c, w.callers.read q = some c → c.Holds → c.id ≠ id

/-- **The steps after which recovery can be relied on.** -/
structure RecoverySafe (w : World) (l : Label) : Prop where
  /-- No crash between a restore's queue write and its unlink of the parked file. -/
  restore : ¬ CrashesWhere w l fun op _ => CutsRestore op
  /-- No crash inside the terminal publish of a ticket parked with an undispatched attempt. -/
  publish : ¬ CrashesWhere w l CutsPublish
  /-- An id is not taken again while an earlier process still works on it. -/
  submit : ∀ id, Takes w l id → w.Alone id

/-! ### Completing or cutting off a step -/

/-- What one step may do to the files of a ticket that another live supervisor has: dequeue
it. -/
structure Calm (v v' : TicketFiles) : Prop where
  queued : ∀ e ∈ v'.queued, e ∈ v.queued
  parked : v'.parked = v.parked
  lease : v'.lease = v.lease
  attempt : v'.attempt = v.attempt
  result : v'.result = v.result

theorem Calm.refl (v : TicketFiles) : Calm v v := ⟨fun _ h => h, rfl, rfl, rfl, rfl⟩

theorem Calm.owned {p : Proc} {sup : Supervisor} {v v' : TicketFiles} (h : Calm v v')
    (ho : Owned p sup v) : Owned p sup v' where
  names :=
    { files := fun e he => by
        rcases List.mem_append.1 he with he | he
        · exact ho.names.files e (List.mem_append_left _ (h.queued e he))
        · exact ho.names.files e (List.mem_append_right _ (h.parked ▸ he))
      lease := h.lease ▸ ho.names.lease
      attempt := h.attempt ▸ ho.names.attempt }
  phase := ho.phase.congr (fun hq => List.eq_nil_iff_forall_not_mem.2 fun e he => by
    have := h.queued e he
    simp [hq] at this) h.parked h.lease h.result
  generation := h.attempt ▸ ho.generation

/-- **What every step gives**: its journal is safe, other live supervisors' tickets are at most
dequeued by any part of it, and only the queued ticket of the process itself is withdrawn. -/
structure MoveOk (w : World) (l : Label) (m : Move) : Prop where
  guarded : BeforeEach Guarded m.journal w.fs
  tidy : AllTidy (applyAll m.journal w.fs)
  calm : ∀ q sq, w.Claimed q sq → q ≠ l.actor → ∀ k,
    Calm (filesFor w.fs sq.id) (filesFor (applyAll (m.journal.take k) w.fs) sq.id)
  park : ∀ n, FileOp.park n ∈ m.journal →
    ∃ sup, w.Claimed l.actor sup ∧ sup.id = n.id ∧ sup.phase = .queued

section Steps

variable {w w' : World} {l : Label} {m : Move} {p : Proc} {sup : Supervisor}

/-- A safe section about the tickets that no other live supervisor has. -/
theorem MoveOk.of_safe {K : TicketId → Prop}
    (h : SafeSection (fun id => ∀ q sq, w.Claimed q sq → sq.id = id → q = l.actor) K
      m.journal w.fs)
    (hpark : ∀ i, K i → ∃ sup, w.Claimed l.actor sup ∧ sup.id = i ∧ sup.phase = .queued) :
    MoveOk w l m where
  guarded := h.1.mono fun _ _ ho => ho.toGuarded
  tidy := h.2
  calm q sq hq hne k := by
    rw [filesFor_applyAll_of_ne fun op hop hid =>
      hne (h.about (List.mem_of_mem_take hop) hid q sq hq rfl)]
    exact .refl _
  park n hn := hpark _ (h.park hn)

theorem MoveOk.silent (h : Inv w) (k : World → World) : MoveOk w l (.silent k) :=
  .of_safe (K := fun _ => False) (.nil h.tidy) fun _ hf => hf.elim

/-- A ticket whose lease a caller read is never withdrawn again, so it has no parked file. -/
theorem MoveOk.parked_nil (hm : MoveOk w l m) {id : TicketId}
    (hp : (filesFor w.fs id).parked = [])
    (hleft : ∀ sq, w.Claimed l.actor sq → sq.id = id → sq.phase.Left) (k : ℕ) :
    (filesFor (applyAll (m.journal.take k) w.fs) id).parked = [] := by
  refine parked_applyAll_of_nil (fun n hn hid => ?_) hp
  obtain ⟨sq, hc, hsid, hph⟩ := hm.park n (List.mem_of_mem_take hn)
  have := hleft sq hc (hsid.trans hid)
  rw [hph] at this
  exact this

/-- A caller that reads again before it acts relies on nothing. -/
theorem CallerOk.of_not_holds {c : Caller} (h : ¬ c.Holds) : CallerOk w c := by
  cases c <;> first | trivial | exact absurd trivial h

/-- A caller other than the process that acts keeps what it can rely on. -/
theorem CallerOk.keep {c : Caller} (h : CallerOk w c)
    (hclaims : ∀ q sq, w'.Claimed q sq → sq.id = c.id →
      ∃ sq₀, w.Claimed q sq₀ ∧ sq₀.id = c.id ∧ (sq₀.phase.Left → sq.phase.Left))
    (hparked : (filesFor w.fs c.id).parked = [] →
      (∀ q sq, w.Claimed q sq → sq.id = c.id → sq.phase.Left) →
        (filesFor w'.fs c.id).parked = []) : CallerOk w' c := by
  have hun : ∀ id, c.id = id → w.Unowned id → w'.Unowned id := by
    rintro id hid h q sq hq hsq
    obtain ⟨sq₀, hq₀, hid₀, -⟩ := hclaims q sq hq (hsq.trans hid.symm)
    exact h q sq₀ hq₀ (hid₀.trans hid)
  cases c with
  | attemptSeen id a o =>
    intro q sq hq hsq
    obtain ⟨sq₀, hq₀, hid₀, -⟩ := hclaims q sq hq hsq
    exact h q sq₀ hq₀ hid₀
  | confirming id a => exact hun id rfl h
  | publishingCancel id a => exact hun id rfl h
  | leaseSeen id lease | leaseMarked id lease =>
    refine ⟨hparked h.1 fun q sq hq hsq => (h.2 q sq hq hsq).2, fun q sq hq hsq => ?_⟩
    obtain ⟨sq₀, hq₀, hid₀, hleft⟩ := hclaims q sq hq hsq
    exact ⟨(h.2 q sq₀ hq₀ hid₀).1, hleft (h.2 q sq₀ hq₀ hid₀).2⟩
  | leaseOrphan id lease | publishingLease id lease a =>
    exact ⟨hparked h.1 fun q sq hq hsq => absurd hsq (h.2 q sq hq), hun id rfl h.2⟩
  | performing id ops =>
    exact ⟨hparked h.1 fun q sq hq hsq => absurd hsq (h.2.1 q sq hq), hun id rfl h.2.1, h.2.2⟩
  | readingLease | readingAttempt | awaitingSupervisor | reconciling | settlingLocal => trivial

/-- **The invariant after a step**, from what the step does to the files and from what the
process that acts remembers afterwards. -/
theorem Inv.step (h : Inv w) (hm : MoveOk w l m) {k : ℕ}
    (hfs : w'.fs = applyAll (m.journal.take k) w.fs) (htidy : AllTidy w'.fs)
    (hsups : ∀ q, q ≠ l.actor → w'.sups.read q = w.sups.read q)
    (hcallers : ∀ q, q ≠ l.actor → w'.callers.read q = w.callers.read q)
    (hown : ∀ sup', w'.Claimed l.actor sup' → Owned l.actor sup' (filesFor w'.fs sup'.id) ∧
      ((∃ sup, w.Claimed l.actor sup ∧ sup.id = sup'.id ∧ (sup.phase.Left → sup'.phase.Left)) ∨
        w.Alone sup'.id))
    (hcaller : ∀ c, w'.callers.read l.actor = some c →
      w.callers.read l.actor = some c ∨ CallerOk w' c) : Inv w' := by
  have hclaimed : ∀ q sq, q ≠ l.actor → (w'.Claimed q sq ↔ w.Claimed q sq) := by
    intro q sq hq
    rw [World.Claimed, World.Claimed, hsups q hq]
  have huniq : ∀ q sq sup', q ≠ l.actor → w'.Claimed q sq → w'.Claimed l.actor sup' →
      sq.id ≠ sup'.id := by
    intro q sq sup' hq hcq hca hid
    rcases (hown sup' hca).2 with ⟨sup, hsup, hsid, -⟩ | halone
    · exact hq (h.unique q l.actor sq sup ((hclaimed q sq hq).1 hcq) hsup (hid.trans hsid.symm))
    · exact halone.1 q sq ((hclaimed q sq hq).1 hcq) hid
  refine ⟨htidy, fun q q' sq sq' hq hq' hid => ?_, fun q sq hq => ?_, fun q c hc => ?_⟩
  · by_cases ha : q = l.actor
    · by_cases ha' : q' = l.actor
      · rw [ha, ha']
      · exact absurd hid.symm (huniq q' sq' sq ha' hq' (ha ▸ hq))
    · by_cases ha' : q' = l.actor
      · exact absurd hid (huniq q sq sq' ha hq (ha' ▸ hq'))
      · exact h.unique q q' sq sq' ((hclaimed q sq ha).1 hq) ((hclaimed q' sq' ha').1 hq') hid
  · by_cases ha : q = l.actor
    · subst ha
      exact (hown sq hq).1
    · have hq₀ := (hclaimed q sq ha).1 hq
      rw [hfs]
      exact (hm.calm q sq hq₀ ha k).owned (h.owned q sq hq₀)
  · have hkept : w.callers.read q = some c ∨ CallerOk w' c := by
      by_cases ha : q = l.actor
      · subst ha
        exact hcaller c hc
      · exact .inl (hcallers q ha ▸ hc)
    rcases hkept with hc | hok
    · by_cases hholds : c.Holds
      swap
      · exact .of_not_holds hholds
      refine (h.callers q c hc).keep (fun q' sq hq' hid => ?_) fun hp hleft => ?_
      · by_cases ha' : q' = l.actor
        · subst ha'
          rcases (hown sq hq').2 with ⟨sup, hsup, hsid, hleft⟩ | halone
          · exact ⟨sup, hsup, hsid.trans hid, hleft⟩
          · exact absurd hid.symm (halone.2 q c hc hholds)
        · exact ⟨sq, (hclaimed q' sq ha').1 hq', hid, fun h => h⟩
      · rw [hfs]
        exact hm.parked_nil hp (fun sq hsq => hleft _ sq hsq) k
    · exact hok

/-- The world with one process gone. -/
theorem World.kill_fs (w : World) (p : Proc) : (w.kill p).fs = w.fs := by
  unfold World.kill
  split <;> rfl

theorem World.kill_sups (w : World) {p q : Proc} (h : q ≠ p) :
    (w.kill p).sups.read q = w.sups.read q := by
  unfold World.kill
  split
  · exact Dir.read_write_of_ne _ _ h
  · rfl

theorem World.kill_callers (w : World) (p q : Proc) :
    (w.kill p).callers.read q = if q = p then none else w.callers.read q := by
  have : (w.kill p).callers = w.callers.unlink p := by
    unfold World.kill
    split <;> rfl
  rw [this, Dir.read_unlink]

theorem World.not_claimed_kill (w : World) (p : Proc) (sup : Supervisor) :
    ¬ (w.kill p).Claimed p sup := by
  rintro ⟨hread, halive, -⟩
  unfold World.kill at hread
  split at hread
  · rw [World.dropCaller, World.setSup, Dir.read_write_self] at hread
    rw [← Option.some.inj hread] at halive
    simp at halive
  · rename_i hnone
    rw [World.dropCaller, hnone] at hread
    simp at hread

/-- **The invariant after a process dies**, with any part of its step done that leaves every
ticket in order. -/
theorem Inv.kill (h : Inv w) (hm : MoveOk w l m) (k : ℕ)
    (htidy : AllTidy (applyAll (m.journal.take k) w.fs)) :
    Inv ({ w with fs := applyAll (m.journal.take k) w.fs }.kill l.actor) := by
  refine h.step hm (k := k) (World.kill_fs _ _) (by rwa [World.kill_fs]) (fun q hq => ?_)
    (fun q hq => ?_) (fun sup' hc => absurd hc (World.not_claimed_kill _ _ _)) fun c hc => ?_
  · rw [World.kill_sups _ hq]
  · rw [World.kill_callers, if_neg hq]
  · rw [World.kill_callers, if_pos rfl] at hc
    exact absurd hc (by simp)

/-- **A crash that the run's condition allows leaves every ticket in order.** -/
theorem MoveOk.tidy_crash (hm : MoveOk w l m) (hsafe : RecoverySafe w l)
    (hmove : move w l = some m) {k : ℕ} (hk : l.crashAt = some k) :
    AllTidy (applyAll (m.journal.take k) w.fs) := by
  rcases hm.guarded.crash k with ⟨op, hop, hg⟩ | hdone
  · rcases hg.tidy with ht | hr | hp
    · exact ht
    · exact absurd ⟨m, k, op, hmove, hk, hop, hr⟩ hsafe.restore
    · exact absurd ⟨m, k, op, hmove, hk, hop, hp⟩ hsafe.publish
  · rw [hdone]
    exact hm.tidy

end Steps

/-! ### The steps of a supervisor -/

/-- The supervisor a record names, when the operation writes a ticket's record. -/
def FileOp.named : FileOp → Option Proc
  | .writeQueue _ r => some r.supervisor
  | .writeLease l => some l.supervisor
  | .writeAttempt _ a => some a.supervisor
  | _ => none

theorem names_moveFile {p : Proc} {n : QueueName} {d d' : Dir QueueName QueueRecord}
    {id : TicketId} (h : ∀ e ∈ filesOf d id, e.2.supervisor = p)
    (h' : ∀ e ∈ filesOf d' id, e.2.supervisor = p) :
    (∀ e ∈ filesOf (moveFile n d d').1 id, e.2.supervisor = p) ∧
      ∀ e ∈ filesOf (moveFile n d d').2 id, e.2.supervisor = p := by
  unfold moveFile
  split
  · rename_i r hr
    refine ⟨fun e he => h e ?_, fun e he => ?_⟩
    · obtain ⟨he, hid⟩ := mem_filesOf.1 he
      exact mem_filesOf.2 ⟨(Dir.mem_unlink.1 he).1, hid⟩
    · obtain ⟨he, hid⟩ := mem_filesOf.1 he
      rcases Dir.mem_write.1 he with ⟨he, -⟩ | rfl
      · exact h' e (mem_filesOf.2 ⟨he, hid⟩)
      · exact h (n, r) (hid ▸ mem_filesOf_of_read hr)
  · exact ⟨h, h'⟩

theorem Names.apply {p : Proc} {id : TicketId} {s : Broker} {op : FileOp}
    (h : Names p (filesFor s id))
    (hop : op.about = some id → ∀ q, op.named = some q → q = p) :
    Names p (filesFor (op.apply s) id) := by
  by_cases habout : op.about = some id
  · have hfiles : ∀ e ∈ filesOf s.queue id ++ filesOf s.parked id, e.2.supervisor = p := h.files
    have hq : ∀ e ∈ filesOf s.queue id, e.2.supervisor = p :=
      fun e he => hfiles e (List.mem_append_left _ he)
    have hp : ∀ e ∈ filesOf s.parked id, e.2.supervisor = p :=
      fun e he => hfiles e (List.mem_append_right _ he)
    have hnew := hop habout
    cases op <;> simp only [FileOp.about, Option.some.injEq, reduceCtorEq] at habout <;>
      subst habout
    case bumpSeq i => exact ⟨h.files, h.lease, h.attempt⟩
    case writeQueue n r =>
      rw [filesFor_writeQueue]
      refine { h with files := fun e he => ?_ }
      rcases List.mem_append.1 he with he | he
      · rcases List.mem_append.1 he with he | he
        · exact hq e (List.mem_of_mem_filter he)
        · rw [List.mem_singleton.1 he]
          exact hnew _ rfl
      · exact hp e he
    case unlinkQueue n =>
      rw [filesFor_unlinkQueue]
      refine { h with files := fun e he => ?_ }
      rcases List.mem_append.1 he with he | he
      · exact hq e (List.mem_of_mem_filter he)
      · exact hp e he
    case park n =>
      have hm := names_moveFile (n := n) hq hp
      exact { h with files := fun e he => (List.mem_append.1 he).elim (hm.1 e) (hm.2 e) }
    case unpark n =>
      have hm := names_moveFile (n := n) hp hq
      exact { h with files := fun e he => (List.mem_append.1 he).elim (hm.2 e) (hm.1 e) }
    case unlinkParked u n =>
      rw [filesFor_unlinkParked]
      refine { h with files := fun e he => ?_ }
      rcases List.mem_append.1 he with he | he
      · exact hq e he
      · exact hp e (List.mem_of_mem_filter he)
    case writeLease l =>
      rw [filesFor_writeLease]
      refine { h with lease := ?_ }
      rintro l' ⟨rfl⟩
      exact hnew _ rfl
    case unlinkLease i =>
      rw [filesFor_unlinkLease]
      exact { h with lease := by simp }
    case writeResult i r => exact { h with }
    case writeAttempt i a =>
      rw [filesFor_writeAttempt]
      refine { h with attempt := ?_ }
      rintro a' ⟨rfl⟩
      exact hnew _ rfl
    case unlinkAttempt i =>
      rw [filesFor_unlinkAttempt]
      exact { h with attempt := by simp }
  · rw [filesFor_apply_of_ne habout]
    exact h

theorem Names.applyAll {p : Proc} {id : TicketId} {s : Broker} {ops : List FileOp}
    (h : Names p (filesFor s id))
    (hops : ∀ op ∈ ops, op.about = some id → ∀ q, op.named = some q → q = p) :
    Names p (filesFor (applyAll ops s) id) := by
  induction ops generalizing s with
  | nil => exact h
  | cons op ops ih =>
    exact ih (h.apply (hops op (List.mem_cons_self ..)))
      fun o ho => hops o (List.mem_cons_of_mem _ ho)

/-- Operations that write no attempt record leave the record at its generation, or remove it. -/
theorem attempt_applyAll {id : TicketId} {s : Broker} {ops : List FileOp}
    (hops : ∀ op ∈ ops, op.named = none) {a : Attempt}
    (ha : (filesFor (applyAll ops s) id).attempt = some a) :
    (filesFor s id).attempt = some a := by
  induction ops generalizing s with
  | nil => exact ha
  | cons op ops ih =>
    have hstep := ih (fun o ho => hops o (List.mem_cons_of_mem _ ho)) ha
    have hop := hops op (List.mem_cons_self ..)
    by_cases habout : op.about = some id
    · cases op <;> simp only [FileOp.about, Option.some.injEq, reduceCtorEq] at habout <;>
        try subst habout
      case writeAttempt i b => exact absurd hop (by simp [FileOp.named])
      case unlinkAttempt i => simp [filesFor, Effects.apply, FileOp.apply] at hstep
      all_goals exact hstep
    · rw [← filesFor_apply_of_ne habout]
      exact hstep

theorem Owned.generation_applyAll {p : Proc} {sup : Supervisor} {id : TicketId} {s : Broker}
    {ops : List FileOp} (h : Owned p sup (filesFor s id)) (hops : ∀ op ∈ ops, op.named = none) :
    ∀ g a, sup.generation = some g → (filesFor (applyAll ops s) id).attempt = some a →
      a.generation = g :=
  fun g a hg ha => h.generation g a hg (attempt_applyAll hops ha)

/-- The world after the file operations of a step, before anyone remembers them. -/
def Move.files (m : Move) (w : World) : World := { w with fs := applyAll m.journal w.fs }

/-- **A step that keeps the invariant**, and changes what its own process remembers only. -/
structure StepOk (w : World) (l : Label) (m : Move) : Prop where
  move : MoveOk w l m
  inv : Inv (m.remember (m.files w))
  fs : (m.remember (m.files w)).fs = applyAll m.journal w.fs
  sups : ∀ q, q ≠ l.actor → (m.remember (m.files w)).sups.read q = w.sups.read q
  callers : ∀ q, q ≠ l.actor → (m.remember (m.files w)).callers.read q = w.callers.read q

section StepRules

variable {w w' : World} {l : Label} {m : Move} {sup : Supervisor} {c : Caller}

/-- A section about a supervisor's own ticket is about no other live supervisor's. -/
theorem Inv.moveOk {K : TicketId → Prop} (h : Inv w) (hc : w.Claimed l.actor sup)
    (hs : SafeSection (· = sup.id) K m.journal w.fs)
    (hpark : ∀ i, K i → i = sup.id ∧ sup.phase = .queued) : MoveOk w l m := by
  refine .of_safe (hs.mono fun i hi q sq hq hid => ?_) fun i hi => ?_
  · exact h.unique q l.actor sq sup hq hc (hid.trans hi)
  · obtain ⟨rfl, hph⟩ := hpark i hi
    exact ⟨sup, hc, rfl, hph⟩

/-- A section about tickets that no live supervisor has. -/
theorem MoveOk.of_unowned {X : TicketId → Prop} (hX : ∀ i, X i → w.Unowned i)
    (hs : SafeSection X (fun _ => False) m.journal w.fs) : MoveOk w l m :=
  .of_safe (hs.mono fun i hi q sq hq hid => absurd hid (hX i hi q sq hq)) fun _ hf => hf.elim

/-- **The step rule**: the step's files in order, and its own party's memory justified. -/
theorem StepOk.of (h : Inv w) (hm : MoveOk w l m) (hrem : m.remember (m.files w) = w')
    (hfs : w'.fs = (m.files w).fs)
    (hsups : ∀ q, q ≠ l.actor → w'.sups.read q = w.sups.read q)
    (hcallers : ∀ q, q ≠ l.actor → w'.callers.read q = w.callers.read q)
    (hown : ∀ sup', w'.Claimed l.actor sup' → Owned l.actor sup' (filesFor w'.fs sup'.id) ∧
      ((∃ sup, w.Claimed l.actor sup ∧ sup.id = sup'.id ∧ (sup.phase.Left → sup'.phase.Left)) ∨
        w.Alone sup'.id))
    (hcaller : ∀ c, w'.callers.read l.actor = some c →
      w.callers.read l.actor = some c ∨ CallerOk w' c) : StepOk w l m := by
  refine ⟨hm, hrem ▸ h.step hm (k := m.journal.length) ?_ ?_ hsups hcallers hown hcaller,
    hrem ▸ hfs, hrem ▸ hsups, hrem ▸ hcallers⟩
  · rw [List.take_length, hfs]
    rfl
  · rw [hfs]
    exact hm.tidy

/-- The supervisor goes on to another phase, on a ticket that it has, or that it takes. -/
theorem StepOk.set (sup' : Supervisor) (h : Inv w) (hm : MoveOk w l m)
    (hrem : m.remember (m.files w) = (m.files w).setSup l.actor sup')
    (hclaim : (∃ sup, w.Claimed l.actor sup ∧ sup.id = sup'.id ∧
      (sup.phase.Left → sup'.phase.Left)) ∨ w.Alone sup'.id)
    (howned : Owned l.actor sup' (filesFor (m.files w).fs sup'.id)) : StepOk w l m := by
  refine .of h hm hrem rfl (fun q hq => Dir.read_write_of_ne _ _ hq) (fun q hq => rfl)
    (fun sup'' hc' => ?_) fun c hcc => .inl hcc
  obtain rfl : sup' = sup'' := by
    have := hc'.1
    rw [World.setSup, Dir.read_write_self] at this
    exact Option.some.inj this
  exact ⟨howned, hclaim⟩

/-- The process stays as it is. -/
theorem StepOk.stay (h : Inv w) (hm : MoveOk w l m) (hrem : m.remember (m.files w) = m.files w)
    (howned : ∀ sup, w.Claimed l.actor sup →
      Owned l.actor sup (filesFor (m.files w).fs sup.id)) : StepOk w l m :=
  .of h hm hrem rfl (fun _ _ => rfl) (fun _ _ => rfl)
    (fun sup hc => ⟨howned sup hc, .inl ⟨sup, hc, rfl, fun h => h⟩⟩) fun _ hcc => .inl hcc

/-- The process ends with its step. -/
theorem StepOk.exit (h : Inv w) (hm : MoveOk w l m)
    (hrem : m.remember (m.files w) = (m.files w).kill l.actor) : StepOk w l m := by
  have := h.kill hm m.journal.length (by rw [List.take_length]; exact hm.tidy)
  rw [List.take_length] at this
  refine ⟨hm, hrem ▸ this, ?_, fun q hq => ?_, fun q hq => ?_⟩ <;> rw [hrem]
  · exact World.kill_fs _ _
  · exact World.kill_sups _ hq
  · rw [World.kill_callers, if_neg hq]
    rfl

/-- A caller goes on, with what it read or judged still worth acting on. -/
theorem StepOk.caller (h : Inv w) (hm : MoveOk w l m) (hnone : w.sups.read l.actor = none)
    (hrem : m.remember (m.files w) = (m.files w).setCaller l.actor c)
    (hc : CallerOk (m.files w) c) : StepOk w l m := by
  refine .of h hm hrem rfl (fun _ _ => rfl) (fun q hq => Dir.read_write_of_ne _ _ hq)
    (fun sup hs => ?_) fun c' hc' => ?_
  · have := hs.1
    rw [World.setCaller, Move.files, hnone] at this
    simp at this
  · rw [World.setCaller, Dir.read_write_self] at hc'
    obtain rfl := Option.some.inj hc'
    exact .inr hc

/-- A caller is finished. -/
theorem StepOk.drop (h : Inv w) (hm : MoveOk w l m) (hnone : w.sups.read l.actor = none)
    (hrem : m.remember (m.files w) = (m.files w).dropCaller l.actor) : StepOk w l m := by
  refine .of h hm hrem rfl (fun _ _ => rfl) (fun q hq => Dir.read_unlink_of_ne _ hq)
    (fun sup hs => ?_) fun c' hc' => ?_
  · have := hs.1
    rw [World.dropCaller, Move.files, hnone] at this
    simp at this
  · rw [World.dropCaller, Dir.read_unlink_self] at hc'
    simp at hc'

end StepRules

end LaneBroker
