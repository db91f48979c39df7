/-
# Every ticket in one place, whatever crashes

The result about `withdrawQueued`, `restoreQueued`, `recoverRebinding`, `discardRebinding`,
`tryStart`, the cancels and `reapOrphanedQueue` together: in every run whose steps are
`RecoverySafe` each ticket is in at most one of queue, parked files and leases, its files carry
the seq it was enqueued with, and no file operation puts a ticket into the queue that has a
terminal result (`recovery_keeps_one_place`).

Without the condition the last part fails (`restore_cut_requeues_finished_ticket`).  A crash
between the two writes of a restore leaves the queue file and the parked file.  The next pass
finds the ticket in the queue, keeps the parked file, and publishes and dequeues the ticket; the
pass after that finds a parked file with an attempt that was not dispatched, does not look at the
result, and restores it.
-/

import LaneBroker.Broker.RecoverySteps

namespace LaneBroker

open LaneBroker.Basis

/-- **A state directory with every ticket in one place**, under the seq it was enqueued with. -/
structure OnePlace (s : Broker) : Prop where
  places : ∀ id, (filesFor s id).places ≤ 1
  seq : ∀ id, ∀ e ∈ (filesFor s id).queued ++ (filesFor s id).parked,
    e.2.seq = e.1.seq ∧ s.seqOf.read id = some e.1.seq

/-- **A step that puts tickets back right**: each queue file it puts there is that of a ticket
with no terminal result, at the seq the ticket was enqueued with. -/
def PutsBackRight (w : World) (l : Label) : Prop :=
  ∀ m, move w l = some m → BeforeEach (fun op s => ∀ n, op.requeues = some n →
    s.results.read n.id = none ∧ s.seqOf.read n.id = some n.seq) m.journal w.fs

theorem inv_start {w : World} (h : brokerMachine.start w) : Inv w := by
  obtain rfl : w = ⟨.init, .empty, .empty⟩ := h
  refine ⟨tidy_empty, fun p q sp sq hp => ?_, fun p sp hp => ?_, fun p c hc => ?_⟩
  · exact absurd hp.1 (by simp)
  · exact absurd hp.1 (by simp)
  · exact absurd hc (by simp)

/-- One step, completed or cut off by a crash. -/
theorem inv_step {w w' : World} {l : Label} (h : Inv w) (hsafe : RecoverySafe w l)
    (hnext : brokerMachine.next w l = some w') : Inv w' := by
  obtain ⟨m, hmove, rfl⟩ := Option.map_eq_some_iff.1 hnext
  have hok := stepOk_move h hsafe hmove
  unfold Move.outcome
  split
  case h_1 hcrash => exact hok.inv
  case h_2 k hcrash => exact h.kill hok.move k (hok.move.tidy_crash hsafe hmove hcrash)

theorem inv_of_reach {w : World} (h : brokerMachine.Reach RecoverySafe w) : Inv w :=
  h.invariant (fun _ => inv_start) fun _ _ _ => inv_step

/-- **In every run of safe steps every ticket is in one place**, and no step puts a finished
ticket back or changes a seq. -/
theorem recovery_keeps_one_place {w : World} (h : brokerMachine.Reach RecoverySafe w) :
    OnePlace w.fs ∧ ∀ l, RecoverySafe w l → PutsBackRight w l := by
  have hinv := inv_of_reach h
  refine ⟨⟨fun id => (hinv.tidy id).places, fun id e he => ?_⟩, fun l hsafe m hmove => ?_⟩
  · exact ((hinv.tidy id).named e he).2
  · exact (stepOk_move hinv hsafe hmove).move.guarded.mono fun op s hg n hn => hg.requeue n hn

/-- A run in which a supervisor starts its ticket and crashes between the dequeue and the
lease. -/
def cutStart : List Label :=
  [⟨1, .launch 7 false, none⟩, ⟨1, .enqueue 0 [] remoteCancelledResult, none⟩,
    ⟨1, .tryStart true [] [] 0, some 1⟩]

theorem recovery_keeps_one_place_cutStart :
    ∃ w, brokerMachine.exec ⟨.init, .empty, .empty⟩ cutStart = some w ∧
      OnePlace w.fs ∧ ∀ l, RecoverySafe w l → PutsBackRight w l := by
  have hcomplete : ∀ {w : World} {l : Label} {P : FileOp → Broker → Prop}, l.crashAt = none →
      ¬ CrashesWhere w l P := by
    rintro w l P hl ⟨m, k, op, -, hk, -⟩
    rw [hl] at hk
    exact absurd hk (by simp)
  refine ⟨_, rfl, recovery_keeps_one_place
    (Machine.reach_of_exec cutStart (.start rfl) ⟨?_, ?_⟩ rfl)⟩
  · refine ⟨hcomplete rfl, hcomplete rfl, ?_⟩
    rintro id ⟨sup, hread, -⟩
    exact absurd hread (by simp)
  · rintro w hw
    obtain rfl := Option.some.inj hw
    refine ⟨⟨hcomplete rfl, hcomplete rfl, fun id _ => ⟨?_, ?_⟩⟩, ?_⟩
    · rintro q sq ⟨hread, -, hs⟩
      change (Dir.write .empty 1 _).read q = some sq at hread
      rw [Dir.read_write] at hread
      split_ifs at hread
      · obtain rfl := Option.some.inj hread
        exact absurd rfl hs
      · exact absurd hread (by simp)
    · rintro q c hc
      exact absurd hc (by simp [Move.outcome, Move.silent, World.setSup])
    · rintro w hw
      obtain rfl := Option.some.inj hw
      refine ⟨⟨?_, ?_, ?_⟩, fun _ _ => trivial⟩
      · rintro ⟨m, k, op, hm, hk, hop, n, hcut⟩
        obtain rfl := Option.some.inj hm
        obtain rfl := Option.some.inj hk
        obtain rfl := Option.some.inj hop
        simp at hcut
      · rintro ⟨m, k, op, hm, hk, hop, id, hcut, -⟩
        obtain rfl := Option.some.inj hm
        obtain rfl := Option.some.inj hk
        obtain rfl := Option.some.inj hop
        simp at hcut
      · rintro id ⟨sup, -, -, -, -, ⟨now, r, hact⟩ | ⟨now, ls, r, hact⟩⟩ <;> simp at hact

/-- A remote ticket that falls back to the local queue and is withdrawn for a rebind, and whose
supervisor crashes between the two writes of the restore; then a pass of another process. -/
def cutRestore : List Label :=
  [⟨1, .launch 7 true, none⟩, ⟨1, .createAttempt 0 remoteCancelledResult, none⟩,
    ⟨1, .fallbackToLocal "no runner", none⟩, ⟨1, .enqueue 0 [] remoteCancelledResult, none⟩,
    ⟨1, .withdrawQueued none, none⟩, ⟨1, .abandonRebind, none⟩,
    ⟨1, .restoreQueued 0, some 1⟩, ⟨2, .reapStale none [1] [] 0, none⟩]

/-- **A restore that was cut is found again after the ticket finished**: the second pass puts the
ticket back into the queue although the first one published its result. -/
theorem restore_cut_requeues_finished_ticket :
    ¬ ∀ w, brokerMachine.Reach (fun _ _ => True) w → ∀ l, PutsBackRight w l := by
  intro h
  have hreach : ∀ w, brokerMachine.exec ⟨.init, .empty, .empty⟩ cutRestore = some w →
      brokerMachine.Reach (fun _ _ => True) w := fun w hw =>
    Machine.reach_of_exec _ (.start rfl) (Machine.along_of_forall (fun _ _ => trivial) _ _) hw
  have hback := h _ (hreach _ rfl) ⟨2, .reapStale none [1] [] 0, none⟩ _ rfl
  have hresult := (hback.1 ⟨1, 7⟩ rfl).1
  revert hresult
  decide

end LaneBroker
