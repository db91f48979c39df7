/-
# The places that a ticket moves over

A ticket starts on the submitter's machine, and its supervisor may send it to a runner, take it
back, send it to another, or run it itself (`dispatchRemoteAttempt`).  It gives a runner up on a
proof: an answered withdrawal, a record that settles the ticket, a confirmed cancel, a snapshot
that never arrived whole; or because the operator says that the runner is offline.  On every runner
that the ticket was ever sent to, the exec, the supervisor and the requests go on meanwhile, in any
order and with any of them killed.  Still the command can start only in the place that has the
ticket, or on a runner that is not as offline as the operator said (`starts_in_one_place`).

`ρ` stands for the tickets on the runners.  A retry that is to repair the cache of a runner
(`dispatchRemote`) takes a fresh id there: it is one more of them, and the record of the first says
that nothing ran.
-/

import LaneBroker.Runner.RunnerRecord
import Mathlib.Logic.Function.Basic

namespace LaneBroker
namespace Runner
namespace Moves

open LaneBroker.Basis RunnerRecord

variable {ρ : Type} [DecidableEq ρ]

/-! ### The machine -/

/-- Who has the ticket. -/
inductive Place (ρ : Type)
  | here
  | on (runner : ρ)
  deriving DecidableEq

/-- **A ticket, here and on every runner.** -/
structure Moving (ρ : Type) where
  worlds : ρ → World
  place : Place ρ
  /-- The runners whose exec read the whole snapshot. -/
  arrived : List ρ
  startedHere : Bool
  /-- The runners that were given up on a proof that says only that the ticket is over there. -/
  stoppedOn : List ρ
  /-- The runners that were given up because they are marked offline. -/
  offlineOn : List ρ

/-- **What happens to a ticket.** -/
inductive Act (ρ : Type)
  | onRunner (i : ρ) (l : Label)
  | dispatch (i : ρ)
  /-- the exec has read and verified the snapshot -/
  | arrive
  | startHere
  /-- the snapshot was not sent to its end, or the exec refused the stream before it made a
  ticket (`REMOTE_EXEC_NO_TICKET_EXIT`) -/
  | broken (dest : Place ρ)
  /-- a withdrawal was answered (`watchQueuedTicket`, or at the end of `dispatchRemote`) -/
  | withdrawn (k : ℕ) (dest : Place ρ)
  /-- a cancel was confirmed after the wait for the result, or of a job that is gone, and there is
  no record -/
  | cancelled (k : ℕ) (dest : Place ρ)
  /-- the record is there at the end of `dispatchRemote` -/
  | record (d : Dispatch) (f : Fetched) (expected : RunnerRecord.Binding) (rebooted : Bool)
    (dest : Place ρ)
  /-- the record is there when the supervisor waits for a proof (`awaitProof`) -/
  | reconciled (binding : Option RunnerRecord.Binding) (f : Fetched) (rebooted : Bool)
    (dest : Place ρ)
  /-- the record at the end of a rebind's dispatch says that the runner refused the ticket, which
  goes back to its place in the queue -/
  | refused (d : Dispatch) (f : Fetched) (expected : RunnerRecord.Binding) (rebooted : Bool)
  /-- the runner is marked offline meanwhile -/
  | offline (dest : Place ρ)

/-- The runner is given up. -/
def Moving.leave (s : Moving ρ) (dest : Place ρ) : Moving ρ := { s with place := dest }

/-- The runner is given up, and the command may have started there. -/
def Moving.leaveStopped (s : Moving ρ) (i : ρ) (dest : Place ρ) : Moving ρ :=
  { s with place := dest, stoppedOn := i :: s.stoppedOn }

/-- The record is the outcome. -/
def confirmed : Outcome → Bool
  | .confirmed .. => true
  | _ => false

/-- The submitter may go on with a job that is over on the runner. -/
def overThere : Outcome → Bool
  | .unconfirmed _ .runnerStopped | .unconfirmed _ .unsaid => true
  | _ => false

/-- The record that the runner serves. -/
def served (w : World) (rebooted : Bool) : Option TicketRecord :=
  (w.ticket.files.dir.bind (·.result)).map (servedRecord rebooted)

/-- **The next state.** -/
def Moving.next (s : Moving ρ) (a : Act ρ) : Option (Moving ρ) :=
  match a, s.place with
  | .onRunner i l, _ =>
    -- `onTicketCreated` comes after the snapshot was read to its end
    if l.act = .exec .onTicketCreated ∧ i ∉ s.arrived then none
    else ((s.worlds i).next l).map fun w => { s with worlds := Function.update s.worlds i w }
  | .dispatch i, .here => if s.startedHere then none else some { s with place := .on i }
  | .startHere, .here => some { s with startedHere := true }
  | .arrive, .on i => some { s with arrived := i :: s.arrived }
  | .broken dest, .on i => if i ∈ s.arrived then none else some (s.leave dest)
  | .withdrawn k dest, .on i =>
    if (s.worlds i).requests.read k = some (.replied (.withdraw .withdrawn)) then
      some (s.leave dest)
    else none
  | .cancelled k dest, .on i =>
    if (s.worlds i).requests.read k = some (.replied (.cancel true)) then
      some (s.leaveStopped i dest)
    else none
  | .record d f expected rebooted dest, .on i =>
    if served (s.worlds i) rebooted = some f.record then
      if (settle d f expected).runsElsewhere then some (s.leave dest)
      else if overThere (settle d f expected) then some (s.leaveStopped i dest)
      else none
    else none
  | .reconciled binding f rebooted dest, .on i =>
    if served (s.worlds i) rebooted = some f.record then
      if adoptOrAmbiguous binding f = .neverStarted then some (s.leave dest)
      else if adoptOrAmbiguous binding f = .runnerStopped then some (s.leaveStopped i dest)
      else none
    else none
  | .refused d f expected rebooted, .on i =>
    if served (s.worlds i) rebooted = some f.record ∧ confirmed (settle d f expected) = true ∧
        f.record.kind = .refused then
      some (s.leaveStopped i .here)
    else none
  | .offline dest, .on i => some { s with place := dest, offlineOn := i :: s.offlineOn }
  | _, _ => none

/-- **The machine**: no runner has heard of the ticket. -/
def moving (ρ : Type) [DecidableEq ρ] : Machine (Moving ρ) (Act ρ) where
  start s := s = ⟨fun _ => ⟨.unheard, .empty⟩, .here, [], false, [], []⟩
  next := Moving.next

/-- It is no record of the shape of older runners. -/
def Act.modern : Act ρ → Bool
  | .record _ f _ _ _ | .reconciled _ f _ _ => !isLegacyDeadQueuedRecord f
  | _ => true

/-- No runner is an older one. -/
def modern (_ : Moving ρ) (a : Act ρ) : Prop := a.modern = true

/-! ### A ticket whose snapshot did not arrive -/

/-- No exec got past the snapshot. -/
def Unread (t : Ticket) : Prop := t.started = false ∧ t.sup = .absent ∧ t.exec.stage ≠ .recorded

theorem Unread.perform {t : Ticket} (h : Unread t) (es : List RunnerOp) (crashAt : Option ℕ) :
    Unread (t.perform es crashAt) := by
  cases crashAt <;> exact h

/-- What the exec does ahead of `onTicketCreated`. -/
theorem Unread.exec {t : Ticket} (h : Unread t) {a : ExecAct} {m : TicketMove}
    (ha : a ≠ .onTicketCreated) (hm : execMove t a = some m) {u : Ticket} (hu : Unread u) :
    Unread (m.remember u) := by
  obtain ⟨-, -, hrecorded⟩ := h
  obtain ⟨hstarted, habsent, hexec⟩ := hu
  have hgoes {e : ExecPhase} (he : e.stage ≠ .recorded) : Unread (toExec e u) :=
    ⟨hstarted, habsent, he⟩
  unfold execMove at hm
  split at hm
  case h_1 =>
    cases hm
    simp only [Ticket.inSection]
    split_ifs
    · exact hgoes (by decide)
    · exact ⟨hstarted, habsent, hexec⟩
  case h_4 => exact absurd rfl ha
  case h_5 hphase | h_6 hphase => exact absurd (by rw [hphase]; rfl) hrecorded
  all_goals try split_ifs at hm
  all_goals cases hm
  all_goals exact hgoes (by simp [ExecPhase.stage])

theorem Unread.next {w w' : World} (h : Unread w.ticket) (hc : Coherent w.ticket) {l : Label}
    (ha : l.act ≠ .exec .onTicketCreated) (hn : w.next l = some w') : Unread w'.ticket := by
  unfold World.next at hn
  split at hn
  · rename_i a hact
    obtain ⟨m, hm, rfl⟩ := Option.map_eq_some_iff.1 hn
    have hne : a ≠ .onTicketCreated := fun he => ha (by rw [hact, he])
    unfold TicketMove.outcome
    split
    · exact h.exec hne hm (h.perform _ _)
    · rename_i k _
      obtain ⟨hstarted, habsent, hexec⟩ := h.perform m.journal (some k)
      simp only [Ticket.killExec]
      split_ifs
      · exact ⟨hstarted, habsent, hexec⟩
      · exact ⟨hstarted, habsent, fun he => by cases he⟩
  · obtain ⟨m, hm, rfl⟩ := Option.map_eq_some_iff.1 hn
    obtain ⟨-, habsent, -⟩ := h
    exact absurd habsent (sup_step hc hm).1
  · obtain ⟨m, -, rfl⟩ := Option.map_eq_some_iff.1 hn
    exact h.perform _ _
  · obtain ⟨journal, -, rfl⟩ := Option.map_eq_some_iff.1 hn
    exact h.perform _ _

/-! ### The invariant -/

/-- A runner that was given up: the ticket is barred there, or it is over and known to be. -/
def GivenUp (s : Moving ρ) (i : ρ) : Prop :=
  standing (s.worlds i).ticket = .barred ∨ i ∈ s.stoppedOn ∧ (standing (s.worlds i).ticket).Settled

/-- **Where a ticket is not, it does not start.** -/
structure Placed (s : Moving ρ) : Prop where
  reach : ∀ i, runnerMachine.Reach anyStep (s.worlds i)
  unread : ∀ i, i ∉ s.arrived → Unread (s.worlds i).ticket
  givenUp : ∀ i, s.place ≠ .on i → i ∈ s.arrived → i ∉ s.offlineOn → GivenUp s i
  here : s.startedHere = true → s.place = .here

variable {s s' : Moving ρ}

/-- A step on a runner. -/
theorem Placed.onRunner (h : Placed s) {i : ρ} {l : Label} {w : World}
    (harrived : l.act = .exec .onTicketCreated → i ∈ s.arrived)
    (hn : (s.worlds i).next l = some w) :
    Placed { s with worlds := Function.update s.worlds i w } := by
  have hinv := inv_reach (h.reach i)
  have hleads := (world_step hinv hn).2.2
  refine ⟨fun j => ?_, fun j hj => ?_, fun j hp hj ho => ?_, h.here⟩ <;>
    rcases eq_or_ne j i with rfl | hji
  · simpa using .step (h.reach j) trivial hn
  · simpa [Function.update_of_ne hji] using h.reach j
  · simpa using (h.unread j hj).next hinv.ticket (fun he => hj (harrived he)) hn
  · simpa [Function.update_of_ne hji] using h.unread j hj
  · refine (h.givenUp j hp hj ho).imp (fun hb => ?_) fun hs => ⟨hs.1, ?_⟩
    · simpa using hleads.barred hb
    · simpa using hleads.settled hs.2
  · simpa [GivenUp, Function.update_of_ne hji] using h.givenUp j hp hj ho

omit [DecidableEq ρ] in
/-- A runner that has the ticket is given up. -/
theorem Placed.leaves (h : Placed s) {i : ρ} (hp : s.place = .on i) {dest : Place ρ}
    {stopped offline : List ρ} (hstopped : s.stoppedOn ⊆ stopped) (hoffline : s.offlineOn ⊆ offline)
    (hover : i ∈ s.arrived → i ∉ offline → standing (s.worlds i).ticket = .barred ∨
      i ∈ stopped ∧ (standing (s.worlds i).ticket).Settled) :
    Placed { s with place := dest, stoppedOn := stopped, offlineOn := offline } := by
  refine ⟨h.reach, h.unread, fun j _ hj ho => ?_, fun hs => ?_⟩
  · rcases eq_or_ne j i with rfl | hji
    · exact hover hj ho
    · have hother : s.place ≠ .on j := fun he => hji (Place.on.inj (he.symm.trans hp))
      have hbefore := h.givenUp j hother hj fun hin => ho (hoffline hin)
      exact hbefore.imp id fun hs => ⟨hstopped hs.1, hs.2⟩
  · have hhere := h.here hs
    rw [hp] at hhere
    cases hhere

omit [DecidableEq ρ] in
/-- It is given up on a proof that it never started, -/
theorem Placed.leave (h : Placed s) {i : ρ} (hp : s.place = .on i) (dest : Place ρ)
    (hbarred : i ∈ s.arrived → standing (s.worlds i).ticket = .barred) : Placed (s.leave dest) :=
  h.leaves hp (List.Subset.refl _) (List.Subset.refl _) fun hin _ => .inl (hbarred hin)

omit [DecidableEq ρ] in
/-- or that it is over. -/
theorem Placed.leaveStopped (h : Placed s) {i : ρ} (hp : s.place = .on i) (dest : Place ρ)
    (hsettled : (standing (s.worlds i).ticket).Settled) : Placed (s.leaveStopped i dest) :=
  h.leaves hp (List.subset_cons_self ..) (List.Subset.refl _) fun _ _ =>
    .inr ⟨List.mem_cons_self .., hsettled⟩

theorem serves_of_served {w : World} {rebooted : Bool} {f : Fetched}
    (h : served w rebooted = some f.record) : Serves w.ticket f := by
  obtain ⟨r, hr, hrecord⟩ := Option.map_eq_some_iff.1 h
  obtain ⟨d, hd, hdr⟩ := Option.bind_eq_some_iff.1 hr
  exact ⟨d, r, rebooted, hd, hdr, hrecord.symm⟩

/-- **Every step keeps it.** -/
theorem Placed.next (h : Placed s) {a : Act ρ} (hok : modern s a) (hn : s.next a = some s') :
    Placed s' := by
  have hinv (i : ρ) : Inv (s.worlds i) := inv_reach (h.reach i)
  have hrecord {i : ρ} {f : Fetched} {rebooted : Bool}
      (hserved : served (s.worlds i) rebooted = some f.record) :
      (standing (s.worlds i).ticket).Settled ∧ ∀ expected, isLegacyDeadQueuedRecord f = false →
        provesNeverStarted f expected = true → standing (s.worlds i).ticket = .barred := by
    have hserves := serves_of_served hserved
    refine ⟨settled_of_serves (hinv i).ticket hserves, fun expected hnew hproves => ?_⟩
    exact barred_of_provesNeverStarted (truthful_reach (h.reach i)) hserves hnew hproves
  unfold Moving.next at hn
  split at hn
  case h_1 =>
    split_ifs at hn with hearly
    obtain ⟨w, hw, rfl⟩ := Option.map_eq_some_iff.1 hn
    exact h.onRunner (fun he => by_contra fun hnot => hearly ⟨he, hnot⟩) hw
  case h_2 i hp =>
    split_ifs at hn with hstarted
    cases hn
    have hother (j : ρ) : s.place ≠ .on j := by
      rw [hp]
      exact fun he => by cases he
    exact ⟨h.reach, h.unread, fun j _ => h.givenUp j (hother j), fun hs => absurd hs hstarted⟩
  case h_3 hp =>
    cases hn
    exact ⟨h.reach, h.unread, h.givenUp, fun _ => hp⟩
  case h_4 i hp =>
    cases hn
    refine ⟨h.reach, fun j hj => h.unread j fun hin => hj (List.mem_cons_of_mem _ hin),
      fun j hother hj => ?_, h.here⟩
    obtain rfl | hj := List.mem_cons.1 hj
    · exact absurd hp hother
    · exact h.givenUp j hother hj
  case h_5 dest i hp =>
    split_ifs at hn with harrived
    cases hn
    exact h.leave hp dest fun hin => absurd hin harrived
  case h_6 k dest i hp =>
    split_ifs at hn with hreply
    cases hn
    exact h.leave hp dest fun _ => (hinv i).requests k _ hreply
  case h_7 k dest i hp =>
    split_ifs at hn with hreply
    cases hn
    exact h.leaveStopped hp dest ((hinv i).requests k _ hreply)
  case h_8 d f expected rebooted dest i hp =>
    split_ifs at hn with hserved helsewhere hover
    · cases hn
      have hproves := provesNeverStarted_of_runsElsewhere helsewhere
      exact h.leave hp dest fun _ =>
        (hrecord hserved).2 expected (by simpa [modern, Act.modern] using hok) hproves
    · cases hn
      exact h.leaveStopped hp dest (hrecord hserved).1
  case h_9 binding f rebooted dest i hp =>
    split_ifs at hn with hserved hnever hstopped
    · cases hn
      obtain ⟨expected, hproves⟩ := provesNeverStarted_of_adopted hnever
      exact h.leave hp dest fun _ =>
        (hrecord hserved).2 expected (by simpa [modern, Act.modern] using hok) hproves
    · cases hn
      exact h.leaveStopped hp dest (hrecord hserved).1
  case h_10 d f expected rebooted i hp =>
    split_ifs at hn with hrefused
    cases hn
    exact h.leaveStopped hp .here (hrecord hrefused.1).1
  case h_11 dest i hp =>
    cases hn
    exact h.leaves hp (List.Subset.refl _) (List.subset_cons_self ..) fun _ ho =>
      absurd (List.mem_cons_self ..) ho
  case h_12 => cases hn

theorem placed_reach (h : (moving ρ).Reach modern s) : Placed s := by
  refine h.invariant (P := Placed) (fun s hs => ?_) fun s a s' hs hok hn => hs.next hok hn
  subst hs
  exact ⟨fun _ => .start rfl, fun _ _ => ⟨rfl, rfl, fun he => by cases he⟩,
    fun _ _ hin => absurd hin List.not_mem_nil, fun hs => by cases hs⟩

/-! ### One place -/

/-- What a step does on the runners: nothing, or a step of one of them. -/
theorem next_worlds {a : Act ρ} (hn : s.next a = some s') :
    s'.worlds = s.worlds ∨ ∃ i l w, (l.act = .exec .onTicketCreated → i ∈ s.arrived) ∧
      (s.worlds i).next l = some w ∧ s'.worlds = Function.update s.worlds i w := by
  unfold Moving.next at hn
  split at hn
  · split_ifs at hn with hearly
    obtain ⟨w, hw, rfl⟩ := Option.map_eq_some_iff.1 hn
    exact .inr ⟨_, _, w, fun he => by_contra fun hnot => hearly ⟨he, hnot⟩, hw, rfl⟩
  all_goals
    try split_ifs at hn
    all_goals cases hn
    all_goals exact .inl rfl

/-- Away from its place a ticket does not start, -/
theorem Placed.starts (h : Placed s) {a : Act ρ} (hn : s.next a = some s') {i : ρ}
    (hs : (s'.worlds i).ticket.started = true) :
    (s.worlds i).ticket.started = true ∨ s.place = .on i ∨ i ∈ s.offlineOn := by
  obtain hsame | ⟨j, l, w, harrived, hw, hworlds⟩ := next_worlds hn
  · exact .inl (by rwa [hsame] at hs)
  rw [hworlds] at hs
  rcases eq_or_ne i j with rfl | hij
  · rw [Function.update_self] at hs
    by_contra hnot
    simp only [not_or] at hnot
    obtain ⟨hbefore, hp, hoffline⟩ := hnot
    have hinv := inv_reach (h.reach i)
    by_cases hread : i ∈ s.arrived
    · have hbarred : standing (s.worlds i).ticket = .barred := by
        obtain hbarred | ⟨-, hbarred | hstarted⟩ := h.givenUp i hp hread hoffline
        · exact hbarred
        · exact hbarred
        · exact absurd (standing_eq_started.1 hstarted) hbefore
      have hleads := (world_step hinv hw).2.2
      rw [not_started_of_barred (hleads.barred hbarred)] at hs
      cases hs
    · have hunread := (h.unread i hread).next hinv.ticket (fun he => hread (harrived he)) hw
      rw [hunread.1] at hs
      cases hs
  · rw [Function.update_of_ne hij] at hs
    exact .inl hs

omit [DecidableEq ρ] in
/-- and where it did start before, it is over. -/
theorem Placed.started (h : Placed s) {i : ρ} (hs : (s.worlds i).ticket.started = true) :
    s.place = .on i ∨ i ∈ s.stoppedOn ∨ i ∈ s.offlineOn := by
  by_contra hnot
  simp only [not_or] at hnot
  obtain ⟨hp, hstopped, hoffline⟩ := hnot
  by_cases hread : i ∈ s.arrived
  · obtain hbarred | ⟨hin, -⟩ := h.givenUp i hp hread hoffline
    · rw [not_started_of_barred hbarred] at hs
      cases hs
    · exact hstopped hin
  · rw [(h.unread i hread).1] at hs
    cases hs

/-- It starts here only where it is here. -/
theorem startedHere_next {a : Act ρ} (hn : s.next a = some s') (hs : s'.startedHere = true) :
    s.startedHere = true ∨ s.place = .here := by
  unfold Moving.next at hn
  split at hn
  case h_3 hp => exact .inr hp
  case h_1 =>
    split_ifs at hn
    obtain ⟨w, -, rfl⟩ := Option.map_eq_some_iff.1 hn
    exact .inl hs
  all_goals
    try split_ifs at hn
    all_goals cases hn
    all_goals exact .inl hs

/-- **A ticket starts only in the place that has it.**  Whatever runs on the submitter's machine and
on all the runners, in any order: every step that starts the command, here or on a runner that was
not marked offline when it was given up, is in the place that has the ticket.  So but for that
place, for the runners where a record or a cancel said that the ticket is over and for those marked
offline, it never started anywhere; and where it started here, it stays here. -/
theorem starts_in_one_place (h : (moving ρ).Reach modern s) :
    (∀ a s', (moving ρ).next s a = some s' →
      (∀ i, (s'.worlds i).ticket.started = true →
        (s.worlds i).ticket.started = true ∨ s.place = .on i ∨ i ∈ s.offlineOn) ∧
      (s'.startedHere = true → s.startedHere = true ∨ s.place = .here)) ∧
    (∀ i, (s.worlds i).ticket.started = true →
      s.place = .on i ∨ i ∈ s.stoppedOn ∨ i ∈ s.offlineOn) ∧
    (s.startedHere = true → s.place = .here) := by
  have hplaced := placed_reach h
  exact ⟨fun a s' hn => ⟨fun i => hplaced.starts hn, startedHere_next hn⟩,
    fun i => hplaced.started, hplaced.here⟩

/-- A ticket that is withdrawn from the queue of one runner, whose supervisor polls on, and starts
on the next. -/
def movedRun : List (Act Bool) :=
  [.dispatch false, .arrive] ++ withdrawnRun.map (.onRunner false) ++
    [.withdrawn 0 (.on true), .arrive] ++ pollingRun.map (.onRunner false) ++
    ([.whole (.exec .intake), .whole (.exec .onTicketCreated), .whole (.exec .spawnSupervisor),
      .whole (.sup .enqueue), .whole (.sup (.tryStart false true true)),
      .whole (.sup .spawnCommand)] : List Label).map (.onRunner true)

theorem starts_in_one_place_moved :
    ∃ s, (moving Bool).exec ⟨fun _ => ⟨.unheard, .empty⟩, .here, [], false, [], []⟩ movedRun =
        some s ∧ (s.worlds false).ticket.started = false ∧
      (s.place = .on true ∨ true ∈ s.stoppedOn ∨ true ∈ s.offlineOn) :=
  ⟨_, rfl, rfl, (starts_in_one_place
    (Machine.reach_of_exec movedRun (.start rfl)
      (Machine.along_of_labels (by decide) _) rfl)).2.1 true rfl⟩

end Moves
end Runner
end LaneBroker
