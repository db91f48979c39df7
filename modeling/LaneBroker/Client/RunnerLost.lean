/-
# When a runner is given up

The unreachable clock of one runner: `applyContact`, `recordContact` and `recordPings` of
`runner-unreachable.js`, the bound of `reconcile` in `remote-reconcile.js`, and the sweeps and watcher
ticks that call it.  Any number of processes run side by side.  Each reads the time once, before its
contact or its sweep, and passes that time on; each update of the record is made under its lock, and a
sweep that found the runner down reads the record without.

The clock should hold a time at which no later success is known, and a ticket should be given up by it
only after so long without an answer (`Right`).  A failure that is recorded after a success, with a time
read before it, starts the clock in the past (`clock_is_back_dated`).  Where no failure does that, where
the clock is not read for a ticket that is then given up while a success is still to be recorded or
just before one, and where no answer goes unrecorded with the clock going, both hold in every state
(`right_of_undisturbed`).
-/

import LaneBroker.Basis.Machine
import Mathlib.Data.Fintype.Basic
import Mathlib.Logic.Function.Basic

namespace LaneBroker
namespace Client
namespace RunnerLost

open LaneBroker.Basis

/-! ### The record -/

/-- **What `runner-unreachable.json` has of a runner**, and of the last watcher tick. -/
structure Record where
  /-- The first failed contact of the current streak. -/
  since : Option ℕ := none
  beatAt : Option ℕ := none
  lastOkAt : Option ℕ := none
  deriving DecidableEq

/-- **`applyContact`.** -/
def applyContact (file : Record) (ok : Bool) (at_ : ℕ) : Record :=
  if ok then { file with since := none }
  else if file.since = none then { file with since := some at_ }
  else file

/-- **`recordContact`**: the record after it, and what it returns. -/
def recordContact (file : Record) (ok : Bool) (now : ℕ) : Record × Option ℕ :=
  let file := applyContact file ok now
  (file, if ok then none else file.since)

/-- **`recordPings`.** -/
def recordPings (file : Record) (ok : Bool) (now : ℕ) : Record :=
  { applyContact file ok now with
    beatAt := some now, lastOkAt := if ok then some now else file.lastOkAt }

/-- `HEARTBEAT_FRESH_MS`. -/
def HEARTBEAT_FRESH_MS : ℕ := 5 * 60000

/-- `heartbeatUpRunners`, of this runner. -/
def heartbeatUp (file : Record) (now : ℕ) : Bool :=
  file.beatAt.any (fun beatAt => now - beatAt ≤ HEARTBEAT_FRESH_MS) && file.since.isNone &&
    file.lastOkAt.any fun lastOkAt => now - lastOkAt ≤ HEARTBEAT_FRESH_MS

/-! ### The processes -/

/-- A sweep. -/
structure Sweep where
  vouchedUp : Bool
  down : Bool
  deriving DecidableEq

/-- **Where a process is.** -/
inductive Stage
  | ended
  | pinging
  /-- The ping is over, and when it was. -/
  | pinged (ok : Bool) (time : ℕ)
  /-- A sweep is about to be claimed. -/
  | claiming
  /-- Between two tickets of a sweep. -/
  | between
  /-- `fetchRemoteResult` is under way. -/
  | fetching
  | fetched (ok : Bool) (time : ℕ)
  /-- The answer is recorded, and the runner may be asked to cancel. -/
  | answered
  /-- The cancel is confirmed, and the result is fetched again. -/
  | cancelled
  /-- `publishUnreachable(since)`, read at this time. -/
  | holding (since time : ℕ)
  deriving DecidableEq

/-- **A process**, with the time that it read before it began. -/
structure Process where
  now : ℕ := 0
  sweep : Option Sweep := none
  stage : Stage := .ended
  deriving DecidableEq

/-- After a ticket: the next one of the sweep, which takes the runner for down where it gave no answer
and the heartbeat does not vouch for it. -/
def Process.after (pr : Process) (transport : Bool) : Process :=
  match pr.sweep with
  | none => { pr with stage := .ended }
  | some s =>
    { pr with stage := .between, sweep := some { s with down := s.down || transport && !s.vouchedUp } }

/-- The time of an answer that is still to be recorded. -/
def Process.unrecorded (pr : Process) : Option ℕ :=
  match pr.stage with
  | .pinged true time => some time
  | .fetched true time => some time
  | _ => none

/-- A ticket that was given up by the bound: when, and the answers of the runner until then. -/
structure Settlement where
  time : ℕ
  answers : List ℕ
  deriving DecidableEq

variable {ι : Type}

/-- **The processes and the record.** -/
structure State (ι : Type) where
  time : ℕ := 0
  file : Record := {}
  processes : ι → Process := fun _ => {}
  /-- When the runner answered. -/
  answers : List ℕ := []
  /-- The answers that were recorded. -/
  recorded : List ℕ := []
  /-- The answers that never are. -/
  silent : List ℕ := []
  settlements : List Settlement := []

/-- **What happens next.** -/
inductive Action (ι : Type)
  | tick (ms : ℕ)
  /-- A reconcile of one ticket, a watcher tick and a sweep begin. -/
  | attempt (p : ι)
  | watch (p : ι)
  | sweep (p : ι)
  /-- The ping or the fetch is over. -/
  | answer (p : ι) (ok : Bool)
  | record (p : ι)
  | claim (p : ι)
  /-- The next ticket of a sweep. -/
  | next (p : ι)
  | publish (p : ι) (accepted : Bool)
  /-- `settleStrandedWithdraw` ends at a fetch that failed. -/
  | stranded (p : ι)
  | cancel (p : ι) (ok : Bool)
  | late (p : ι) (ok : Bool)
  /-- Any other end: another outcome, a time that has run out, a crash. -/
  | leave (p : ι)

/-- `publishUnreachable` goes past its first line. -/
def PastBound (runnerLostAfterMs since now : ℕ) : Prop :=
  0 < runnerLostAfterMs ∧ since + runnerLostAfterMs < now

instance (runnerLostAfterMs since now : ℕ) : Decidable (PastBound runnerLostAfterMs since now) :=
  instDecidableAnd

section Machine

variable [DecidableEq ι] (runnerLostAfterMs : ℕ)

/-- A process goes on as this. -/
def State.become (g : State ι) (p : ι) (pr : Process) : State ι :=
  { g with processes := Function.update g.processes p pr }

/-- A process goes on to this stage. -/
def State.goes (g : State ι) (p : ι) (stage : Stage) : State ι :=
  g.become p { g.processes p with stage }

/-- The runner answers, or does not. -/
def State.answering (g : State ι) (ok : Bool) : State ι :=
  if ok then { g with answers := g.time :: g.answers } else g

/-- The runner answers, and nothing records it. -/
def State.silently (g : State ι) (ok : Bool) : State ι :=
  if ok then { g with answers := g.time :: g.answers, silent := g.time :: g.silent } else g

/-- **One step.** -/
def State.next (g : State ι) : Action ι → Option (State ι)
  | .tick ms => some { g with time := g.time + ms }
  | .attempt p =>
    if (g.processes p).stage = .ended then
      some (g.become p { now := g.time, stage := .fetching })
    else none
  | .watch p =>
    if (g.processes p).stage = .ended then
      some (g.become p { now := g.time, stage := .pinging })
    else none
  | .sweep p =>
    if (g.processes p).stage = .ended then
      some (g.become p { now := g.time, stage := .claiming })
    else none
  | .answer p ok =>
    match (g.processes p).stage with
    | .pinging => some ((g.answering ok).goes p (.pinged ok g.time))
    | .fetching => some ((g.answering ok).goes p (.fetched ok g.time))
    | _ => none
  | .record p =>
    match (g.processes p).stage with
    | .pinged ok time =>
      some ({ g with
        file := recordPings g.file ok (g.processes p).now
        recorded := if ok then time :: g.recorded else g.recorded }.goes p .claiming)
    | .fetched ok time =>
      match recordContact g.file ok (g.processes p).now with
      | (file, some since) => some ({ g with file }.goes p (.holding since g.time))
      | (file, none) => some ({ g with file, recorded := time :: g.recorded }.goes p .answered)
    | _ => none
  | .claim p =>
    if (g.processes p).stage = .claiming then
      some (g.become p { g.processes p with
        sweep := some { vouchedUp := heartbeatUp g.file (g.processes p).now, down := false }
        stage := .between })
    else none
  | .next p =>
    match (g.processes p).stage, (g.processes p).sweep with
    | .between, some s =>
      -- `assumeDown`: the record is read without its lock
      if s.down then
        match g.file.since with
        | some since => some (g.goes p (.holding since g.time))
        | none => some g
      else some (g.goes p .fetching)
    | _, _ => none
  | .publish p accepted =>
    match (g.processes p).stage with
    | .holding since _ =>
      if PastBound runnerLostAfterMs since (g.processes p).now then
        let settlement := { time := g.time, answers := g.answers }
        some ({ g with
          settlements := if accepted then settlement :: g.settlements else g.settlements }.become p
            ((g.processes p).after false))
      else some (g.become p ((g.processes p).after true))
    | _ => none
  | .stranded p =>
    match (g.processes p).stage with
    -- the bound is not asked, and the sweep takes the runner for down all the same
    | .holding _ _ => some (g.become p ((g.processes p).after true))
    | _ => none
  | .cancel p ok =>
    if (g.processes p).stage = .answered then
      if ok then some ((g.silently true).goes p .cancelled)
      else some (g.become p ((g.processes p).after true))
    else none
  | .late p ok =>
    if (g.processes p).stage = .cancelled then
      some ((g.silently ok).become p ((g.processes p).after false))
    else none
  | .leave p =>
    let pr := g.processes p
    some ({ g with silent := pr.unrecorded.toList ++ g.silent }.become p
      (if pr.stage = Stage.between then { pr with stage := .ended } else pr.after false))

/-- **The processes against one runner**, each to begin with idle. -/
def machine : Machine (State ι) (Action ι) where
  start g := g = {}
  next := State.next runnerLostAfterMs

end Machine

/-! ### What should hold -/

section Right

variable (runnerLostAfterMs : ℕ) (g : State ι)

/-- **No recorded success is later than the clock, and no ticket was given up within the bound of an
answer.** -/
structure Right : Prop where
  clock : ∀ since, g.file.since = some since → ∀ c ∈ g.recorded, c ≤ since
  bound : ∀ s ∈ g.settlements, ∀ c ∈ s.answers, c + runnerLostAfterMs < s.time

/-- An answer is still to be recorded. -/
def Pending (c : ℕ) : Prop := ∃ p, (g.processes p).unrecorded = some c

/-- **Nothing disturbs the clock** in this step. -/
structure Undisturbed (a : Action ι) : Prop where
  /-- A failure that starts the clock does it with a time that no success is later than, but for those
  that are still to be recorded. -/
  starts : ∀ p time, a = .record p →
    (g.processes p).stage = .pinged false time ∨ (g.processes p).stage = .fetched false time →
    g.file.since = none → ∀ c, c ∈ g.recorded ∨ c ∈ g.silent → c ≤ (g.processes p).now
  /-- A clock that is read past the bound is read with no success still to be recorded. -/
  reads : ∀ p, (a = .record p ∧ ∃ time, (g.processes p).stage = .fetched false time) ∨
      (a = .next p ∧ ∃ s, (g.processes p).sweep = some s ∧ s.down = true) →
    ∀ since, g.file.since = some since → PastBound runnerLostAfterMs since (g.processes p).now →
      ∀ c, ¬ Pending g c
  /-- No success comes between reading a clock past the bound and giving up the ticket. -/
  publishes : ∀ p accepted since time, a = .publish p accepted →
    (g.processes p).stage = .holding since time →
    PastBound runnerLostAfterMs since (g.processes p).now → ∀ c ∈ g.answers, c < time
  /-- No success goes unrecorded while the clock is going. -/
  silent : ∀ p, a = .cancel p true ∨ a = .late p true ∨
    a = .leave p ∧ (g.processes p).unrecorded ≠ none → g.file.since = none

end Right

/-! ### What holds on the way -/

section Run

variable {runnerLostAfterMs : ℕ} {g g' : State ι}

/-- **What holds of every state.** -/
structure Inv (runnerLostAfterMs : ℕ) (g : State ι) : Prop where
  now_le : ∀ p, (g.processes p).now ≤ g.time
  answered : ∀ c ∈ g.answers, c ≤ g.time
  /-- An answer is recorded, or never is, or still is to be. -/
  known : ∀ c ∈ g.answers, (c ∈ g.recorded ∨ c ∈ g.silent) ∨ Pending g c
  /-- The clock stands for a streak. -/
  clock : ∀ since, g.file.since = some since → ∀ c, c ∈ g.recorded ∨ c ∈ g.silent → c ≤ since
  holding : ∀ p since time, (g.processes p).stage = .holding since time →
    (g.processes p).now ≤ time ∧ time ≤ g.time ∧
      (PastBound runnerLostAfterMs since (g.processes p).now → ∀ c ∈ g.answers, c ≤ since ∨ time ≤ c)
  bound : ∀ s ∈ g.settlements, ∀ c ∈ s.answers, c + runnerLostAfterMs < s.time

/-- **An answer that nothing records**, with the clock not going. -/
theorem Inv.silently (h : Inv runnerLostAfterMs g) (hnone : g.file.since = none) :
    Inv runnerLostAfterMs (g.silently true) where
  now_le := h.now_le
  answered c hc := by
    rcases List.mem_cons.1 hc with rfl | hc
    · exact le_rfl
    · exact h.answered c hc
  known c hc := by
    rcases List.mem_cons.1 hc with rfl | hc
    · exact .inl (.inr List.mem_cons_self)
    · exact (h.known c hc).imp_left fun hin => hin.imp_right (List.mem_cons_of_mem _)
  clock since hsince := by
    rw [show (g.silently true).file.since = none from hnone] at hsince
    cases hsince
  holding q since time hq := by
    obtain ⟨hle, htime, hpast⟩ := h.holding q since time hq
    refine ⟨hle, htime, fun hlost c hc => ?_⟩
    rcases List.mem_cons.1 hc with rfl | hc
    · exact .inr htime
    · exact hpast hlost c hc
  bound := h.bound

/-- **A ticket is given up**, long enough after every answer. -/
theorem Inv.settle (h : Inv runnerLostAfterMs g)
    (hbound : ∀ c ∈ g.answers, c + runnerLostAfterMs < g.time) :
    Inv runnerLostAfterMs
      { g with settlements := { time := g.time, answers := g.answers } :: g.settlements } :=
  { h with
    bound := fun s hs => by
      rcases List.mem_cons.1 hs with rfl | hs
      · exact hbound
      · exact h.bound s hs }

/-- The clock starts, or goes on. -/
theorem since_applyContact_false (file : Record) (now : ℕ) :
    (applyContact file false now).since = some (file.since.getD now) := by
  unfold applyContact
  rw [if_neg Bool.false_ne_true]
  cases h : file.since with
  | none => rfl
  | some since => simp [h]

/-- **A failure keeps the clock right**, where one that starts it does. -/
theorem Inv.clock_of_failure (h : Inv runnerLostAfterMs g) {now : ℕ}
    (hstarts : g.file.since = none → ∀ c, c ∈ g.recorded ∨ c ∈ g.silent → c ≤ now) {since : ℕ}
    (hsince : (applyContact g.file false now).since = some since) {c : ℕ}
    (hc : c ∈ g.recorded ∨ c ∈ g.silent) : c ≤ since := by
  rw [since_applyContact_false] at hsince
  cases hfile : g.file.since with
  | none =>
    rw [hfile] at hsince
    exact Option.some.inj hsince ▸ hstarts hfile c hc
  | some since' =>
    rw [hfile] at hsince
    exact Option.some.inj hsince ▸ h.clock since' hfile c hc

variable [DecidableEq ι] {p q : ι} {pr : Process}

@[simp] theorem processes_become_self : (g.become p pr).processes p = pr :=
  Function.update_self ..

theorem processes_become_of_ne (h : q ≠ p) : (g.become p pr).processes q = g.processes q :=
  Function.update_of_ne h ..

/-- Another process goes on, and what is still to be recorded stays so. -/
theorem Pending.become {c : ℕ} (h : Pending g c) (hp : (g.processes p).unrecorded = none) :
    Pending (g.become p pr) c := by
  obtain ⟨q, hq⟩ := h
  have hne : q ≠ p := by
    rintro rfl
    rw [hp] at hq
    cases hq
  exact ⟨q, by rw [processes_become_of_ne hne, hq]⟩

/-- **The record changes**, and a process goes on: what was in its hand is taken down. -/
theorem Inv.move (h : Inv runnerLostAfterMs g) {file : Record} {recorded silent : List ℕ}
    (hrecorded : g.recorded ⊆ recorded) (hsilent : g.silent ⊆ silent)
    (hp : ∀ c, (g.processes p).unrecorded = some c → c ∈ recorded ∨ c ∈ silent)
    (hclock : ∀ since, file.since = some since → ∀ c, c ∈ recorded ∨ c ∈ silent → c ≤ since)
    (hnow : pr.now ≤ g.time) (hstage : ∀ since time, pr.stage ≠ .holding since time) :
    Inv runnerLostAfterMs ({ g with file, recorded, silent }.become p pr) where
  now_le q := by
    by_cases hq : q = p
    · rw [hq, processes_become_self]
      exact hnow
    · rw [processes_become_of_ne hq]
      exact h.now_le q
  answered := h.answered
  known c hc := by
    rcases h.known c hc with (hin | hin) | ⟨q, hq⟩
    · exact .inl (.inl (hrecorded hin))
    · exact .inl (.inr (hsilent hin))
    · by_cases heq : q = p
      · exact .inl (hp c (heq ▸ hq))
      · exact .inr ⟨q, by rw [processes_become_of_ne heq, hq]⟩
  clock := hclock
  holding q since time hq := by
    by_cases heq : q = p
    · rw [heq, processes_become_self] at hq
      exact absurd hq (hstage since time)
    · rw [processes_become_of_ne heq] at hq ⊢
      exact h.holding q since time hq
  bound := h.bound

/-- **A process goes on with nothing in hand.** -/
theorem Inv.become (h : Inv runnerLostAfterMs g) (hp : (g.processes p).unrecorded = none)
    (hnow : pr.now ≤ g.time) (hstage : ∀ since time, pr.stage ≠ .holding since time) :
    Inv runnerLostAfterMs (g.become p pr) :=
  h.move (List.Subset.refl _) (List.Subset.refl _) (fun c hc => by rw [hp] at hc; cases hc) h.clock
    hnow hstage

/-- **An answer is recorded**, and the clock stops. -/
theorem Inv.record (h : Inv runnerLostAfterMs g) {time : ℕ} {file : Record}
    (hp : (g.processes p).unrecorded = some time) (hnone : file.since = none)
    (hnow : pr.now ≤ g.time) (hstage : ∀ since time, pr.stage ≠ .holding since time) :
    Inv runnerLostAfterMs ({ g with file, recorded := time :: g.recorded }.become p pr) := by
  refine h.move (List.subset_cons_self ..) (List.Subset.refl _) (fun c hc => ?_)
    (fun since hsince => ?_) hnow hstage
  · rw [hp] at hc
    exact .inl (Option.some.inj hc ▸ List.mem_cons_self)
  · rw [hnone] at hsince
    cases hsince

/-- **An answer, to be recorded.** -/
theorem Inv.answer (h : Inv runnerLostAfterMs g) (hp : (g.processes p).unrecorded = none)
    (hpr : pr.unrecorded = some g.time) (hnow : pr.now ≤ g.time) :
    Inv runnerLostAfterMs ({ g with answers := g.time :: g.answers }.become p pr) where
  now_le q := by
    by_cases hq : q = p
    · rw [hq, processes_become_self]
      exact hnow
    · rw [processes_become_of_ne hq]
      exact h.now_le q
  answered c hc := by
    rcases List.mem_cons.1 hc with rfl | hc
    · exact le_rfl
    · exact h.answered c hc
  known c hc := by
    rcases List.mem_cons.1 hc with rfl | hc
    · exact .inr ⟨p, by rw [processes_become_self, hpr]⟩
    · exact (h.known c hc).imp_right fun hpending => hpending.become hp
  clock := h.clock
  holding q since time hq := by
    by_cases heq : q = p
    · rw [heq, processes_become_self] at hq
      rw [Process.unrecorded, hq] at hpr
      cases hpr
    · rw [processes_become_of_ne heq] at hq ⊢
      obtain ⟨hle, htime, hpast⟩ := h.holding q since time hq
      refine ⟨hle, htime, fun hlost c hc => ?_⟩
      rcases List.mem_cons.1 hc with rfl | hc
      · exact .inr htime
      · exact hpast hlost c hc
  bound := h.bound

/-- **A process reads the clock**, with no success still to be recorded where it is past the bound. -/
theorem Inv.hold (h : Inv runnerLostAfterMs g) (hp : (g.processes p).unrecorded = none)
    {since : ℕ} (hsince : g.file.since = some since)
    (hreads : PastBound runnerLostAfterMs since (g.processes p).now → ∀ c, ¬ Pending g c) :
    Inv runnerLostAfterMs (g.goes p (.holding since g.time)) where
  now_le q := by
    by_cases hq : q = p
    · rw [hq, State.goes, processes_become_self]
      exact h.now_le p
    · rw [State.goes, processes_become_of_ne hq]
      exact h.now_le q
  answered := h.answered
  known c hc := (h.known c hc).imp_right fun hpending => hpending.become hp
  clock := h.clock
  holding q since' time hq := by
    by_cases heq : q = p
    · rw [heq, State.goes, processes_become_self] at hq ⊢
      obtain ⟨rfl, rfl⟩ := Stage.holding.inj hq
      refine ⟨h.now_le p, le_rfl, fun hpast c hc => .inl ?_⟩
      exact h.clock _ hsince c ((h.known c hc).resolve_right (hreads hpast c))
    · rw [State.goes, processes_become_of_ne heq] at hq ⊢
      exact h.holding q since' time hq
  bound := h.bound

/-- The process after a ticket has nothing in hand. -/
theorem now_after (pr : Process) (transport : Bool) : (pr.after transport).now = pr.now := by
  unfold Process.after
  split <;> rfl

theorem stage_after (pr : Process) (transport : Bool) {since time : ℕ} :
    (pr.after transport).stage ≠ .holding since time := by
  unfold Process.after
  split <;> exact fun h => nomatch h

/-- **A process is done with a ticket.** -/
theorem Inv.after (h : Inv runnerLostAfterMs g) (hp : (g.processes p).unrecorded = none)
    (transport : Bool) : Inv runnerLostAfterMs (g.become p ((g.processes p).after transport)) :=
  h.become hp (by rw [now_after]; exact h.now_le p) fun _ _ => stage_after _ _

/-- **Every step keeps it**, if nothing disturbs the clock. -/
theorem inv_next {a : Action ι} (h : Inv runnerLostAfterMs g)
    (hok : Undisturbed runnerLostAfterMs g a) (hnext : g.next runnerLostAfterMs a = some g') :
    Inv runnerLostAfterMs g' := by
  have hidle {p : ι} {stage : Stage} (hstage : (g.processes p).stage = stage)
      (hnone : ({ stage := stage } : Process).unrecorded = none) :
      (g.processes p).unrecorded = none := by
    rw [Process.unrecorded, hstage]
    exact hnone
  cases a with
  | tick ms =>
    obtain rfl := Option.some.inj hnext
    exact
      { now_le := fun p => (h.now_le p).trans (Nat.le_add_right _ _)
        answered := fun c hc => (h.answered c hc).trans (Nat.le_add_right _ _)
        known := h.known
        clock := h.clock
        holding := fun p since time hp => by
          obtain ⟨hle, htime, hpast⟩ := h.holding p since time hp
          exact ⟨hle, htime.trans (Nat.le_add_right _ _), hpast⟩
        bound := h.bound }
  | attempt p | watch p | sweep p =>
    simp only [State.next] at hnext
    split_ifs at hnext with hstage
    obtain rfl := Option.some.inj hnext
    exact h.become (hidle hstage rfl) le_rfl fun _ _ => by rintro ⟨⟩
  | answer p ok =>
    simp only [State.next] at hnext
    split at hnext
    · rename_i hstage
      obtain rfl := Option.some.inj hnext
      cases ok with
      | false => exact h.become (hidle hstage rfl) (h.now_le p) fun _ _ => by rintro ⟨⟩
      | true => exact h.answer (hidle hstage rfl) rfl (h.now_le p)
    · rename_i hstage
      obtain rfl := Option.some.inj hnext
      cases ok with
      | false => exact h.become (hidle hstage rfl) (h.now_le p) fun _ _ => by rintro ⟨⟩
      | true => exact h.answer (hidle hstage rfl) rfl (h.now_le p)
    · cases hnext
  | record p =>
    simp only [State.next] at hnext
    split at hnext
    · rename_i ok time hstage
      obtain rfl := Option.some.inj hnext
      cases ok with
      | false =>
        refine h.move (List.Subset.refl _) (List.Subset.refl _)
          (fun c hc => by rw [hidle hstage rfl] at hc; cases hc) (fun since hsince c hc => ?_)
          (h.now_le p) fun _ _ => by rintro ⟨⟩
        exact h.clock_of_failure (hok.starts p time rfl (.inl hstage)) hsince hc
      | true =>
        exact h.record (by rw [Process.unrecorded, hstage]) rfl (h.now_le p)
          fun _ _ => by rintro ⟨⟩
    · rename_i ok time hstage
      cases ok with
      | false =>
        simp only [recordContact, since_applyContact_false, Bool.false_eq_true, if_false] at hnext
        obtain rfl := Option.some.inj hnext
        have hstarts := hok.starts p time rfl (.inr hstage)
        have hg : Inv runnerLostAfterMs
            { g with file := applyContact g.file false (g.processes p).now } :=
          { h with clock := fun since hsince c hc => h.clock_of_failure hstarts hsince hc }
        refine hg.hold (hidle hstage rfl) (since_applyContact_false ..) fun hpast => ?_
        cases hsince : g.file.since with
        | none =>
          -- the clock has only just started
          rw [hsince, Option.getD_none] at hpast
          exact absurd hpast.2 (not_lt.2 (Nat.le_add_right _ _))
        | some since =>
          rw [hsince] at hpast
          exact hok.reads p (.inl ⟨rfl, time, hstage⟩) since hsince hpast
      | true =>
        obtain rfl := Option.some.inj hnext
        exact h.record (by rw [Process.unrecorded, hstage]) rfl (h.now_le p)
          fun _ _ => by rintro ⟨⟩
    · cases hnext
  | claim p =>
    simp only [State.next] at hnext
    split_ifs at hnext with hstage
    obtain rfl := Option.some.inj hnext
    exact h.become (hidle hstage rfl) (h.now_le p) fun _ _ => by rintro ⟨⟩
  | next p =>
    simp only [State.next] at hnext
    split at hnext
    · rename_i s hstage hsweep
      split_ifs at hnext with hdown
      · cases hsince : g.file.since with
        | none =>
          rw [hsince] at hnext
          exact Option.some.inj hnext ▸ h
        | some since =>
          rw [hsince] at hnext
          obtain rfl := Option.some.inj hnext
          exact h.hold (hidle hstage rfl) hsince
            (hok.reads p (.inr ⟨rfl, s, hsweep, hdown⟩) since hsince)
      · obtain rfl := Option.some.inj hnext
        exact h.become (hidle hstage rfl) (h.now_le p) fun _ _ => by rintro ⟨⟩
    · cases hnext
  | publish p accepted =>
    simp only [State.next] at hnext
    split at hnext
    · rename_i since time hstage
      split_ifs at hnext with hpast hyes
      · obtain rfl := Option.some.inj hnext
        refine (h.settle fun c hc => ?_).after (hidle hstage rfl) _
        obtain ⟨hnow, htime, hstreak⟩ := h.holding p since time hstage
        have hbefore := hok.publishes p accepted since time rfl hstage hpast c hc
        have hlost := hpast.2
        rcases hstreak hpast c hc with hle | hle <;> omega
      · obtain rfl := Option.some.inj hnext
        exact h.after (hidle hstage rfl) _
      · obtain rfl := Option.some.inj hnext
        exact h.after (hidle hstage rfl) _
    · cases hnext
  | stranded p =>
    simp only [State.next] at hnext
    split at hnext
    · rename_i hstage
      obtain rfl := Option.some.inj hnext
      exact h.after (hidle hstage rfl) _
    · cases hnext
  | cancel p ok =>
    simp only [State.next] at hnext
    split_ifs at hnext with hstage hyes
    · obtain rfl := Option.some.inj hnext
      refine (h.silently (hok.silent p (.inl (hyes ▸ rfl)))).become (hidle hstage rfl) (h.now_le p)
        fun _ _ => by rintro ⟨⟩
    · obtain rfl := Option.some.inj hnext
      exact h.after (hidle hstage rfl) _
  | late p ok =>
    simp only [State.next] at hnext
    split_ifs at hnext with hstage
    obtain rfl := Option.some.inj hnext
    cases ok with
    | false =>
      exact h.after (hidle hstage rfl) _
    | true =>
      exact (h.silently (hok.silent p (.inr (.inl rfl)))).after (hidle hstage rfl) _
  | leave p =>
    obtain rfl := Option.some.inj hnext
    refine h.move (List.Subset.refl _) (List.subset_append_right ..) (fun c hc => ?_)
      (fun since hsince c hc => ?_) ?_ fun _ _ => ?_
    · rw [hc]
      exact .inr List.mem_cons_self
    · cases hp : (g.processes p).unrecorded with
      | none =>
        rw [hp] at hc
        exact h.clock since hsince c hc
      | some c' =>
        have hnone := hok.silent p (.inr (.inr ⟨rfl, by rw [hp]; exact Option.some_ne_none _⟩))
        rw [hnone] at hsince
        cases hsince
    · split_ifs
      · exact h.now_le p
      · rw [now_after]
        exact h.now_le p
    · split_ifs
      · rintro ⟨⟩
      · exact stage_after _ _

end Run

/-- **Where nothing disturbs the clock, it is right**: in every run of any processes whose steps all
leave it undisturbed, no recorded success is ever later than the clock, and no ticket is given up within
the bound of an answer. -/
theorem right_of_undisturbed [DecidableEq ι] (runnerLostAfterMs : ℕ) {g : State ι}
    (h : (machine runnerLostAfterMs).Reach (Undisturbed runnerLostAfterMs) g) :
    Right runnerLostAfterMs g := by
  have hinv : Inv runnerLostAfterMs g := by
    refine h.invariant (fun g hg => ?_) fun g a g' hinv hok hnext => inv_next hinv hok hnext
    obtain rfl := hg
    exact
      { now_le := fun _ => le_rfl
        answered := fun c hc => nomatch hc
        known := fun c hc => nomatch hc
        clock := fun since hsince => nomatch hsince
        holding := fun p since time hp => nomatch hp
        bound := fun s hs => nomatch hs }
  exact ⟨fun since hsince c hc => hinv.clock since hsince c (.inl hc), hinv.bound⟩

section Checked

variable [Fintype ι] (g : State ι)

/-- No success is still to be recorded. -/
def quiet : Bool := decide (∀ p, (g.processes p).unrecorded = none)

/-- A check of `Undisturbed`: it asks for a little more. -/
def undisturbed : Action ι → Bool
  | .record p =>
    (g.recorded ++ g.silent).all (· ≤ (g.processes p).now) && quiet g ||
      ((g.processes p).unrecorded).isSome
  | .next _ => quiet g
  | .publish p _ =>
    match (g.processes p).stage with
    | .holding _ time => g.answers.all (· < time)
    | _ => true
  | .cancel _ _ | .late _ _ => g.file.since = none
  | .leave p => (g.processes p).unrecorded = none || g.file.since = none
  | _ => true

variable {g}

theorem not_pending_of_quiet (h : quiet g = true) (c : ℕ) : ¬ Pending g c := by
  rintro ⟨p, hp⟩
  rw [of_decide_eq_true h p] at hp
  cases hp

theorem undisturbed_of_check {runnerLostAfterMs : ℕ} {a : Action ι} (h : undisturbed g a = true) :
    Undisturbed runnerLostAfterMs g a where
  starts p time ha hstage _ c hc := by
    subst ha
    have hnone : (g.processes p).unrecorded = none := by
      rw [Process.unrecorded]
      rcases hstage with hstage | hstage <;> rw [hstage]
    rw [undisturbed, hnone, Option.isSome_none, Bool.or_false, Bool.and_eq_true] at h
    exact of_decide_eq_true (List.all_eq_true.1 h.1 c (List.mem_append.2 hc))
  reads p ha since _ _ c := by
    rcases ha with ⟨rfl, time, hstage⟩ | ⟨rfl, -⟩
    · have hnone : (g.processes p).unrecorded = none := by rw [Process.unrecorded, hstage]
      rw [undisturbed, hnone, Option.isSome_none, Bool.or_false, Bool.and_eq_true] at h
      exact not_pending_of_quiet h.2 c
    · exact not_pending_of_quiet h c
  publishes p accepted since time ha hstage _ c hc := by
    subst ha
    rw [undisturbed, hstage] at h
    exact of_decide_eq_true (List.all_eq_true.1 h c hc)
  silent p ha := by
    rcases ha with rfl | rfl | ⟨rfl, hsome⟩
    · exact of_decide_eq_true h
    · exact of_decide_eq_true h
    · rw [undisturbed, Bool.or_eq_true] at h
      rcases h with h | h
      · exact absurd (of_decide_eq_true h) hsome
      · exact of_decide_eq_true h

end Checked

/-- The watcher's ping is answered, and two seconds later the runner is given up, a bound of one second
after the first failure. -/
theorem right_of_undisturbed_given_up :
    ∃ g : State (Fin 2), Right 1000 g ∧ g.recorded ≠ [] ∧ g.settlements ≠ [] := by
  obtain ⟨g, hg, hdone⟩ := Machine.exists_reach_of_exec (machine 1000) ({} : State (Fin 2))
    [.watch 1, .answer 1 true, .record 1, .tick 5, .attempt 0, .answer 0 false, .record 0,
      .publish 0 true, .tick 2000, .attempt 0, .answer 0 false, .record 0, .publish 0 true]
    (fun g => g.recorded ≠ [] && g.settlements ≠ []) rfl
    (Machine.along_of_check (undisturbed ·) (fun _ _ => undisturbed_of_check) _ (by decide +kernel))
    (by decide +kernel)
  simp only [Bool.and_eq_true, decide_eq_true_eq] at hdone
  exact ⟨g, right_of_undisturbed 1000 hg, hdone⟩

/-- **A failure that is recorded late starts the clock in the past.**  A reconcile reads the time; six
milliseconds later a watcher that began after it has an answer and records it; the reconcile's own
failure then starts the clock at its time, before the answer.  The next failure gives the ticket up by a
bound of one second, 996 milliseconds after the answer. -/
theorem clock_is_back_dated :
    ∃ g : State (Fin 2), (machine 1000).Reach (fun _ _ => True) g ∧
      (∃ since okAt c, g.file.since = some since ∧ g.file.lastOkAt = some okAt ∧ since < okAt ∧
        c ∈ g.recorded ∧ since < c) ∧
      (∃ s ∈ g.settlements, ∃ c ∈ s.answers, c ≤ s.time ∧ s.time < c + 1000) ∧ ¬ Right 1000 g := by
  obtain ⟨g, hg, hdone⟩ := Machine.exists_reach_of_exec (machine 1000) ({} : State (Fin 2))
    [.attempt 0, .tick 5, .watch 1, .tick 1, .answer 1 true, .record 1, .answer 0 false, .record 0,
      .publish 0 true, .tick 996, .attempt 0, .answer 0 false, .record 0, .publish 0 true]
    (fun g => g.file = { since := some 0, beatAt := some 5, lastOkAt := some 5 } &&
      g.recorded = [6] && g.settlements = [⟨1002, [6]⟩]) rfl
    (Machine.along_of_forall (fun _ _ => trivial) _ _) (by decide +kernel)
  simp only [Bool.and_eq_true, decide_eq_true_eq] at hdone
  obtain ⟨⟨hfile, hrecorded⟩, hsettlements⟩ := hdone
  refine ⟨g, hg, ⟨0, 5, 6, by rw [hfile], by rw [hfile], by decide, ?_, by decide⟩,
    ⟨⟨1002, [6]⟩, ?_, 6, List.mem_singleton_self 6, by decide, by decide⟩, fun hright => ?_⟩
  · rw [hrecorded]
    exact List.mem_singleton_self 6
  · rw [hsettlements]
    exact List.mem_singleton_self _
  · have hclock := hright.clock 0 (by rw [hfile]) 6 (by rw [hrecorded]; exact List.mem_singleton_self 6)
    omega

end RunnerLost
end Client
end LaneBroker
