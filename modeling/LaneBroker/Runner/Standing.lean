/-
# Where a ticket stands on a runner

What the submitter wants to know of a runner is one of four things: the command can still
start (`possible`), it is about to (`admitted`), it never will (`barred`), or it did
(`started`).  `standing` reads it off the files and the two processes, and every step of any
party only moves it forward (`Standing.Leads`): the runner refines the four-state host, where
`barred` is final by definition.

`Coherent` is what the files say about the processes, in terms of the standing: which markers
and results are proofs that the command never starts.
-/

import LaneBroker.Runner.Processes

namespace LaneBroker
namespace Runner

open LaneBroker.Basis

/-! ### The abstract host -/

/-- **The four standings of a ticket on a host.** -/
inductive Standing
  | possible
  | admitted
  | barred
  | started
  deriving DecidableEq, Repr

namespace Standing

/-- **What can become of a standing.**  A barred ticket stays barred, a started one stays
started. -/
def Leads (a b : Standing) : Prop := a = b ∨ a = .possible ∨ (a = .admitted ∧ b ≠ .possible)

/-- The command does not start any more: it did, or it never will. -/
def Settled (a : Standing) : Prop := a = .barred ∨ a = .started

variable {a b c : Standing}

@[refl] theorem Leads.refl (a : Standing) : a.Leads a := .inl rfl

theorem Leads.trans (hab : a.Leads b) (hbc : b.Leads c) : a.Leads c := by
  rcases hab with rfl | rfl | ⟨rfl, hb⟩
  · exact hbc
  · exact .inr (.inl rfl)
  · rcases hbc with rfl | rfl | ⟨-, hc⟩
    · exact .inr (.inr ⟨rfl, hb⟩)
    · exact absurd rfl hb
    · exact .inr (.inr ⟨rfl, hc⟩)

theorem Leads.barred (h : a.Leads b) (ha : a = .barred) : b = .barred := by
  subst ha
  rcases h with h | h | ⟨h, -⟩
  · exact h.symm
  · cases h
  · cases h

theorem Leads.settled (h : a.Leads b) (ha : a.Settled) : b.Settled := by
  rcases ha with rfl | rfl
  · exact .inl (h.barred rfl)
  · rcases h with h | h | ⟨h, -⟩
    · exact .inr h.symm
    · cases h
    · cases h

theorem Leads.ne_possible (h : a.Leads b) (ha : a ≠ .possible) : b ≠ .possible := by
  rcases h with rfl | rfl | ⟨-, hb⟩
  · exact ha
  · exact absurd rfl ha
  · exact hb

theorem leads_possible : Leads .possible b := .inr (.inl rfl)

theorem leads_of_settled (hb : b.Settled) (ha : a ≠ .started) (hab : a = .barred → b = .barred) :
    a.Leads b := by
  cases a with
  | possible => exact leads_possible
  | admitted => exact .inr (.inr ⟨rfl, by rcases hb with rfl | rfl <;> decide⟩)
  | barred => exact .inl (hab rfl).symm
  | started => exact absurd rfl ha

theorem settled_of_ne (hp : a ≠ .possible) (ha : a ≠ .admitted) : a.Settled := by
  cases a with
  | possible => exact absurd rfl hp
  | admitted => exact absurd rfl ha
  | barred => exact .inl rfl
  | started => exact .inr rfl

end Standing

/-! ### The standing of a ticket -/

/-- How far a supervisor is from starting its command. -/
inductive SupStage
  | unspawned
  | polling
  | admitted
  /-- it started the command, or never will -/
  | closed
  deriving DecidableEq, Repr

def SupPhase.stage : SupPhase → SupStage
  | .absent => .unspawned
  | .launched | .polling => .polling
  | .admitted => .admitted
  | _ => .closed

/-- How far an exec is from spawning its supervisor. -/
inductive ExecStage
  | unrecorded
  | recorded
  /-- it spawned its supervisor, or never will -/
  | closed
  deriving DecidableEq, Repr

def ExecPhase.stage : ExecPhase → ExecStage
  | .created => .unrecorded
  | .recorded => .recorded
  | _ => .closed

/-- The lane carries a marker that `tryStart` refuses it for. -/
def LaneFiles.refused (l : LaneFiles) : Bool := l.cancelMarker || l.withdrawMarker

/-- The directory carries a marker that `onTicketCreated` refuses the ticket for. -/
def TicketDir.refused (d : TicketDir) : Bool := d.cancelled || d.shutdown

/-- The standing of a ticket that may still be `possible`. -/
def barredIf (refused : Bool) : Standing := if refused then .barred else .possible

/-- The standing of a ticket whose directory is there. -/
def takenStanding (d : TicketDir) (l : LaneFiles) (exec : ExecStage) (sup : SupStage) :
    Standing :=
  match sup, exec with
  | .unspawned, .unrecorded => barredIf d.refused
  | .unspawned, .recorded => barredIf l.refused
  | .unspawned, .closed => .barred
  | .polling, _ => barredIf l.refused
  | .admitted, _ => .admitted
  | .closed, _ => .barred

/-- **The standing of a ticket.** -/
def standing (t : Ticket) : Standing :=
  if t.started then .started
  else
    match t.files.dir with
    | none => barredIf t.files.tombstone
    | some d => takenStanding d t.files.lane t.exec.stage t.sup.stage

@[simp] theorem barredIf_true : barredIf true = .barred := rfl

theorem barredIf_leads {a b : Bool} (h : a = true → b = true) : (barredIf a).Leads (barredIf b) := by
  cases a with
  | false => exact Standing.leads_possible
  | true => rw [h rfl]

theorem barredIf_ne_admitted (b : Bool) : barredIf b ≠ .admitted := by cases b <;> decide

theorem barredIf_ne_started (b : Bool) : barredIf b ≠ .started := by cases b <;> decide

theorem takenStanding_ne_started (d : TicketDir) (l : LaneFiles) (e : ExecStage) (s : SupStage) :
    takenStanding d l e s ≠ .started := by
  unfold takenStanding
  split <;> first | exact barredIf_ne_started _ | decide

theorem standing_of_started {t : Ticket} (h : t.started = true) : standing t = .started := by
  simp [standing, h]

theorem standing_eq_started {t : Ticket} : standing t = .started ↔ t.started = true := by
  refine ⟨fun h => ?_, standing_of_started⟩
  by_contra hs
  rw [standing, if_neg hs] at h
  split at h
  · exact barredIf_ne_started _ h
  · exact takenStanding_ne_started _ _ _ _ h

theorem standing_taken {t : Ticket} {d : TicketDir} (hs : t.started = false)
    (hd : t.files.dir = some d) :
    standing t = takenStanding d t.files.lane t.exec.stage t.sup.stage := by
  simp [standing, hs, hd]

theorem stage_eq_admitted {p : SupPhase} : p.stage = .admitted ↔ p = .admitted := by
  cases p <;> simp [SupPhase.stage]

theorem takenStanding_eq_admitted {d : TicketDir} {l : LaneFiles} {e : ExecStage} {s : SupStage}
    (h : takenStanding d l e s = .admitted) : s = .admitted := by
  unfold takenStanding at h
  split at h <;> first | rfl | exact absurd h (barredIf_ne_admitted _) | cases h

/-- A ticket that is about to start has a supervisor that was admitted. -/
theorem standing_eq_admitted {t : Ticket} (h : standing t = .admitted) :
    t.sup = .admitted ∧ t.started = false := by
  have hs : t.started = false := by
    by_contra hs
    rw [standing_of_started (by simpa using hs)] at h
    cases h
  refine ⟨?_, hs⟩
  rw [standing, if_neg (by simp [hs])] at h
  split at h
  · exact absurd h (barredIf_ne_admitted _)
  · exact stage_eq_admitted.1 (takenStanding_eq_admitted h)

/-- A supervisor that is over and did not start the command never will. -/
theorem barred_of_over {t : Ticket} (hd : t.files.dir.isSome) (h : t.sup.stage = .closed)
    (hs : t.started = false) : standing t = .barred := by
  obtain ⟨d, hd⟩ := Option.isSome_iff_exists.1 hd
  rw [standing_taken hs hd, h]
  rfl

/-- A supervisor that is over leaves the ticket settled. -/
theorem settled_of_over {t : Ticket} (hd : t.files.dir.isSome) (h : t.sup.stage = .closed) :
    (standing t).Settled := by
  cases hs : t.started with
  | true => exact .inr (standing_of_started hs)
  | false => exact .inl (barred_of_over hd h hs)

/-- A marked ticket is not `possible` any more, from the time its lane id is recorded. -/
theorem ne_possible_of_refused {t : Ticket} (hd : t.files.dir.isSome)
    (he : t.exec.stage ≠ .unrecorded) (h : t.files.lane.refused = true) :
    standing t ≠ .possible := by
  cases hs : t.started with
  | true => rw [standing_of_started hs]; decide
  | false =>
    obtain ⟨d, hd⟩ := Option.isSome_iff_exists.1 hd
    rw [standing_taken hs hd]
    unfold takenStanding
    split <;> first | exact absurd ‹_› he | simp [h]

/-! ### File operations move a standing forward -/

/-- The operations that put nothing new in the way of a start: all but making the directory and
dropping the lane's markers. -/
def RunnerOp.tightens : RunnerOp → Bool
  | .mkdirTicket | .onLane .unlinkMarkers => false
  | _ => true

/-- **An operation that tightens moves the standing forward**, whoever performs it. -/
theorem standing_op {op : RunnerOp} (hop : op.tightens = true) (t : Ticket) :
    (standing t).Leads (standing { t with files := op.apply t.files }) := by
  unfold standing
  split
  · rfl
  · cases op with
    | mkdirTicket => cases hop
    | writeTombstone =>
      simp only [RunnerOp.apply]
      split
      · exact barredIf_leads fun _ => rfl
      · rfl
    | inDir op =>
      simp only [RunnerOp.apply]
      cases t.files.dir with
      | none => rfl
      | some d =>
        simp only [Option.map_some, takenStanding]
        split
        · exact barredIf_leads (by cases op <;> simp [DirOp.apply, TicketDir.refused])
        all_goals rfl
    | onLane op =>
      have hl : t.files.lane.refused = true → (op.apply t.files.lane).refused = true := by
        cases op <;> simp [LaneOp.apply, LaneFiles.refused, RunnerOp.tightens] at hop ⊢
      simp only [RunnerOp.apply]
      split
      · rfl
      · simp only [takenStanding]
        split <;> first | exact barredIf_leads hl | rfl
    | setMigrating b => rfl
    | setDraining b => rfl

end Runner
end LaneBroker
