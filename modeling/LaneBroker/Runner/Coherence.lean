/-
# What a runner's files prove about its processes

`Coherent` is the invariant of a ticket on a runner: which processes there are once the ticket
directory, `remote-id`, the queue file or the lease is there, and what a marker or a published
result proves about the standing of the ticket.  It is kept by every file operation that meets
`OpOk`, whoever performs it (`coherent_op`), so by every prefix of a journal of such operations
(`Coherent.perform`), and by the changes of phase of the two processes.
-/

import LaneBroker.Runner.Standing

namespace LaneBroker
namespace Runner

open LaneBroker.Basis

/-! ### What a result proves -/

/-- A result is published once the command does not start any more, and one that says
`withdrawn` is the proof that it never did. -/
def vouches (reason : Option Reason) (s : Standing) : Prop :=
  s.Settled ∧ (reason = some .withdrawn → s = .barred)

theorem vouches_leads {reason : Option Reason} {a b : Standing} (h : vouches reason a)
    (hl : a.Leads b) : vouches reason b := ⟨hl.settled h.1, fun hr => hl.barred (h.2 hr)⟩

theorem vouches_barred (reason : Option Reason) : vouches reason .barred := ⟨.inl rfl, fun _ => rfl⟩

theorem not_vouches_possible (reason : Option Reason) : ¬ vouches reason .possible := by
  rintro ⟨h | h, -⟩ <;> cases h

/-- The record of a ticket says `withdrawn` only where the broker's result for the lane does. -/
theorem ticketRecord_withdrawn {cancelled shutdown refused unstarted : Bool}
    {structured : Option LaneResult} {exitCode : ℕ}
    (h : (ticketRecord cancelled shutdown refused unstarted structured exitCode).reason =
      some .withdrawn) : structured.bind (·.reason) = some .withdrawn := by
  have hstop : shutdownStopReason cancelled shutdown refused unstarted structured ≠
      some .withdrawn := by
    unfold shutdownStopReason
    split_ifs
    · simp
    · simp
    · split
      · simp
      · split <;> simp
  by_contra hne
  revert h
  simp only [ticketRecord, hne, false_and, if_false]
  split
  · simp
  split
  · simp
  cases hs : shutdownStopReason cancelled shutdown refused unstarted structured with
  | some reason => exact fun h => hstop (hs.trans h)
  | none =>
    cases structured with
    | some r => simp only; split_ifs <;> simp
    | none => simp only; split_ifs <;> simp

/-! ### The invariant -/

/-- The supervisor has not started its command, and is not about to die of having started it. -/
def SupPhase.unstarted : SupPhase → Bool
  | .running | .ending _ | .gone => false
  | _ => true

/-- The command of the supervisor is running, or just ended. -/
def SupPhase.ran : SupPhase → Bool
  | .running | .ending _ => true
  | _ => false

/-- What an exec remembers of the results it read. -/
def ExecPhase.Knows (s : Standing) : ExecPhase → Prop
  | .returned _ _ => s.Settled
  | .judging _ _ structured => vouches (structured.bind (·.reason)) s
  | .publishing r => vouches r.reason s
  | _ => True

/-- What a supervisor remembers of the files it still has to write. -/
def SupPhase.Knows : SupPhase → Prop
  | .ending ops => ∃ how, ∀ op ∈ ops, op ∈ endingOps how
  | _ => True

/-- **What the files and the processes of a ticket say about each other.** -/
structure Coherent (t : Ticket) : Prop where
  tombstoned : t.files.tombstone = true → t.files.dir = none
  untaken : t.exec = .absent ↔ t.files.dir = none
  unspawnedDir : t.files.dir = none → t.sup = .absent
  unrecorded : t.files.marked (·.remoteId) = false → t.sup = .absent ∧ t.exec.stage ≠ .recorded
  recorded : t.exec.stage = .unrecorded → t.files.marked (·.remoteId) = false
  unspawned : t.exec.stage ≠ .closed → t.sup = .absent
  unstarted : t.sup.unstarted = true → t.started = false
  ran : t.sup.ran = true → t.started = true
  queued : t.files.lane.queued = true →
    t.sup ≠ .absent ∧ t.sup ≠ .admitted ∧ t.started = false
  leased : t.sup = .admitted → t.files.lane.lease = true
  withdrawn : t.files.lane.withdrawMarker = true → standing t = .barred
  result : ∀ r, t.files.lane.result = some r → vouches r.reason (standing t)
  record : ∀ d r, t.files.dir = some d → d.result = some r → vouches r.reason (standing t)
  execKnows : t.exec.Knows (standing t)
  supKnows : t.sup.Knows

theorem ExecPhase.Knows.leads {e : ExecPhase} {a b : Standing} (h : e.Knows a) (hl : a.Leads b) :
    e.Knows b := by
  cases e with
  | returned => exact hl.settled h
  | judging => exact vouches_leads h hl
  | publishing => exact vouches_leads h hl
  | _ => trivial

theorem ExecPhase.knows_barred (e : ExecPhase) : e.Knows .barred := by
  cases e with
  | returned => exact .inl rfl
  | judging => exact vouches_barred _
  | publishing => exact vouches_barred _
  | _ => trivial

theorem coherent_unheard : Coherent .unheard := by
  constructor <;> simp [Ticket.unheard, Files.init, LaneFiles.none, ExecPhase.stage,
    SupPhase.ran, ExecPhase.Knows, SupPhase.Knows]

namespace Coherent

variable {t : Ticket}

/-- Where there is a supervisor there is a ticket directory, whose exec is past spawning it. -/
theorem of_sup (h : Coherent t) (hs : t.sup ≠ .absent) :
    t.files.dir.isSome = true ∧ t.exec.stage = .closed := by
  constructor
  · by_contra hd
    exact hs (h.unspawnedDir (by simpa using hd))
  · by_contra he
    exact hs (h.unspawned he)

theorem ne_admitted_of_settled (h : Coherent t) (hs : (standing t).Settled) :
    t.sup ≠ .admitted := by
  intro ha
  have hst : t.started = false := h.unstarted (by rw [ha]; rfl)
  obtain ⟨d, hd⟩ := Option.isSome_iff_exists.1 (h.of_sup (by rw [ha]; simp)).1
  rw [standing_taken hst hd, ha] at hs
  rcases hs with hs | hs <;> cases hs

/-- A queued ticket is not about to start. -/
theorem queued_ne (h : Coherent t) (hq : t.files.lane.queued = true) :
    standing t ≠ .admitted ∧ standing t ≠ .started :=
  ⟨fun ha => (h.queued hq).2.1 (standing_eq_admitted ha).1, fun hs => by
    have := standing_eq_started.1 hs
    rw [(h.queued hq).2.2] at this
    cases this⟩

end Coherent

/-! ### File operations -/

/-- The ticket after one file operation. -/
def Ticket.after (t : Ticket) (op : RunnerOp) : Ticket := { t with files := op.apply t.files }

/-- **When an operation keeps the invariant.** -/
def OpOk (t : Ticket) : RunnerOp → Prop
  | .writeTombstone => t.files.dir = none
  | .mkdirTicket => False
  | .inDir .writeRemoteId => t.exec.stage ≠ .unrecorded
  | .inDir (.writeResult r) => vouches r.reason (standing t)
  | .onLane .writeQueue => t.sup ≠ .absent ∧ t.sup ≠ .admitted ∧ t.started = false
  | .onLane .unlinkLease => t.sup ≠ .admitted
  | .onLane .writeWithdrawMarker => t.files.lane.queued = true
  | .onLane (.writeResult r) => vouches r.reason (standing t)
  | .onLane .unlinkMarkers => t.sup.stage = .closed
  | _ => True

/-- The markers of a lane whose supervisor is over decide nothing any more. -/
theorem standing_unlinkMarkers {t : Ticket} (h : t.sup.stage = .closed) :
    standing (t.after (.onLane .unlinkMarkers)) = standing t := by
  simp [standing, Ticket.after, RunnerOp.apply, takenStanding, h]

theorem opOk_leads {t : Ticket} {op : RunnerOp} (hop : OpOk t op) :
    (standing t).Leads (standing (t.after op)) := by
  by_cases htight : op.tightens = true
  · exact standing_op htight t
  · cases op with
    | mkdirTicket => exact hop.elim
    | onLane op =>
      cases op with
      | unlinkMarkers => rw [standing_unlinkMarkers hop]
      | _ => exact absurd rfl htight
    | _ => exact absurd rfl htight

theorem dir_after (t : Ticket) (op : RunnerOp) (h : op ≠ .mkdirTicket) :
    (t.after op).files.dir = none ↔ t.files.dir = none := by
  cases op <;> simp_all [Ticket.after, RunnerOp.apply]

/-- A queued ticket that gets a withdraw marker is barred. -/
theorem barred_of_withdrawMarker {t : Ticket} (h : Coherent t)
    (hq : t.files.lane.queued = true) :
    standing (t.after (.onLane .writeWithdrawMarker)) = .barred := by
  obtain ⟨hsup, hadm, hst⟩ := h.queued hq
  obtain ⟨hd, he⟩ := h.of_sup hsup
  have hp : standing (t.after (.onLane .writeWithdrawMarker)) ≠ .possible :=
    ne_possible_of_refused hd (by change t.exec.stage ≠ _; rw [he]; decide)
      (by simp [Ticket.after, RunnerOp.apply, LaneOp.apply, LaneFiles.refused])
  rcases Standing.settled_of_ne hp fun ha => hadm (standing_eq_admitted ha).1 with hb | hs
  · exact hb
  · have hstarted : (t.after (.onLane .writeWithdrawMarker)).started = true :=
      standing_eq_started.1 hs
    exact absurd (hst.symm.trans hstarted) (by decide)

theorem marked_after {t : Ticket} {op : RunnerOp} (hop : op ≠ .mkdirTicket)
    (h : (t.after op).files.marked (·.remoteId) = false) : t.files.marked (·.remoteId) = false := by
  revert h
  cases op with
  | mkdirTicket => exact absurd rfl hop
  | inDir op => cases hd : t.files.dir <;> cases op <;>
      simp [Ticket.after, RunnerOp.apply, Files.marked, DirOp.apply, hd]
  | _ => exact id

/-- **Every operation that meets its condition keeps the invariant**, and moves the standing
forward. -/
theorem coherent_op {t : Ticket} {op : RunnerOp} (h : Coherent t) (hop : OpOk t op) :
    Coherent (t.after op) := by
  have hl := opOk_leads hop
  have hmk : op ≠ .mkdirTicket := by rintro rfl; exact hop
  constructor
  case tombstoned =>
    intro htomb
    refine (dir_after t op hmk).2 ?_
    cases op with
    | writeTombstone => exact hop
    | _ => exact h.tombstoned htomb
  case untaken => exact h.untaken.trans (dir_after t op hmk).symm
  case unspawnedDir => exact fun hd => h.unspawnedDir ((dir_after t op hmk).1 hd)
  case unrecorded => exact fun hm => h.unrecorded (marked_after hmk hm)
  case recorded =>
    intro he
    have hm := h.recorded he
    revert hm
    cases op with
    | inDir op =>
      cases op with
      | writeRemoteId => exact absurd he hop
      | _ => cases hd : t.files.dir <;>
          simp [Ticket.after, RunnerOp.apply, Files.marked, DirOp.apply, hd]
    | mkdirTicket => exact absurd rfl hmk
    | _ => exact id
  case unspawned => exact h.unspawned
  case unstarted => exact h.unstarted
  case ran => exact h.ran
  case queued =>
    intro hq
    cases op with
    | onLane op =>
      cases op with
      | writeQueue => exact hop
      | unlinkQueue => cases hq
      | _ => exact h.queued hq
    | _ => exact h.queued hq
  case leased =>
    intro ha
    have hle := h.leased ha
    cases op with
    | onLane op =>
      cases op with
      | unlinkLease => exact absurd ha hop
      | writeLease => rfl
      | _ => exact hle
    | _ => exact hle
  case withdrawn =>
    intro hw
    cases op with
    | onLane op =>
      cases op with
      | writeWithdrawMarker => exact barred_of_withdrawMarker h hop
      | unlinkMarkers => cases hw
      | _ => exact hl.barred (h.withdrawn hw)
    | _ => exact hl.barred (h.withdrawn hw)
  case result =>
    intro r hr
    cases op with
    | onLane op =>
      cases op with
      | writeResult r' => exact vouches_leads (Option.some.inj hr ▸ hop) hl
      | _ => exact vouches_leads (h.result r hr) hl
    | _ => exact vouches_leads (h.result r hr) hl
  case record =>
    intro d r hd hr
    cases op with
    | inDir op =>
      obtain ⟨d', hd', rfl⟩ := Option.map_eq_some_iff.1 hd
      cases op with
      | writeResult r' => exact vouches_leads (Option.some.inj hr ▸ hop) hl
      | _ => exact vouches_leads (h.record d' r hd' hr) hl
    | mkdirTicket => exact absurd rfl hmk
    | _ => exact vouches_leads (h.record d r hd hr) hl
  case execKnows => exact h.execKnows.leads hl
  case supKnows => exact h.supKnows

/-- The operations of a journal meet their conditions, each in the state it finds. -/
def JournalOk (t : Ticket) (journal : List RunnerOp) : Prop :=
  BeforeEach (fun op files => OpOk { t with files := files } op) journal t.files

/-- **What a journal does**: it keeps the invariant and moves the ticket forward, whether it is
done or cut off. -/
theorem Coherent.perform {t : Ticket} (h : Coherent t) {journal : List RunnerOp}
    (hj : JournalOk t journal) (crashAt : Option ℕ) :
    Coherent (t.perform journal crashAt) ∧
      (standing t).Leads (standing (t.perform journal crashAt)) := by
  have hall (es : List RunnerOp) (hes : JournalOk t es) :
      Coherent { t with files := applyAll es t.files } ∧
        (standing t).Leads (standing { t with files := applyAll es t.files }) := by
    refine hes.keep (I := fun files => Coherent { t with files := files } ∧
      (standing t).Leads (standing { t with files := files })) (fun op files hop hi => ?_)
      ⟨h, .refl _⟩
    exact ⟨coherent_op hi.1 hop, hi.2.trans (opOk_leads hop)⟩
  cases crashAt with
  | none => exact hall journal hj
  | some k => exact hall _ (hj.take k)

end Runner
end LaneBroker
