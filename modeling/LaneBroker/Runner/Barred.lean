/-
# What a runner tells a submitter is final

The submitter of a ticket runs the job elsewhere once a runner took the ticket back or
confirmed a cancel.  Every run of the runner only moves the standing of the ticket forward
(`later_leads`), so it refines the four-state host of `Standing`; and an answer to the
submitter is given only where the standing is already what the answer says.
-/

import LaneBroker.Runner.Steps

namespace LaneBroker
namespace Runner

open LaneBroker.Basis

/-- **The invariant of the runner**: the ticket is coherent, and every request under way knows
what it goes by. -/
structure Inv (w : World) : Prop where
  ticket : Coherent w.ticket
  requests : ∀ k r, w.requests.read k = some r → r.Knows w.ticket

/-- A supervisor's step, complete or cut off. -/
theorem sup_outcome {t : Ticket} {a : SupAct} {m : TicketMove} (h : Coherent t)
    (hm : supMove t a = some m) (crashAt : Option ℕ) :
    Coherent (m.outcome (toSup .gone) t crashAt) ∧ t.Leads (m.outcome (toSup .gone) t crashAt) := by
  obtain ⟨hs, hj, hdone⟩ := sup_step h hm
  have hp := (h.perform hj crashAt).1
  have hl := h.perform_leads hj crashAt
  cases crashAt with
  | none => exact ⟨(hdone hp).1, fun hd => (hdone hp).2.1 (hl.1 hd), hl.2.trans (hdone hp).2.2⟩
  | some k =>
    have hx := hp.toSup_over (p := .gone) hs rfl (fun hu => by cases hu) (fun hr => by cases hr)
      trivial
    exact ⟨hx.1, fun hd => hx.2.1 (hl.1 hd), hl.2.trans hx.2.2⟩

/-- What the requests know stays true when the ticket moves forward. -/
theorem Inv.forward {w : World} {t : Ticket} (h : Inv w) (ht : Coherent t)
    (hl : w.ticket.Leads t) : Inv { w with ticket := t } :=
  ⟨ht, fun k r hr => (h.requests k r hr).leads hl⟩

/-- A journal of a request, and what the request becomes. -/
theorem Inv.request {w : World} (h : Inv w) {m : RequestMove} (hm : RequestOk w.ticket m) (k : ℕ)
    (crashAt : Option ℕ) :
    Inv ⟨w.ticket.perform m.journal crashAt,
      putRequest k (if crashAt.isNone then m.becomes else none) w.requests⟩ := by
  have hl := h.ticket.perform_leads hm.1 crashAt
  refine ⟨(h.ticket.perform hm.1 crashAt).1, fun j r hr => ?_⟩
  have hother (hr : w.requests.read j = some r) : r.Knows (w.ticket.perform m.journal crashAt) :=
    (h.requests j r hr).leads hl
  change (putRequest k _ w.requests).read j = some r at hr
  cases hb : (if crashAt.isNone then m.becomes else none : Option Request) with
  | none =>
    rw [hb, putRequest, Dir.read_unlink] at hr
    split_ifs at hr
    exact hother hr
  | some b =>
    rw [hb, putRequest, Dir.read_write] at hr
    split_ifs at hr
    · cases crashAt with
      | none =>
        cases hr
        exact hm.2 r (by simpa using hb)
      | some c => cases hb
    · exact hother hr

/-- **Every step keeps the invariant and moves the ticket forward.** -/
theorem world_step {w w' : World} {l : Label} (h : Inv w) (hn : w.next l = some w') :
    Inv w' ∧ w.ticket.Leads w'.ticket := by
  unfold World.next at hn
  split at hn
  · obtain ⟨m, hm, rfl⟩ := Option.map_eq_some_iff.1 hn
    obtain ⟨hc, hl⟩ := exec_step h.ticket hm l.crashAt
    exact ⟨h.forward hc hl, hl⟩
  · obtain ⟨m, hm, rfl⟩ := Option.map_eq_some_iff.1 hn
    obtain ⟨hc, hl⟩ := sup_outcome h.ticket hm l.crashAt
    exact ⟨h.forward hc hl, hl⟩
  · rename_i k a _
    obtain ⟨m, hm, rfl⟩ := Option.map_eq_some_iff.1 hn
    have hok : RequestOk w.ticket m := by
      cases hr : w.requests.read k with
      | none =>
        rw [hr] at hm
        exact arrival_step hm
      | some r =>
        rw [hr] at hm
        exact request_step h.ticket (h.requests k r hr) hm
    exact ⟨h.request hok k l.crashAt, h.ticket.perform_leads hok.1 l.crashAt⟩
  · obtain ⟨journal, hm, rfl⟩ := Option.map_eq_some_iff.1 hn
    have hj := host_step h.ticket hm
    have hl := h.ticket.perform_leads hj l.crashAt
    exact ⟨h.forward (h.ticket.perform hj l.crashAt).1 hl, hl⟩

theorem inv_reach {w : World} (h : runnerMachine.Reach anyStep w) : Inv w := by
  refine h.invariant (P := Inv) (fun w hw => ?_) fun w l w' hw _ hn => (world_step hw hn).1
  subst hw
  exact ⟨coherent_unheard, fun k r hr => by simp at hr⟩

/-- **The runner refines the four-state host**: whatever happens, in any order, the standing of
the ticket only moves forward. -/
theorem later_leads {w w' : World} (h : Inv w) (hl : Later w w') :
    Inv w' ∧ (standing w.ticket).Leads (standing w'.ticket) := by
  induction hl with
  | refl => exact ⟨h, .refl _⟩
  | tail _ hstep ih =>
    obtain ⟨l, hn⟩ := hstep
    obtain ⟨hi, hl⟩ := world_step ih.1 hn
    exact ⟨hi, ih.2.trans hl.2⟩

theorem later_of_exec (ls : List Label) {w w' : World} (h : runnerMachine.exec w ls = some w') :
    Later w w' := by
  induction ls generalizing w with
  | nil => exact Option.some.inj h ▸ .refl
  | cons l ls ih =>
    obtain ⟨v, hv, hls⟩ := Option.bind_eq_some_iff.1 h
    exact (ih hls).head ⟨l, hv⟩

theorem not_started_of_barred {t : Ticket} (h : standing t = .barred) : t.started = false := by
  by_contra hs
  rw [standing_of_started (by simpa using hs)] at h
  cases h

/-- The answers by which the submitter takes a ticket back: the withdrawal is done, or the
ticket is tombstoned. -/
def Reply.takesBack : Reply → Bool
  | .withdraw .withdrawn | .withdraw .noSuchTicket => true
  | _ => false

/-- **A ticket that was taken back, or whose cancel was confirmed in time, never starts.**
Whatever requests arrive in whatever order, interleaved in any way with the steps of the exec
and of the supervisor: once a withdrawal answered `withdrawn`, or `no-such-ticket` with a
tombstone, the command never starts on this runner; and once a cancel was confirmed before the
command started, it never does. -/
theorem answered_ticket_never_starts {w w' : World} (h : runnerMachine.Reach anyStep w)
    (hl : Later w w') :
    (∀ k r, w.requests.read k = some (.replied r) → r.takesBack = true →
      w'.ticket.started = false) ∧
    (∀ k, w.requests.read k = some (.replied (.cancel true)) → w.ticket.started = false →
      w'.ticket.started = false) := by
  have hi := inv_reach h
  have hle := (later_leads hi hl).2
  constructor
  · intro k r hr htb
    have hb : standing w.ticket = .barred := by
      have hk := hi.requests k _ hr
      cases r with
      | withdraw action =>
        cases action with
        | withdrawn | noSuchTicket => exact hk
        | _ => cases htb
      | cancel confirmed => cases htb
    exact not_started_of_barred (hle.barred hb)
  · intro k hr hst
    have hk : (standing w.ticket).Settled := hi.requests k _ hr
    rcases hk with hb | hs
    · exact not_started_of_barred (hle.barred hb)
    · rw [standing_eq_started.1 hs] at hst
      cases hst

/-- A complete step. -/
def Label.whole (a : Act) : Label := ⟨a, none⟩

/-- A ticket that is taken in and enqueued, and then withdrawn; the dequeue fails. -/
def withdrawnRun : List Label :=
  [.whole (.exec .intake), .whole (.exec .onTicketCreated), .whole (.exec .spawnSupervisor),
    .whole (.sup .enqueue), .whole (.request 0 .withdraw), .whole (.request 0 .readRemoteId),
    .whole (.request 0 (.withdrawLane false))]

/-- The supervisor polls on, with every other gate open, and leaves. -/
def pollingRun : List Label :=
  [.whole (.sup (.tryStart false true true)), .whole (.sup (.dequeue true)),
    .whole (.sup .readCancel), .whole (.sup .publish), .whole (.sup .clear)]

theorem answered_ticket_never_starts_withdrawn :
    ∃ w w', runnerMachine.exec ⟨.unheard, .empty⟩ withdrawnRun = some w ∧
      runnerMachine.exec w pollingRun = some w' ∧ w.ticket.files.lane.queued = true ∧
      w.requests.read 0 = some (.replied (.withdraw .withdrawn)) ∧
      w'.ticket.files.lane.withdrawMarker = false ∧ w'.ticket.started = false :=
  ⟨_, _, rfl, rfl, rfl, rfl, rfl,
    (answered_ticket_never_starts
      (Machine.reach_of_exec withdrawnRun (.start rfl)
        (Machine.along_of_forall (fun _ _ => trivial) _ _) rfl)
      (later_of_exec pollingRun rfl)).1 0 (.withdraw .withdrawn) rfl rfl⟩

end Runner
end LaneBroker
