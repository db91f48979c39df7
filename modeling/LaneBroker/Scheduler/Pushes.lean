/-
# The pushes of one caller

A gate waits for the other pushes of its caller.  `pushHolds` finds out in one pass who waits; that
it finds what the comparison of all pairs would find is `holdsHas_pushHolds_iff`.  What it is for is
said of runs here: of one caller no two live pushes run at once, unless they are gates of one git
process.
-/

import LaneBroker.Scheduler.Held

namespace LaneBroker
namespace Scheduler

open LaneBroker.Basis LaneBroker.Basis.Barrier

/-- **One push of each caller runs.** -/
def OnePush (s : Yard) : Prop :=
  ∀ l₁ ∈ s.disk.leases, ∀ l₂ ∈ s.disk.leases, ∀ push₁ push₂, l₁.state = .running →
    l₂.state = .running → l₁.pushGate = some push₁ → l₂.pushGate = some push₂ →
    s.isLive l₁.id = true → s.isLive l₂.id = true → push₁.caller = push₂.caller →
    push₁.gitPid = push₂.gitPid

/-- **A gate that starts is not behind a running one** of another git process. -/
theorem Turn.Starts.notBehind {s : Turn} (h : s.Starts) (hplaced : s.Placed)
    (hcoherent : s.Coherent) {push other : PushGate} {l : Lease}
    (hpush : s.submitted.pushGate = some push) (hl : l ∈ s.held) (hrunning : l.state = .running)
    (hother : l.pushGate = some other) (hlive : s.isLive l.id = true)
    (hcaller : other.caller = push.caller) : other.gitPid = push.gitPid := by
  by_contra hne
  obtain ⟨resources, weight, hcapped⟩ := s.toPoll.budgetCapped_eq
  have hmem := hplaced.record_mem_firstRun (h.readableAhead hplaced)
  have hgate : s.record.pushGate = some push := by
    rw [(hplaced.sameTicket hcoherent hmem hplaced.record_id).pushGate, hcapped]
    exact hpush
  have hid : s.record.id = s.submitted.id := hplaced.record_id.trans s.toPoll.ticket_id
  have hholds : holdsHas s.pushHeld s.submitted.id = true :=
    holdsHas_pushHolds_iff.2 ⟨s.record, push, l.id,
      mem_of_mem_firstRun (Poll.mem_firstRun_queue hmem), hid, hgate, .running hl hrunning hother hlive rfl hcaller hne⟩
  exact Bool.false_ne_true (hplaced.notHeld.symm.trans hholds)

theorem onePush_fewer {s s' : Yard} (h : OnePush s) (hfewer : Fewer s s') : OnePush s' := by
  intro l₁' hl₁' l₂' hl₂' push₁ push₂ hrun₁ hrun₂ hpush₁ hpush₂ hlive₁ hlive₂ hcaller
  have hback : ∀ l' ∈ s'.disk.leases, ∀ push, l'.state = .running → l'.pushGate = some push →
      s'.isLive l'.id = true → ∃ l ∈ s.disk.leases, l.state = .running ∧ l.pushGate = some push ∧
        s.isLive l.id = true := by
    intro l' hl' push hrun hpush hlive
    obtain ⟨l, hl, hcore, hstate, -⟩ := hfewer.lease l' hl'
    refine ⟨l, hl, hstate hrun, ?_, ?_⟩
    · rw [← hpush]
      exact (Lease.eq_of_core hcore Lease.pushGate fun _ => rfl).symm
    · have hid : l'.id = l.id := Lease.eq_of_core hcore Lease.id fun _ => rfl
      exact hid ▸ hfewer.live l' hl' hlive
  obtain ⟨l₁, hl₁, hrun₁, hpush₁, hlive₁⟩ := hback l₁' hl₁' push₁ hrun₁ hpush₁ hlive₁
  obtain ⟨l₂, hl₂, hrun₂, hpush₂, hlive₂⟩ := hback l₂' hl₂' push₂ hrun₂ hpush₂ hlive₂
  exact h l₁ hl₁ l₂ hl₂ push₁ push₂ hrun₁ hrun₂ hpush₁ hpush₂ hlive₁ hlive₂ hcaller

theorem onePush_started {cfg : Config} {host : Host} {s s' : Yard} {t : Ticket} {reads : Poll}
    {grant : Grant} (hs : Sound s) (hcfg : cfg.Valid) (h : OnePush s)
    (hstarted : Started cfg host s s' t reads grant) : OnePush s' := by
  have hbegins := hstarted.begins hs hcfg
  obtain ⟨u, hpoll, hplaced, hstarts, hcoherent, rfl⟩ := hstarted.turn hs
  obtain ⟨hsubmitted, -, -, hheld⟩ := Turn.of_pollOf hpoll
  have hisLive : ∀ id, s'.isLive id = s.isLive id := fun id => by
    rw [Yard.isLive, Yard.isLive, hstarted.cancelled, hstarted.superseded]
  have hlive : ∀ id, u.isLive id = s.isLive id := fun id => by rw [Poll.isLive, hpoll]; rfl
  have hmem : ∀ l ∈ s'.disk.leases, l ∈ s.disk.leases ∨ l = u.grant.lease := by
    intro l hl
    rw [hstarted.leases, Disk.leased] at hl
    exact (List.mem_append.1 hl).imp List.mem_of_mem_filter List.mem_singleton.1
  -- beside the new lease
  have hnew : ∀ l ∈ s.disk.leases, ∀ push other, l.state = .running → l.pushGate = some other →
      s.isLive l.id = true → u.grant.lease.pushGate = some push → other.caller = push.caller →
      other.gitPid = push.gitPid := by
    intro l hl push other hrun hother hlive' hpush hcaller
    have hl' : l ∈ u.held := by
      rw [hheld]
      exact List.mem_filter.2 ⟨hl, by simp [Lease.isHeld, hrun]⟩
    rw [hbegins.pushGate, ← hsubmitted] at hpush
    exact hstarts.notBehind hplaced hcoherent hpush hl' hrun hother (hlive _ ▸ hlive') hcaller
  intro l₁ hl₁ l₂ hl₂ push₁ push₂ hrun₁ hrun₂ hpush₁ hpush₂ hlive₁ hlive₂ hcaller
  rw [hisLive] at hlive₁ hlive₂
  rcases hmem l₁ hl₁ with hold₁ | rfl
  · rcases hmem l₂ hl₂ with hold₂ | rfl
    · exact h l₁ hold₁ l₂ hold₂ push₁ push₂ hrun₁ hrun₂ hpush₁ hpush₂ hlive₁ hlive₂ hcaller
    · exact hnew l₁ hold₁ push₂ push₁ hrun₁ hpush₁ hlive₁ hpush₂ hcaller
  · rcases hmem l₂ hl₂ with hold₂ | rfl
    · exact (hnew l₂ hold₂ push₁ push₂ hrun₂ hpush₂ hlive₂ hpush₁ hcaller.symm).symm
    · rw [hpush₁] at hpush₂
      exact congrArg PushGate.gitPid (Option.some.inj hpush₂)

/-- **In every state that runs reach one push of each caller runs.** -/
theorem Reached.onePush {cfg : Config} {host : Host} {s : Yard} (hcfg : cfg.Valid)
    (h : Reached cfg host s) : OnePush s := by
  have hboth : Sound s ∧ OnePush s := by
    refine h.invariant (P := fun s => Sound s ∧ OnePush s) (fun s hs => ⟨sound_start hs, ?_⟩)
      fun s a s' hs _ hnext => ⟨sound_step hs.1 hnext, ?_⟩
    · intro l hl
      rw [hs.2.1] at hl
      exact absurd hl List.not_mem_nil
    · rcases lease_step hs.1 hnext with hfewer | ⟨t, reads, io, grant, -, hstarted⟩
      · exact onePush_fewer hs.2 hfewer
      · exact onePush_started hs.1 hcfg hs.2 hstarted
  exact hboth.2

/-- **The one pass over the pushes does what the comparison of all pairs does**: a gate waits
exactly for a live running gate of its caller with another git pid, or a live queued one that is
earlier in the order of the pushes; what is reported is such a gate; the earliest live push of a
caller waits for nobody once no other push of the caller runs; and in every state that runs reach
two live running gates of one caller have one git pid. -/
theorem pushHolds_spec (live : TicketId → Bool) (queue : List (Option Ticket))
    (leases : List Lease) :
    (∀ id, holdsHas (pushHolds live queue leases) id = true ↔
      ∃ t push holder, some t ∈ queue ∧ t.id = id ∧ t.pushGate = some push ∧
        HeldBy live queue leases push holder) ∧
    (∀ id, holdsHas (pushHolds live queue leases) id = true →
      ∃ holder, holdsGet (pushHolds live queue leases) id = some holder ∧
        ∃ t push, some t ∈ queue ∧ t.id = id ∧ t.pushGate = some push ∧
          HeldBy live queue leases push holder) ∧
    (∀ push holder,
      (∀ lease ∈ leases, ∀ other, lease.state = .running → lease.pushGate = some other →
        live lease.id = true → other.caller = push.caller → other.gitPid = push.gitPid) →
      (∀ t other, some t ∈ queue → t.pushGate = some other → live t.id = true →
        other.caller = push.caller → 0 ≤ pushOrder other push) →
      ¬ HeldBy live queue leases push holder) ∧
    ∀ (cfg : Config) (host : Host) (s : Yard), cfg.Valid → Reached cfg host s → OnePush s := by
  refine ⟨fun id => holdsHas_pushHolds_iff, fun id h => ?_, fun push holder => not_heldBy_of_least,
    fun cfg host s hcfg h => h.onePush hcfg⟩
  obtain ⟨holder, hholder⟩ := exists_holdsGet h
  exact ⟨holder, hholder, heldBy_of_holdsGet hholder⟩

/-- A gate of git process 10. -/
def gateOf (id : TicketId) : Ticket :=
  { id, key := id, pushGate := some { gitPid := 10, gitStartEpoch := 0 } }

/-- Two gates of one git process come in and start, the second after the cooldown. -/
def gateStarts : List Act :=
  [.enqueue (gateOf 1) { ticket := gateOf 1 } 0, .enqueue (gateOf 2) { ticket := gateOf 2 } 1,
    .poll 1 aloneInQueue fun _ => .ok,
    .poll 2
      { aloneInQueue with
        now := 10000
        later := 10000
        cpuSample := some { hostBusyCores := some 0, cores := 10 } }
      fun _ => .ok]

theorem gateStarts_reached : ∃ s, Reached aloneInQueue.cfg aloneInQueue.host s ∧
    decide (s.held.map Lease.id = [1, 2]) = true :=
  (yard aloneInQueue.cfg aloneInQueue.host).exists_reach_of_exec {} gateStarts _
    ⟨rfl, rfl, rfl, rfl⟩ (Machine.along_of_forall (fun _ _ => trivial) _ _) (by decide +kernel)

theorem pushHolds_spec_gateStarts : ∃ s, Reached aloneInQueue.cfg aloneInQueue.host s ∧
    s.held.map Lease.id = [1, 2] ∧ OnePush s := by
  obtain ⟨s, hs, hheld⟩ := gateStarts_reached
  exact ⟨s, hs, of_decide_eq_true hheld,
    (pushHolds_spec s.isLive [] []).2.2.2 _ _ s config_valid_default hs⟩

end Scheduler
end LaneBroker
