/-
# Bounds over time

The runs of the scheduler on a clock that does not go back: every evaluation reads the clock under
the lock, so the readings follow one another.  Two bounds speak of that clock.  A bypass lease
counts against one allowance while it is younger than `queueBypassMaxMs` and against another one when
it has outrun it, and it goes from the first to the second with nothing but time (`bypass_bounded`).
Starts past the head through express or a priority yield share one ledger on the disk, which is read
when a ticket is judged and written before it starts (`express_within_rate`).
-/

import LaneBroker.Basis.Rate
import LaneBroker.Scheduler.Runs

namespace LaneBroker
namespace Scheduler

open LaneBroker.Basis LaneBroker.Basis.Fallible

/-! ### Starts -/

section Starts

variable {p : Poll} {io : CommitCall → Answer} {grant : Grant}

/-- **The start that an evaluation comes to**: its charges go through, and its lease is written. -/
def Poll.startOf (p : Poll) (io : CommitCall → Answer) : Option Grant :=
  match p.decideTicket with
  | .error _ => none
  | .ok grant =>
    match (charges p grant io (p.disk.onStore fun _ => grant.store)).1 with
    | .returned none =>
      if (p.tryStart io p.disk).2.leases = (p.disk.leased grant.lease).leases then some grant
      else none
    | _ => none

theorem Poll.startOf_eq_some (h : p.startOf io = some grant) : p.decideTicket = .ok grant ∧
    (charges p grant io (p.disk.onStore fun _ => grant.store)).1 = .returned none := by
  unfold startOf at h
  cases hdecide : p.decideTicket with
  | error denial =>
    rw [hdecide] at h
    cases h
  | ok grant' =>
    simp only [hdecide] at h
    split at h
    · rename_i hcharges
      split_ifs at h
      obtain rfl := Option.some.inj h
      exact ⟨rfl, hcharges⟩
    · cases h

theorem Poll.tryStart_of_ok (h : p.decideTicket = .ok grant) (io : CommitCall → Answer) (d : Disk) :
    p.tryStart io d = commit p grant io (d.onStore fun _ => grant.store) := by
  unfold tryStart
  rw [h]
  rfl

/-! ### The ledger of an evaluation -/

/-- The ledger with an entry more. -/
def chargedLedger (ledger : List ℤ) (now : ℤ) : List ℤ :=
  Turn.recentAdmissions ledger now ++ [now]

/-- **The ledger is as it was, or has an entry more.** -/
def Ledgered (p : Poll) (d d' : Disk) : Prop :=
  d'.expressAdmissions = d.expressAdmissions ∨
    d'.expressAdmissions = chargedLedger d.expressAdmissions p.now

theorem keeps_tried {P : Disk → Prop} {c : CommitCall} {f : Disk → Disk}
    (h : ∀ d, P d → P (f d)) : Keeps P (tried c f) :=
  Keeps.handle (Keeps.bind (keeps_write h) fun _ => keeps_pure _) fun _ => keeps_pure _

theorem keeps_chargeSkip (ledger : List ℤ) :
    Keeps (fun d => d.expressAdmissions = ledger) (chargeSkip p grant) := by
  unfold chargeSkip
  split
  · exact keeps_tried fun _ h => h
  · exact keeps_tried fun _ h => h
  · refine keeps_get.bind fun d => ?_
    split_ifs
    · refine Keeps.bind (keeps_tried fun _ h => h) fun ok => ?_
      split_ifs
      · exact keeps_tried fun _ h => h
      · exact keeps_pure _
    · exact keeps_tried fun _ h => h
  · exact keeps_pure _

theorem keeps_chargeYield (ledger : List ℤ) :
    Keeps (fun d => d.expressAdmissions = ledger) (chargeYield grant) := by
  unfold chargeYield
  split
  · exact keeps_tried fun _ h => h
  · exact keeps_pure _

/-- **The charges**: an express start that they let through is in the ledger. -/
theorem ends_charges_ledger {d : Disk} : Ends io (charges p grant) d
    (fun refusal d' => Ledgered p d d' ∧ (refusal = none → grant.express = true →
      d'.expressAdmissions = chargedLedger d.expressAdmissions p.now))
    (fun _ => Ledgered p d) (Ledgered p d) := by
  unfold charges
  refine Ends.bind ((keeps_chargeSkip d.expressAdmissions io d rfl).mono (fun _ _ h => h)
    (fun _ _ h => .inl h) fun _ h => .inl h) fun ok d₁ h₁ => ?_
  split_ifs
  · exact ⟨.inl h₁, nofun⟩
  · refine Ends.bind (R := fun ok d' => Ledgered p d d' ∧ (ok = true → grant.express = true →
      d'.expressAdmissions = chargedLedger d.expressAdmissions p.now)) ?_ fun ok d₂ h₂ => ?_
    · refine Ends.bind ((keeps_chargeYield d.expressAdmissions io d₁ h₁).mono (fun _ _ h => h)
        (fun _ _ h => .inl h) fun _ h => .inl h) fun ok d₂ h₂ => ?_
      split_ifs
      · unfold chargeExpress
        split_ifs with hexpress
        · have hcharged : chargedLedger d₂.expressAdmissions p.now =
              chargedLedger d.expressAdmissions p.now := by rw [h₂]
          exact ends_tried (fun _ => ⟨.inr hcharged, fun _ _ => hcharged⟩) (fun _ => ⟨.inl h₂, nofun⟩)
            (fun _ => ⟨.inr hcharged, nofun⟩) fun _ => .inl h₂
        · exact ⟨.inl h₂, fun _ h => absurd h hexpress⟩
      · exact ⟨.inl h₂, nofun⟩
    · cases ok with
      | true => exact ⟨h₂.1, fun _ => h₂.2 rfl⟩
      | false => exact ⟨h₂.1, nofun⟩
  · exact ⟨.inl h₁, nofun⟩

theorem keeps_moveToLease (ledger : List ℤ) :
    Keeps (fun d => d.expressAdmissions = ledger) (moveToLease grant) := by
  unfold moveToLease
  refine Keeps.bind ?_ fun gone => ?_
  · unfold dequeueSync
    refine Keeps.bind (keeps_tried fun _ h => h) fun found => ?_
    split_ifs
    · exact keeps_pure _
    · refine keeps_get.bind fun d => ?_
      split_ifs
      · exact keeps_pure _
      · exact Keeps.handle (Keeps.bind (keeps_call fun _ h => h) fun _ => keeps_pure _)
          fun _ => keeps_pure _
  · split_ifs
    · unfold writeLease
      refine Keeps.bind (keeps_call fun _ h => h) fun _ =>
        Keeps.bind (keeps_write fun _ h => h) fun _ =>
        Keeps.bind (keeps_call fun _ h => h) fun _ =>
        Keeps.bind (keeps_tried fun d h => ?_) fun _ => keeps_pure _
      unfold Disk.departed
      split_ifs
      · exact h
      · exact h
      · exact h
    · exact keeps_pure _

/-- **What an evaluation does to the ledger.** -/
theorem tryStart_ledger (p : Poll) (io : CommitCall → Answer) :
    Ledgered p p.disk (p.tryStart io p.disk).2 ∧
      ∀ grant, p.startOf io = some grant → grant.express = true →
        (p.tryStart io p.disk).2.expressAdmissions =
          chargedLedger p.disk.expressAdmissions p.now := by
  cases hdecide : p.decideTicket with
  | error denial =>
    refine ⟨?_, fun grant hstart => ?_⟩
    · rw [Poll.tryStart_of_error hdecide]
      exact .inl rfl
    · rw [(Poll.startOf_eq_some hstart).1] at hdecide
      cases hdecide
  | ok grant =>
    set d := p.disk.onStore fun _ => grant.store with hd
    let Q : Disk → Prop := fun d' => Ledgered p d d' ∧
      ((charges p grant io d).1 = .returned none → grant.express = true →
        d'.expressAdmissions = chargedLedger d.expressAdmissions p.now)
    have hself : Ends io (charges p grant) d
        (fun r d' => charges p grant io d = (.returned r, d'))
        (fun e d' => charges p grant io d = (.thrown e, d'))
        fun d' => charges p grant io d = (.died, d') :=
      ends_iff.2 ⟨fun _ _ h => h, fun _ _ h => h, fun _ h => h⟩
    have hcommit : Ends io (commit p grant) d (fun _ => Q) (fun _ => Q) Q := by
      refine Ends.bind ((hself.and ends_charges_ledger).mono (fun _ _ h => h)
        (fun _ _ h => ⟨h.2, fun hnone => ?_⟩) fun _ h => ⟨h.2, fun hnone => ?_⟩)
        fun refusal d' h => ?_
      · rw [h.1] at hnone
        cases hnone
      · rw [h.1] at hnone
        cases hnone
      · obtain ⟨hcharges, hledger, hcharged⟩ := h
        cases refusal with
        | some refusal =>
          refine ends_pure.2 ⟨hledger, fun hnone => ?_⟩
          rw [hcharges] at hnone
          cases hnone
        | none =>
          have hkept : ∀ d'' : Disk, d''.expressAdmissions = d'.expressAdmissions → Q d'' :=
            fun d'' heq => ⟨hledger.imp heq.trans heq.trans, fun _ hexpress =>
              heq.trans (hcharged rfl hexpress)⟩
          exact (keeps_moveToLease d'.expressAdmissions io d' rfl).mono (fun _ _ h => hkept _ h)
            (fun _ _ h => hkept _ h) fun _ h => hkept _ h
    have hfinal := hcommit.final
    rw [← Poll.tryStart_of_ok hdecide] at hfinal
    refine ⟨hfinal.1, fun grant' hstart hexpress => ?_⟩
    obtain ⟨hdecide', hcharges⟩ := Poll.startOf_eq_some hstart
    rw [hdecide] at hdecide'
    obtain rfl := Except.ok.inj hdecide'
    exact hfinal.2 hcharges hexpress

/-- **Express and a yield need room in the ledger.** -/
theorem Poll.room_of_express (h : p.decideTicket = .ok grant) (hexpress : grant.express = true) :
    (Turn.recentAdmissions p.disk.expressAdmissions p.now).length < p.cfg.expressPerMinute := by
  obtain ⟨s, -, rfl, -, -, rfl⟩ := starts_of_decideTicket h
  have hbypass : s.headBypass = true := (Bool.and_eq_true_iff.1 hexpress).1
  have hroom : s.expressRoom = true := by
    rcases Bool.or_eq_true_iff.1 hbypass with hadmit | hyield
    · have heligible : s.expressEligible = true := by
        simp only [Turn.expressAdmit, Bool.and_eq_true] at hadmit
        exact hadmit.1.1
      simp only [Turn.expressEligible, Bool.and_eq_true] at heligible
      exact heligible.2
    · have heligible : s.priorityYieldEligible = true := by
        simp only [Turn.priorityYield, Bool.and_eq_true] at hyield
        exact hyield.1
      simp only [Turn.priorityYieldEligible, Bool.and_eq_true] at heligible
      exact heligible.2
  exact of_decide_eq_true hroom

end Starts

/-! ### Runs on a clock -/

/-- **The scheduler on a clock**, with the times of the starts through express and yield. -/
structure Timed extends Yard where
  clock : ℤ := 0
  expressStarts : List ℤ := []

/-- **The steps**: time goes by, or something happens. -/
inductive TimedAct
  | tick (now : ℤ)
  | act (a : Act)

namespace Timed

/-- The express start that a step comes to. -/
def expressStartOf (cfg : Config) (host : Host) (s : Timed) : Act → List ℤ
  | .poll id reads io =>
    match s.copies id with
    | none => []
    | some t =>
      match (Yard.pollOf cfg host s.toYard t reads).startOf io with
      | none => []
      | some grant => if grant.express then [reads.now] else []
  | _ => []

/-- **One step.** -/
def next (cfg : Config) (host : Host) (s : Timed) : TimedAct → Option Timed
  | .tick now => some { s with clock := now }
  | .act a => (s.toYard.next cfg host a).map fun y =>
    { toYard := y
      clock := s.clock
      expressStarts := s.expressStarts ++ s.expressStartOf cfg host a }

/-- **The clock does not go back**, and an evaluation reads it. -/
def OnTime (s : Timed) : TimedAct → Prop
  | .tick now => s.clock ≤ now
  | .act (.poll _ reads _) => reads.now = s.clock
  | .act _ => True

instance (s : Timed) (a : TimedAct) : Decidable (s.OnTime a) := by
  unfold OnTime
  split <;> infer_instance

/-- The ledger is written by evaluations only. -/
def LedgerKept (s : Timed) : TimedAct → Prop
  | .act (.restore _ expressAdmissions) => expressAdmissions = s.disk.expressAdmissions
  | _ => True

end Timed

/-- **The scheduler on a clock**, before anything has started. -/
def timedYard (cfg : Config) (host : Host) : Machine Timed TimedAct where
  start s := (yard cfg host).start s.toYard ∧ s.expressStarts = []
  next := Timed.next cfg host

section Runs

variable {cfg : Config} {host : Host} {s s' : Timed} {ok : Timed → TimedAct → Prop}

/-! ### Bypass and floor leases -/

/-- A bypass lease that is younger than the window. -/
def Lease.bypassesAt (cfg : Config) (now : ℤ) (l : Lease) : Bool :=
  l.queueBypass && l.admittedAt.any fun admittedAt => now - admittedAt < cfg.queueBypassMaxMs

/-- **The bounds on bypass and floor leases.** -/
structure Bypassed (cfg : Config) (s : Timed) : Prop where
  inWindow : s.held.countP (Lease.bypassesAt cfg s.clock) ≤ cfg.queueBypassCap
  total : s.held.countP Lease.queueBypass ≤ 2 * cfg.queueBypassCap - 1
  floor : s.held.countP Lease.floor ≤ 1

/-- Leases leave the window, and none comes back. -/
theorem countP_bypassesAt_mono {now later : ℤ} (hle : now ≤ later) (held : List Lease) :
    held.countP (Lease.bypassesAt cfg later) ≤ held.countP (Lease.bypassesAt cfg now) := by
  refine List.countP_mono_left fun l _ hl => ?_
  simp only [Lease.bypassesAt, Bool.and_eq_true, Option.any_eq_true, decide_eq_true_eq] at hl ⊢
  obtain ⟨hbypass, admittedAt, hadmitted, hyoung⟩ := hl
  exact ⟨hbypass, admittedAt, hadmitted, by omega⟩

/-- Fewer leases count for less. -/
theorem Fewer.countP_le {y y' : Yard} (h : Fewer y y') (P : Lease → Bool)
    (hcore : ∀ l : Lease, P l.core = P l) : y'.held.countP P ≤ y.held.countP P := by
  have hmap : ∀ held : List Lease, (held.map Lease.core).countP P = held.countP P := by
    intro held
    rw [List.countP_map]
    exact List.countP_congr fun l _ => by rw [Function.comp_apply, hcore]
  have hle := h.held.countP_le P
  rwa [hmap, hmap] at hle

/-- A start counts for one more. -/
theorem Started.countP_le {y y' : Yard} {t : Ticket} {reads : Poll} {grant : Grant}
    (h : Started cfg host y y' t reads grant) (P : Lease → Bool) :
    y'.held.countP P ≤ y.held.countP P + if P grant.lease then 1 else 0 := by
  have hsub : (y'.held).Sublist (y.held ++ [grant.lease]) := by
    rw [Yard.held, h.leases, Disk.leased, List.filter_append]
    refine (List.Sublist.append ?_ List.filter_sublist)
    exact List.filter_sublist.filter _
  have hle := hsub.countP_le (p := P)
  rw [List.countP_append, List.countP_singleton] at hle
  exact hle

/-- What is in the window is held. -/
theorem countP_bypassesAt_le (now : ℤ) (held : List Lease) :
    held.countP (Lease.bypassesAt cfg now) ≤ held.countP Lease.queueBypass :=
  List.countP_mono_left fun _ _ hl => (Bool.and_eq_true_iff.1 hl).1

/-- **What a bypass has found**: room in the window, and room for what outran it. -/
theorem Turn.room_of_bypassAdmit {u : Turn} (h : u.bypassAdmit = true) :
    u.held.countP (Lease.bypassesAt u.cfg u.now) < u.cfg.queueBypassCap ∧
      u.held.countP Lease.queueBypass - u.held.countP (Lease.bypassesAt u.cfg u.now) <
        u.cfg.queueBypassCap := by
  have htrial : u.bypassTrial = true := by
    simp only [Turn.bypassAdmit, Bool.and_eq_true] at h
    exact h.1.1.1.1.1
  have hwindow : u.bypassInWindow = u.held.countP (Lease.bypassesAt u.cfg u.now) := by
    unfold Turn.bypassInWindow Turn.bypassHeld
    rw [List.filter_filter, ← List.countP_eq_length_filter]
    refine List.countP_congr fun l _ => ?_
    rw [Lease.bypassesAt, Bool.and_comm]
  have hheld : u.bypassHeld.length = u.held.countP Lease.queueBypass :=
    List.countP_eq_length_filter.symm
  simp only [Turn.bypassTrial, Bool.and_eq_true, decide_eq_true_eq, hwindow, hheld] at htrial
  exact htrial.1.1.1.1.1.1.1.1.2

theorem Turn.no_floor_of_floorAdmit {u : Turn} (h : u.floorAdmit = true) :
    u.held.countP Lease.floor = 0 := by
  have htrial : u.floorTrial = true := by
    simp only [Turn.floorAdmit, Bool.and_eq_true] at h
    exact h.1.1
  simp only [Turn.floorTrial, Bool.and_eq_true, Bool.not_eq_true'] at htrial
  rw [List.countP_eq_zero]
  intro l hl hfloor
  have hnone := List.any_eq_false.1 htrial.1.1.1.2 l hl
  exact hnone hfloor

/-- The lease of a start says how the ticket was lifted. -/
theorem Turn.lease_lifted (u : Turn) :
    u.lease.floor = u.floorAdmit ∧ u.lease.queueBypass = u.bypassAdmit := by
  unfold Turn.lease
  cases u.exclusiveHolder with
  | true => exact ⟨rfl, rfl⟩
  | false => exact ⟨rfl, rfl⟩

/-- **The step lemma.** -/
theorem bypassed_step {a : TimedAct} (hsound : Sound s.toYard) (hs : Bypassed cfg s)
    (htime : s.OnTime a) (hnext : (timedYard cfg host).next s a = some s') : Bypassed cfg s' := by
  cases a with
  | tick now =>
    obtain rfl := Option.some.inj hnext
    exact ⟨(countP_bypassesAt_mono htime s.held).trans hs.inWindow, hs.total, hs.floor⟩
  | act a =>
    obtain ⟨y, hy, rfl⟩ := Option.map_eq_some_iff.1 hnext
    rcases lease_step hsound hy with hfewer | ⟨t, reads, io, grant, rfl, hstarted⟩
    · constructor
      · exact (hfewer.countP_le _ fun _ => rfl).trans hs.inWindow
      · exact (hfewer.countP_le _ fun _ => rfl).trans hs.total
      · exact (hfewer.countP_le _ fun _ => rfl).trans hs.floor
    · obtain ⟨u, hpoll, -, -, -, rfl⟩ := hstarted.turn hsound
      obtain ⟨-, hcfg, -, hheld⟩ := Turn.of_pollOf hpoll
      have hnow : u.now = s.clock := by
        rw [hpoll]
        exact htime
      obtain ⟨hfloor, hbypass⟩ := u.lease_lifted
      have hin := hstarted.countP_le (Lease.bypassesAt cfg s.clock)
      have hall := hstarted.countP_le Lease.queueBypass
      have hfloors := hstarted.countP_le Lease.floor
      have hroom : u.lease.queueBypass = true →
          s.held.countP (Lease.bypassesAt cfg s.clock) < cfg.queueBypassCap ∧
            s.held.countP Lease.queueBypass - s.held.countP (Lease.bypassesAt cfg s.clock) <
              cfg.queueBypassCap := by
        intro h
        have := Turn.room_of_bypassAdmit (hbypass ▸ h)
        rwa [hcfg, hheld, hnow] at this
      have hfree : u.lease.floor = true → s.held.countP Lease.floor = 0 := by
        intro h
        have := Turn.no_floor_of_floorAdmit (hfloor ▸ h)
        rwa [hheld] at this
      have hwindow := hs.inWindow
      have htotal := hs.total
      have hone := hs.floor
      have hle := @countP_bypassesAt_le cfg s.clock s.held
      refine ⟨?_, ?_, ?_⟩
      · show y.held.countP (Lease.bypassesAt cfg s.clock) ≤ cfg.queueBypassCap
        split_ifs at hin with hyoung
        · have := hroom (Bool.and_eq_true_iff.1 hyoung).1
          omega
        · omega
      · show y.held.countP Lease.queueBypass ≤ 2 * cfg.queueBypassCap - 1
        split_ifs at hall with hlease
        · have := hroom hlease
          omega
        · omega
      · show y.held.countP Lease.floor ≤ 1
        split_ifs at hfloors with hlease
        · have := hfree hlease
          omega
        · omega

/-- **The bypass leases are bounded**: at most `queueBypassCap` are younger than the window, at most
`2 * queueBypassCap - 1` are held in all, and at most one lease holds the floor slot. -/
theorem bypass_bounded (h : (timedYard cfg host).Reach Timed.OnTime s) :
    (s.held.countP fun l => l.queueBypass && l.admittedAt.any fun admittedAt =>
        s.clock - admittedAt < cfg.queueBypassMaxMs) ≤ cfg.queueBypassCap ∧
      (s.held.countP fun l => l.queueBypass) ≤ 2 * cfg.queueBypassCap - 1 ∧
        (s.held.countP fun l => l.floor) ≤ 1 := by
  have hbypassed : Sound s.toYard ∧ Bypassed cfg s := by
    refine h.invariant (P := fun s => Sound s.toYard ∧ Bypassed cfg s) (fun s hs => ?_)
      fun s a s' hs htime hnext => ⟨?_, bypassed_step hs.1 hs.2 htime hnext⟩
    · have hempty : s.held = [] := by rw [Yard.held, hs.1.2.1, List.filter_nil]
      refine ⟨sound_start hs.1, ?_, ?_, ?_⟩
      all_goals simp [hempty]
    · cases a with
      | tick now => exact Option.some.inj hnext ▸ hs.1
      | act a =>
        obtain ⟨y, hy, rfl⟩ := Option.map_eq_some_iff.1 hnext
        exact sound_step hs.1 hy
  exact ⟨hbypassed.2.inWindow, hbypassed.2.total, hbypassed.2.floor⟩

end Runs

/-- Two bypasses at a time. -/
def twoBypasses : Config := { queueBypassCap := 2 }

/-- A host of ten cores. -/
def tenCores : Host := { cpuCores := 10, memoryBytes := 34359738368 }

/-- A ticket on a key of its own. -/
def onOwnKey (id : TicketId) : Ticket := { id, seq := id, key := id }

/-- A reading of a busy host, on which a short run is predicted. -/
def busyAt (now : ℤ) : Poll :=
  { cfg := {}
    host := tenCores
    disk := {}
    submitted := onOwnKey 0
    now
    cpuSample := some { hostBusyCores := some 10, cores := 10 }
    memInfo := some { availableBytes := some 34359738368, totalBytes := some 34359738368 }
    bypassPredicted := true }

/-- A ticket comes in and is evaluated. -/
def comesAndStarts (id : TicketId) (now : ℤ) : List TimedAct :=
  [.act (.enqueue (onOwnKey id) { ticket := onOwnKey id } 0),
    .act (.poll id (busyAt now) fun _ => .ok)]

/-- One bypass, and two more once it has outrun the window. -/
def threeBypasses : List TimedAct :=
  comesAndStarts 1 0 ++ [.tick 70000] ++ comesAndStarts 2 70000 ++ comesAndStarts 3 70000

/-- Three bypass leases are held, the bound, and two of them are in the window. -/
theorem bypass_bounded_threeBypasses : ∃ s : Timed,
    s.held.countP Lease.queueBypass = 3 ∧
      (s.held.countP fun l => l.queueBypass && l.admittedAt.any fun admittedAt =>
        s.clock - admittedAt < twoBypasses.queueBypassMaxMs) ≤ 2 ∧
        (s.held.countP fun l => l.floor) ≤ 1 := by
  obtain ⟨s, hs, hheld⟩ := (timedYard twoBypasses tenCores).exists_reach_of_exec {}
    threeBypasses (fun s => decide (s.held.countP Lease.queueBypass = 3))
    ⟨⟨rfl, rfl, rfl, rfl⟩, rfl⟩
    (Machine.along_of_check (fun s a => decide (s.OnTime a)) (fun _ _ h => of_decide_eq_true h) _
      (by decide +kernel)) (by decide +kernel)
  have hbounded := bypass_bounded hs
  exact ⟨s, of_decide_eq_true hheld, hbounded.1, hbounded.2.2⟩

/-! ### Express starts -/

section Express

variable {cfg : Config} {host : Host} {s s' : Timed}

instance (s : Timed) (a : TimedAct) : Decidable (s.LedgerKept a) := by
  unfold Timed.LedgerKept
  split <;> infer_instance

/-- **The rate of express starts is kept**, by the ledger on the disk. -/
def Timed.RateKept (cfg : Config) (s : Timed) : Prop :=
  Rate.Kept 60000 cfg.expressPerMinute s.disk.expressAdmissions s.expressStarts s.clock

/-- Only evaluations write the ledger. -/
theorem ledger_of_next {a : Act} {y : Yard} (h : s.toYard.next cfg host a = some y)
    (hpoll : ∀ id reads io, a ≠ .poll id reads io) (hkept : s.LedgerKept (.act a)) :
    y.disk.expressAdmissions = s.disk.expressAdmissions := by
  cases a with
  | poll id reads io => exact absurd rfl (hpoll id reads io)
  | restore store expressAdmissions =>
    obtain rfl := Option.some.inj h
    exact hkept
  | release id =>
    obtain rfl := Option.some.inj h
    rfl
  | enqueue | rearrange | mark | heartbeat | relist | forget =>
    simp only [Yard.next] at h
    split_ifs at h
    obtain rfl := Option.some.inj h
    rfl

/-- **An evaluation keeps the rate.** -/
theorem rateKept_poll {p : Poll} {io : CommitCall → Answer} {starts : List ℤ}
    (h : Rate.Kept 60000 p.cfg.expressPerMinute p.disk.expressAdmissions starts p.now) :
    Rate.Kept 60000 p.cfg.expressPerMinute (p.tryStart io p.disk).2.expressAdmissions
      (starts ++ match p.startOf io with
        | none => []
        | some grant => if grant.express then [p.now] else []) p.now := by
  obtain ⟨hledger, hexpress⟩ := tryStart_ledger p io
  have hidle : Rate.Kept 60000 p.cfg.expressPerMinute (p.tryStart io p.disk).2.expressAdmissions
      starts p.now := by
    rcases hledger with hsame | hcharged
    · rw [hsame]
      exact h
    · rw [hcharged]
      exact h.charge
  cases hstart : p.startOf io with
  | none => simpa using hidle
  | some grant =>
    cases hgrant : grant.express with
    | false => simpa [hgrant] using hidle
    | true =>
      have hroom := Poll.room_of_express (Poll.startOf_eq_some hstart).1 hgrant
      have hadmit : Rate.Kept 60000 p.cfg.expressPerMinute
          (chargedLedger p.disk.expressAdmissions p.now) (starts ++ [p.now]) p.now := h.admit hroom
      rw [hexpress grant hstart hgrant]
      simpa [hgrant] using hadmit

/-- **The step lemma.** -/
theorem rateKept_step {a : TimedAct} (hs : s.RateKept cfg) (htime : s.OnTime a)
    (hkept : s.LedgerKept a) (hnext : (timedYard cfg host).next s a = some s') :
    s'.RateKept cfg := by
  cases a with
  | tick now =>
    obtain rfl := Option.some.inj hnext
    exact Rate.Kept.tick hs htime
  | act a =>
    obtain ⟨y, hy, rfl⟩ := Option.map_eq_some_iff.1 hnext
    by_cases hpoll : ∃ id reads io, a = .poll id reads io
    · obtain ⟨id, reads, io, rfl⟩ := hpoll
      obtain ⟨t, ht, rfl⟩ := Option.map_eq_some_iff.1 hy
      have hnow : reads.now = s.clock := htime
      have hkept' := @rateKept_poll (Yard.pollOf cfg host s.toYard t reads) io s.expressStarts
        (hnow ▸ hs)
      unfold Timed.RateKept
      simp only [Timed.expressStartOf, ht]
      rw [← hnow]
      exact hkept'
    · have hsame := ledger_of_next hy (fun id reads io h => hpoll ⟨id, reads, io, h⟩) hkept
      have hnone : s.expressStartOf cfg host a = [] := by
        unfold Timed.expressStartOf
        split
        · exact absurd ⟨_, _, _, rfl⟩ hpoll
        · rfl
      unfold Timed.RateKept
      simp only [hsame, hnone, List.append_nil]
      exact hs

/-- **No minute has more than `expressPerMinute` starts through express or a yield**, wherever it
begins. -/
theorem express_within_rate
    (h : (timedYard cfg host).Reach (fun s a => s.OnTime a ∧ s.LedgerKept a) s) (t : ℤ) :
    (s.expressStarts.filter fun startedAt => t ≤ startedAt && startedAt < t + 60000).length ≤
      cfg.expressPerMinute := by
  have hkept : s.RateKept cfg := by
    refine h.invariant (P := fun s => s.RateKept cfg) (fun s hs => ?_)
      fun s a s' hs hok hnext => rateKept_step hs hok.1 hok.2 hnext
    unfold Timed.RateKept
    rw [hs.2]
    exact Rate.kept_nil _ _
  exact hkept.bounded t

end Express

/-- One express start a minute. -/
def oneExpress : Config := { expressPerMinute := 1 }

/-- A reading of an idle host, on which the ticket is express. -/
def expressAt (now : ℤ) : Poll :=
  { cfg := {}
    host := tenCores
    disk := {}
    submitted := onOwnKey 0
    now
    cpuSample := some { hostBusyCores := some 0, cores := 10 }
    expressEstimate := some 1000 }

/-- Two tickets wait behind a head.  The first one passes it, the second one asks in the same
minute, and again when the minute is over. -/
def expressTwice : List TimedAct :=
  [.act (.enqueue (onOwnKey 1) { ticket := onOwnKey 1 } 0),
    .act (.enqueue (onOwnKey 2) { ticket := onOwnKey 2 } 1),
    .act (.enqueue (onOwnKey 3) { ticket := onOwnKey 3 } 2),
    .act (.poll 2 (expressAt 0) fun _ => .ok), .tick 59999,
    .act (.poll 3 (expressAt 59999) fun _ => .ok), .tick 60000,
    .act (.poll 3 (expressAt 60000) fun _ => .ok)]

/-- They start sixty seconds apart. -/
theorem express_within_rate_expressTwice : ∃ s : Timed, s.expressStarts = [0, 60000] ∧
    ∀ t, (s.expressStarts.filter fun startedAt => t ≤ startedAt && startedAt < t + 60000).length ≤
      1 := by
  obtain ⟨s, hs, hstarts⟩ := (timedYard oneExpress tenCores).exists_reach_of_exec {}
    expressTwice (fun s => decide (s.expressStarts = [0, 60000]))
    ⟨⟨rfl, rfl, rfl, rfl⟩, rfl⟩
    (Machine.along_of_check (fun s a => decide (s.OnTime a ∧ s.LedgerKept a))
      (fun _ _ h => of_decide_eq_true h) _ (by decide +kernel)) (by decide +kernel)
  exact ⟨s, of_decide_eq_true hstarts, express_within_rate hs⟩

end Scheduler
end LaneBroker
