/-
# Runs of the scheduler

The machine the claims about reachable states speak of: the disk, what is parked for a rebind, the
copy of the ticket that each supervisor decides with, and the markers.  A supervisor evaluates its
ticket with any readings of the host and any answers of the calls (`poll`), and between the
evaluations tickets come and go in every way the rest of the program has: they are enqueued,
withdrawn, restored, retiered, cancelled, expired and released, and records are damaged and
repaired.

What the steps keep is that a record in the queue is the copy of its supervisor (`Sound`, from which
`Poll.Coherent` follows), and what a step does to the leases is said once, by `LeaseStep`.
-/

import LaneBroker.Basis.Machine
import LaneBroker.Scheduler.Handover

namespace LaneBroker
namespace Scheduler

open LaneBroker.Basis LaneBroker.Basis.Barrier

/-! ### What is validated -/

/-- **What the validation of the settings promises** and the bounds need. -/
structure Config.Valid (cfg : Config) : Prop where
  capacity : ∀ capacity ∈ cfg.capacity, 0 < capacity
  memory : 0 ≤ cfg.defaultMemoryBytesPerWeight

/-- **What `run.js` promises of a ticket**: no claim is negative, and an exclusive one has no
elastic floor. -/
def Ticket.Valid (t : Ticket) : Prop :=
  0 ≤ t.weight ∧ (t.resources.cpuCores.all fun cpu => decide (0 ≤ cpu)) = true ∧
    (t.resources.minCpuCores.all fun least => decide (0 ≤ least)) = true ∧
    (t.resources.memoryBytes.all fun memory => decide (0 ≤ memory)) = true ∧
    (t.exclusive = true → t.resources.minCpuCores = none)

instance (t : Ticket) : Decidable t.Valid := inferInstanceAs (Decidable (_ ∧ _))

/-! ### The machine -/

/-- **The state**: what is on the disk, and what the supervisors hold. -/
structure Yard where
  disk : Disk := {}
  /-- The queue records that are withdrawn for a rebind. -/
  parked : List QueueRecord := []
  /-- The supervisors' tickets. -/
  copies : TicketId → Option Ticket := fun _ => none
  cancelled : TicketId → Bool := fun _ => false
  superseded : TicketId → Bool := fun _ => false

/-- A lease without what a heartbeat writes. -/
def Lease.core (l : Lease) : Lease :=
  { l with
    observedAt := none
    observedCpuCores := none
    observedMemoryBytes := none
    observedCpuHistory := []
    state := .running }

/-- What a heartbeat does not write is the same of leases with one core. -/
theorem Lease.eq_of_core {α : Type} {l l' : Lease} (h : l'.core = l.core) (f : Lease → α)
    (hf : ∀ l : Lease, f l.core = f l) : f l' = f l := by
  rw [← hf l, ← hf l', h]

/-- A heartbeat writes observations, and a lease that is not running never runs again, nor does one
that is done come back. -/
def Lease.BeatsTo (l l' : Lease) : Prop :=
  l'.core = l.core ∧ (l'.state = .running → l.state = .running) ∧
    (l'.isHeld = true → l.isHeld = true)

instance (l l' : Lease) : Decidable (l.BeatsTo l') := inferInstanceAs (Decidable (_ ∧ _))

instance (t u : Ticket) : Decidable (SameTicket t u) := inferInstanceAs (Decidable (_ = _))

/-- **The steps.** -/
inductive Act
  /-- A ticket comes in, with its record, at a place of the queue. -/
  | enqueue (ticket : Ticket) (record : QueueRecord) (place : ℕ)
  /-- Records are withdrawn, restored, retiered, damaged, repaired, moved or dropped. -/
  | rearrange (queue parked : List QueueRecord)
  /-- Markers are written, and removed once no lease needs them. -/
  | mark (cancelled superseded : TicketId → Bool)
  | release (id : TicketId)
  | heartbeat (leases : List Lease)
  /-- The leases are listed in another order. -/
  | relist (leases : List Lease)
  /-- Whatever else happens to the skip records and the ledger, a migration included. -/
  | restore (store : Store) (expressAdmissions : List ℤ)
  /-- Nothing is left of a ticket, and its id may be used again. -/
  | forget (id : TicketId)
  /-- **A supervisor evaluates its ticket.** -/
  | poll (id : TicketId) (reads : Poll) (io : CommitCall → Answer)

namespace Yard

/-- Neither cancelled nor superseded. -/
def isLive (s : Yard) (id : TicketId) : Bool := !s.cancelled id && !s.superseded id

/-- The leases that hold their key. -/
def held (s : Yard) : List Lease := s.disk.leases.filter Lease.isHeld

/-- The evaluation of a ticket: the readings are free, the disk and the markers are as they are, and
a marker that is there at first is there at the end. -/
def pollOf (cfg : Config) (host : Host) (s : Yard) (t : Ticket) (reads : Poll) : Poll :=
  { reads with
    cfg
    host
    disk := s.disk
    submitted := t
    cancelled := s.cancelled
    superseded := s.superseded
    cancelledLate := reads.cancelledLate || s.cancelled t.id }

/-- A record of the queue, in the queue or parked. -/
def records (s : Yard) : List QueueRecord := s.disk.queue ++ s.parked

/-- **One step.** -/
def next (cfg : Config) (host : Host) (s : Yard) : Act → Option Yard
  | .enqueue ticket record place =>
    if s.copies ticket.id = none ∧ ticket.Valid ∧ SameTicket record.ticket ticket then
      some
        { s with
          disk := { s.disk with queue := s.disk.queue.insertIdx place record }
          copies := Function.update s.copies ticket.id (some ticket) }
    else none
  | .rearrange queue parked =>
    if ∀ r ∈ queue ++ parked, ∃ r₀ ∈ s.records, SameTicket r.ticket r₀.ticket then
      some { s with disk := { s.disk with queue }, parked }
    else none
  | .mark cancelled superseded =>
    if ∀ l ∈ s.disk.leases, s.isLive l.id = false →
        (!cancelled l.id && !superseded l.id) = false then
      some { s with cancelled, superseded }
    else none
  | .release id =>
    some { s with disk := { s.disk with leases := s.disk.leases.filter fun l => l.id != id } }
  | .heartbeat leases =>
    if List.Forall₂ Lease.BeatsTo s.disk.leases leases then
      some { s with disk := { s.disk with leases } }
    else none
  | .relist leases =>
    if leases.Perm s.disk.leases then some { s with disk := { s.disk with leases } } else none
  | .restore store expressAdmissions =>
    some { s with disk := { s.disk with store, expressAdmissions } }
  | .forget id =>
    if (s.records.any (isRecordOf id)) = false ∧
        (s.disk.leases.any fun l => l.id == id) = false then
      some { s with copies := Function.update s.copies id none }
    else none
  | .poll id reads io =>
    (s.copies id).map fun t => { s with disk := ((pollOf cfg host s t reads).tryStart io s.disk).2 }

end Yard

/-- **The scheduler**: at first nothing is queued and nothing runs. -/
def yard (cfg : Config) (host : Host) : Machine Yard Act where
  start s := s.disk.queue = [] ∧ s.disk.leases = [] ∧ s.parked = [] ∧ s.copies = fun _ => none
  next := Yard.next cfg host

/-- The states that runs reach. -/
abbrev Reached (cfg : Config) (host : Host) (s : Yard) : Prop :=
  (yard cfg host).Reach (fun _ _ => True) s

/-! ### Records and copies -/

/-- **A record is the copy of its supervisor**, and that is a ticket as it was submitted. -/
structure Sound (s : Yard) : Prop where
  record : ∀ r ∈ s.records, ∃ t, s.copies r.ticket.id = some t ∧ SameTicket r.ticket t
  copy : ∀ id t, s.copies id = some t → t.id = id ∧ t.Valid

theorem sound_start {s : Yard} {cfg : Config} {host : Host} (h : (yard cfg host).start s) :
    Sound s := by
  obtain ⟨hqueue, -, hparked, hcopies⟩ := h
  refine ⟨fun r hr => ?_, fun id t ht => ?_⟩
  · rw [Yard.records, hqueue, hparked] at hr
    exact absurd hr List.not_mem_nil
  · rw [hcopies] at ht
    cases ht

theorem sound_step {cfg : Config} {host : Host} {s s' : Yard} {a : Act} (hs : Sound s)
    (h : (yard cfg host).next s a = some s') : Sound s' := by
  cases a with
  | enqueue ticket record place =>
    simp only [yard, Yard.next] at h
    split_ifs at h with hguard
    obtain ⟨hfresh, hvalid, hsame⟩ := hguard
    obtain rfl := Option.some.inj h
    refine ⟨fun r hr => ?_, fun id t ht => ?_⟩
    · have hr' : r = record ∨ r ∈ s.records := by
        rw [Yard.records, List.mem_append] at hr
        rcases hr with hr | hr
        · exact (List.eq_or_mem_of_mem_insertIdx hr).imp_right fun h => List.mem_append_left _ h
        · exact .inr (List.mem_append_right _ hr)
      rcases hr' with rfl | hr'
      · exact ⟨ticket, by simp [hsame.id_eq], hsame⟩
      · obtain ⟨t, ht, hst⟩ := hs.record r hr'
        refine ⟨t, ?_, hst⟩
        have hne : r.ticket.id ≠ ticket.id := fun heq => by simp [heq, hfresh] at ht
        simpa [Function.update_of_ne hne] using ht
    · by_cases hid : id = ticket.id
      · subst hid
        simp only [Function.update_self, Option.some.injEq] at ht
        exact ht ▸ ⟨rfl, hvalid⟩
      · simp only [Function.update_of_ne hid] at ht
        exact hs.copy id t ht
  | rearrange queue parked =>
    simp only [yard, Yard.next] at h
    split_ifs at h with hguard
    obtain rfl := Option.some.inj h
    refine ⟨fun r hr => ?_, hs.copy⟩
    obtain ⟨r₀, hr₀, hsame⟩ := hguard r hr
    obtain ⟨t, ht, hst⟩ := hs.record r₀ hr₀
    exact ⟨t, by simpa [hsame.id_eq] using ht, hsame.trans hst⟩
  | mark cancelled superseded | heartbeat leases | relist leases =>
    simp only [yard, Yard.next] at h
    split_ifs at h
    obtain rfl := Option.some.inj h
    exact ⟨hs.record, hs.copy⟩
  | release id | restore store expressAdmissions =>
    obtain rfl := Option.some.inj h
    exact ⟨hs.record, hs.copy⟩
  | forget id =>
    simp only [yard, Yard.next] at h
    split_ifs at h with hguard
    obtain rfl := Option.some.inj h
    refine ⟨fun r hr => ?_, fun id' t ht => ?_⟩
    · obtain ⟨t, ht, hst⟩ := hs.record r hr
      refine ⟨t, ?_, hst⟩
      have hne : r.ticket.id ≠ id := fun heq => by
        have := List.any_eq_false.1 hguard.1 r hr
        simp [isRecordOf, heq] at this
      simpa [Function.update_of_ne hne] using ht
    · by_cases hid : id' = id
      · subst hid
        simp at ht
      · simp only [Function.update_of_ne hid] at ht
        exact hs.copy id' t ht
  | poll id reads io =>
    simp only [yard, Yard.next] at h
    obtain ⟨t, -, rfl⟩ := Option.map_eq_some_iff.1 h
    refine ⟨fun r hr => hs.record r ?_, hs.copy⟩
    rw [Yard.records, List.mem_append] at hr
    exact List.mem_append.2 (hr.imp_left fun hr =>
      (tryStart_work (Yard.pollOf cfg host s t reads) io).1.subset hr)

theorem Reached.sound {cfg : Config} {host : Host} {s : Yard} (h : Reached cfg host s) : Sound s :=
  h.invariant (fun _ => sound_start) fun _ _ _ hs _ hnext => sound_step hs hnext

/-- **The copy that decides is the record in the queue.** -/
theorem Sound.coherent {cfg : Config} {host : Host} {s : Yard} (hs : Sound s) {t : Ticket}
    {reads : Poll} (ht : s.copies t.id = some t) : (Yard.pollOf cfg host s t reads).Coherent := by
  intro r hr hid
  obtain ⟨t', ht', hsame⟩ := hs.record r (List.mem_append_left _ hr)
  have hid' : r.ticket.id = t.id := hid
  rw [hid', ht] at ht'
  exact Option.some.inj ht' ▸ hsame

/-! ### What a step does to the leases -/

/-- **The leases got fewer**, or were written without a change that counts, and none of them has
come back to life. -/
structure Fewer (s s' : Yard) : Prop where
  held : (s'.held.map Lease.core).Subperm (s.held.map Lease.core)
  lease : ∀ l' ∈ s'.disk.leases, ∃ l ∈ s.disk.leases, l.BeatsTo l'
  live : ∀ l' ∈ s'.disk.leases, s'.isLive l'.id = true → s.isLive l'.id = true

/-- **A ticket started**: a grant for the copy of its supervisor, and the lease of it. -/
structure Started (cfg : Config) (host : Host) (s s' : Yard) (t : Ticket) (reads : Poll)
    (grant : Grant) : Prop where
  copy : s.copies t.id = some t
  granted : (Yard.pollOf cfg host s t reads).decideTicket = .ok grant
  leases : s'.disk.leases = (s.disk.leased grant.lease).leases
  cancelled : s'.cancelled = s.cancelled
  superseded : s'.superseded = s.superseded

theorem Lease.BeatsTo.refl (l : Lease) : l.BeatsTo l := ⟨rfl, fun h => h, fun h => h⟩

theorem Fewer.of_same {s s' : Yard} (hleases : s'.disk.leases = s.disk.leases)
    (hlive : ∀ l ∈ s.disk.leases, s'.isLive l.id = true → s.isLive l.id = true) : Fewer s s' := by
  refine ⟨?_, fun l hl => ⟨l, hleases ▸ hl, .refl l⟩, fun l hl => hlive l (hleases ▸ hl)⟩
  rw [Yard.held, hleases]
  exact List.Subperm.refl _

theorem held_core_sublist {leases leases' : List Lease}
    (h : List.Forall₂ Lease.BeatsTo leases leases') :
    ((leases'.filter Lease.isHeld).map Lease.core).Sublist
      ((leases.filter Lease.isHeld).map Lease.core) := by
  induction h with
  | nil => exact List.Sublist.refl _
  | @cons l l' rest rest' hbeat _ ih =>
    cases hheld' : l'.isHeld with
    | true =>
      rw [List.filter_cons_of_pos hheld', List.filter_cons_of_pos (hbeat.2.2 hheld'), List.map_cons,
        List.map_cons, hbeat.1]
      exact ih.cons_cons _
    | false =>
      rw [List.filter_cons_of_neg (by simp [hheld'])]
      cases hheld : l.isHeld with
      | true =>
        rw [List.filter_cons_of_pos hheld, List.map_cons]
        exact ih.cons _
      | false =>
        rw [List.filter_cons_of_neg (by simp [hheld])]
        exact ih

/-- **What a step does to the leases.** -/
theorem lease_step {cfg : Config} {host : Host} {s s' : Yard} {a : Act} (hs : Sound s)
    (h : (yard cfg host).next s a = some s') :
    Fewer s s' ∨
      ∃ t reads io grant, a = .poll t.id reads io ∧ Started cfg host s s' t reads grant := by
  cases a with
  | enqueue ticket record place | rearrange queue parked | forget id =>
    simp only [yard, Yard.next] at h
    split_ifs at h
    obtain rfl := Option.some.inj h
    exact .inl (.of_same rfl fun _ _ h => h)
  | mark cancelled superseded =>
    simp only [yard, Yard.next] at h
    split_ifs at h with hguard
    obtain rfl := Option.some.inj h
    refine .inl (.of_same rfl fun l hl hlive => ?_)
    by_contra hdead
    rw [Bool.not_eq_true] at hdead
    have := hguard l hl hdead
    rw [Yard.isLive] at hlive
    exact Bool.false_ne_true (this.symm.trans hlive)
  | release id =>
    obtain rfl := Option.some.inj h
    refine .inl ⟨?_, fun l hl => ⟨l, List.mem_of_mem_filter hl, .refl l⟩, fun _ _ h => h⟩
    exact ((List.filter_sublist.filter _).map _).subperm
  | heartbeat leases =>
    simp only [yard, Yard.next] at h
    split_ifs at h with hguard
    obtain rfl := Option.some.inj h
    have hlease : ∀ l' ∈ leases, ∃ l ∈ s.disk.leases, l.BeatsTo l' := by
      intro l' hl'
      obtain ⟨i, hi, rfl⟩ := List.getElem_of_mem hl'
      have hi' : i < s.disk.leases.length := hguard.length_eq ▸ hi
      exact ⟨s.disk.leases[i], List.getElem_mem hi', hguard.get hi' hi⟩
    exact .inl ⟨(held_core_sublist hguard).subperm, hlease, fun _ _ h => h⟩
  | relist leases =>
    simp only [yard, Yard.next] at h
    split_ifs at h with hguard
    obtain rfl := Option.some.inj h
    exact .inl ⟨((hguard.filter _).map _).subperm,
      fun l hl => ⟨l, hguard.subset hl, .refl l⟩, fun _ _ h => h⟩
  | restore store expressAdmissions =>
    obtain rfl := Option.some.inj h
    exact .inl (.of_same rfl fun _ _ h => h)
  | poll id reads io =>
    simp only [yard, Yard.next] at h
    obtain ⟨t, ht, rfl⟩ := Option.map_eq_some_iff.1 h
    obtain ⟨rfl, -⟩ := hs.copy id t ht
    rcases (tryStart_work (Yard.pollOf cfg host s t reads) io).2 with
      hsame | ⟨grant, hgrant, -, hnew⟩
    · exact .inl (.of_same hsame fun _ _ h => h)
    · exact .inr ⟨t, reads, io, grant, rfl, ht, hgrant, hnew, rfl, rfl⟩

/-- A lease of which the core was held before. -/
theorem exists_core_of_subperm {held held' : List Lease}
    (h : (held'.map Lease.core).Subperm (held.map Lease.core)) :
    ∀ l' ∈ held', ∃ l ∈ held, l.core = l'.core := by
  intro l' hl'
  obtain ⟨l, hl, hcore⟩ := List.mem_map.1 (h.subset (List.mem_map_of_mem hl'))
  exact ⟨l, hl, hcore⟩

/-- What an evaluation takes from the state. -/
theorem Turn.of_pollOf {cfg : Config} {host : Host} {s : Yard} {t : Ticket} {reads : Poll}
    {u : Turn} (h : u.toPoll = Yard.pollOf cfg host s t reads) :
    u.submitted = t ∧ u.cfg = cfg ∧ u.host = host ∧ u.held = s.held := by
  rw [Poll.held, h]
  exact ⟨rfl, rfl, rfl, rfl⟩

/-- **What a start has passed**, read off the state. -/
theorem Started.turn {cfg : Config} {host : Host} {s s' : Yard} {t : Ticket} {reads : Poll}
    {grant : Grant} (hs : Sound s) (h : Started cfg host s s' t reads grant) :
    ∃ u : Turn, u.toPoll = Yard.pollOf cfg host s t reads ∧ u.Placed ∧ u.Starts ∧ u.Coherent ∧
      grant = u.grant := by
  obtain ⟨u, -, hpoll, hplaced, hstarts, hgrant⟩ := Poll.starts_of_decideTicket h.granted
  refine ⟨u, hpoll, hplaced, hstarts, ?_, hgrant⟩
  rw [hpoll]
  exact hs.coherent h.copy

end Scheduler
end LaneBroker
