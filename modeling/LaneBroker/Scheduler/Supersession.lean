/-
# Repeats of a push

A push that is repeated replaces the earlier one: whoever enqueues a repeat marks the loser of the
two (`supersedeRepeatedPushes`).  The comparison is made once, when a ticket comes in, with the
tickets that are queued or leased then.  A ticket that is parked for a rebind is not among them, and
`restoreLocked` puts it back without comparing again; so a push that was repeated while it was away
runs beside its repeat (`not_forall_oneProcess`).  Two git processes of one pid are not told apart
either.  In runs without the two, all live repeats of a push belong to one git process
(`live_repeats_one_process`), and in every run a push is superseded by a later one only.
-/

import LaneBroker.Scheduler.Runs

namespace LaneBroker
namespace Scheduler

open LaneBroker.Basis LaneBroker.Basis.Barrier

/-! ### The machine -/

/-- A push that is queued or leased. -/
structure Push where
  id : TicketId
  repoId : ℕ
  gate : PushGate
  deriving DecidableEq, Repr

/-- The push of a ticket. -/
def Ticket.push (t : Ticket) : Option Push :=
  t.pushGate.map fun gate => { id := t.id, repoId := t.repoId, gate }

/-- The push of a lease. -/
def Lease.push (l : Lease) : Option Push :=
  l.pushGate.map fun gate => { id := l.id, repoId := l.repoId, gate }

/-- **The scheduler with its supersessions**: who was superseded by whom, in order. -/
structure PushYard extends Yard where
  supersessions : List (Push × Push) := []

/-- The repeats of one push: of one repository, worktree, branch and arguments. -/
def Push.Repeats (a b : Push) : Prop :=
  a.repoId = b.repoId ∧ a.gate.worktree = b.gate.worktree ∧ a.gate.branch = b.gate.branch ∧
    a.gate.pushArgsHash = b.gate.pushArgsHash

instance (a b : Push) : Decidable (a.Repeats b) := inferInstanceAs (Decidable (_ ∧ _))

/-- Both are gates of one git process. -/
def Push.SameProcess (a b : Push) : Prop :=
  a.gate.gitPid = b.gate.gitPid ∧ a.gate.gitStartEpoch = b.gate.gitStartEpoch

instance (a b : Push) : Decidable (a.SameProcess b) := inferInstanceAs (Decidable (_ ∧ _))

namespace PushYard

/-- The pushes that are queued or leased. -/
def pushes (s : PushYard) : List Push :=
  s.disk.leases.filterMap Lease.push ++ s.disk.queue.filterMap fun r => r.ticket.push

/-- What `supersedeRepeatedPushes` sees: the leases, and the queued tickets it can read. -/
def inSight (s : PushYard) : List Push :=
  s.disk.leases.filterMap Lease.push ++ s.disk.queue.filterMap fun r => r.read.bind Ticket.push

/-- A marker pair is written. -/
def supersede (s : PushYard) (loser winner : Push) : PushYard :=
  { s with
    superseded := Function.update s.superseded loser.id true
    cancelled := Function.update s.cancelled loser.id true
    supersessions := s.supersessions ++ [(loser, winner)] }

/-- The body of the loop of `supersedeRepeatedPushes`. -/
def compare (incoming : Push) (s : PushYard) (other : Push) : PushYard :=
  if other.id = incoming.id ∨ s.isLive other.id = false ∨ other.repoId ≠ incoming.repoId ∨
      isRepeatOfPush other.gate incoming.gate = false then s
  else if pushOrder other.gate incoming.gate < 0 then s.supersede other incoming
  else s.supersede incoming other

/-- **`supersedeRepeatedPushes`.** -/
def supersedeRepeatedPushes (s : PushYard) (incoming : Push) : PushYard :=
  s.inSight.foldl (compare incoming) s

end PushYard

/-- **The steps.** -/
inductive PushAct
  | enqueue (ticket record : Ticket) (place : ℕ)
  | cancel (id : TicketId)
  /-- `withdrawQueued`. -/
  | withdraw (id : TicketId)
  /-- `restoreLocked`. -/
  | restore (id : TicketId) (place : ℕ)
  /-- `discardRebinding`. -/
  | discard (id : TicketId)
  | dequeue (id : TicketId)
  /-- `clearTicketMarkers`, once nothing else is left of the ticket. -/
  | clear (id : TicketId)
  | release (id : TicketId)
  | heartbeat (leases : List Lease)
  | poll (id : TicketId) (reads : Poll) (io : CommitCall → Answer)

namespace PushYard

/-- What `restoreLocked` puts back: the parked record, or the one its supervisor has when there is
none. -/
def restored (s : PushYard) (id : TicketId) : Option QueueRecord :=
  (s.parked.find? (isRecordOf id)).or ((s.copies id).map fun t => { ticket := t })

/-- A step of the scheduler alone. -/
def lift (s : PushYard) (next : Option Yard) : Option PushYard :=
  next.map fun toYard => { s with toYard }

/-- **One step.** -/
def next (cfg : Config) (host : Host) (s : PushYard) : PushAct → Option PushYard
  | .enqueue ticket record place =>
    if (s.disk.leases.any fun l => l.id == ticket.id) = true then none
    else
      (s.lift (s.toYard.next cfg host (.enqueue ticket { ticket := record } place))).map fun s' =>
        match record.push with
        | some incoming => s'.supersedeRepeatedPushes incoming
        | none => s'
  | .cancel id => some { s with cancelled := Function.update s.cancelled id true }
  | .withdraw id =>
    if s.cancelled id then none
    else
      (s.disk.queue.find? (isRecordOf id)).map fun r =>
        { s with disk := s.disk.unlinked id, parked := s.parked ++ [r] }
  | .restore id place =>
    if s.disk.queue.any (isRecordOf id) = true then some s
    else
      (s.restored id).map fun r =>
        { s with
          disk := { s.disk with queue := s.disk.queue.insertIdx place r }
          parked := s.parked.eraseP (isRecordOf id) }
  | .discard id => some { s with parked := s.parked.eraseP (isRecordOf id) }
  | .dequeue id => some { s with disk := s.disk.unlinked id }
  | .clear id =>
    if (s.pushes.any fun push => push.id == id) = true then none
    else
      some
        { s with
          cancelled := Function.update s.cancelled id false
          superseded := Function.update s.superseded id false }
  | .release id => s.lift (s.toYard.next cfg host (.release id))
  | .heartbeat leases => s.lift (s.toYard.next cfg host (.heartbeat leases))
  | .poll id reads io => s.lift (s.toYard.next cfg host (.poll id reads io))

end PushYard

/-- **The scheduler and its pushes.** -/
def pushYard (cfg : Config) (host : Host) : Machine PushYard PushAct where
  start s := (yard cfg host).start s.toYard ∧ s.supersessions = []
  next := PushYard.next cfg host

/-! ### The comparison -/

namespace PushYard

variable {s : PushYard} {incoming other x : Push}

theorem compare_eq (incoming : Push) (s : PushYard) (other : Push) :
    compare incoming s other = s ∨
      ∃ loser winner, compare incoming s other = s.supersede loser winner ∧
        pushOrder loser.gate winner.gate < 0 := by
  unfold compare
  split_ifs with hskip hlt
  · exact .inl rfl
  · exact .inr ⟨_, _, rfl, hlt⟩
  · refine .inr ⟨_, _, rfl, ?_⟩
    simp only [not_or, Bool.not_eq_false] at hskip
    -- different processes are never level
    have hne : pushOrder other.gate incoming.gate ≠ 0 := by
      rw [Ne, pushOrder_eq_zero_iff]
      rintro ⟨-, hpid⟩
      simp [isRepeatOfPush, hpid] at hskip
    have hswap := pushOrder_swap other.gate incoming.gate
    omega

/-- What a comparison leaves alone, and that it revives nobody. -/
structure Marks (s s' : PushYard) : Prop where
  disk : s'.disk = s.disk
  parked : s'.parked = s.parked
  copies : s'.copies = s.copies
  live : ∀ id, s'.isLive id = true → s.isLive id = true
  later : (∀ p ∈ s.supersessions, pushOrder p.1.gate p.2.gate < 0) →
    ∀ p ∈ s'.supersessions, pushOrder p.1.gate p.2.gate < 0

theorem Marks.refl (s : PushYard) : Marks s s := ⟨rfl, rfl, rfl, fun _ h => h, fun h => h⟩

theorem Marks.trans {s s' s'' : PushYard} (h : Marks s s') (h' : Marks s' s'') : Marks s s'' :=
  ⟨h'.disk.trans h.disk, h'.parked.trans h.parked, h'.copies.trans h.copies,
    fun id hid => h.live id (h'.live id hid), fun hs => h'.later (h.later hs)⟩

theorem isLive_supersede (s : PushYard) (loser winner : Push) (id : TicketId) :
    (s.supersede loser winner).isLive id = (s.isLive id && id != loser.id) := by
  unfold supersede Yard.isLive
  by_cases hid : id = loser.id
  · simp [hid]
  · simp [hid]

theorem marks_compare (incoming : Push) (s : PushYard) (other : Push) :
    Marks s (compare incoming s other) := by
  rcases compare_eq incoming s other with heq | ⟨loser, winner, heq, hlt⟩
  · rw [heq]
    exact .refl s
  · rw [heq]
    refine ⟨rfl, rfl, rfl, fun id hid => ?_, fun hs p hp => ?_⟩
    · rw [isLive_supersede, Bool.and_eq_true] at hid
      exact hid.1
    · rcases List.mem_append.1 hp with hp | hp
      · exact hs p hp
      · rw [List.mem_singleton.1 hp]
        exact hlt

theorem marks_foldl (incoming : Push) (others : List Push) (s : PushYard) :
    Marks s (others.foldl (compare incoming) s) := by
  induction others generalizing s with
  | nil => exact .refl s
  | cons other others ih => exact (marks_compare incoming s other).trans (ih _)

/-- **After the comparison of two repeats one of them is dead.** -/
theorem compare_dead (hid : other.id ≠ incoming.id) (hrepo : other.repoId = incoming.repoId)
    (hrepeat : isRepeatOfPush other.gate incoming.gate = true) :
    (compare incoming s other).isLive other.id = false ∨
      (compare incoming s other).isLive incoming.id = false := by
  unfold compare
  cases hlive : s.isLive other.id with
  | false => exact .inl (by simp [hlive])
  | true =>
    rw [if_neg (by simp [hid, hrepo, hrepeat])]
    split_ifs
    · exact .inl (by simp [isLive_supersede])
    · exact .inr (by simp [isLive_supersede])

/-- **After the loop the incoming push has no live repeat of another process in sight.** -/
theorem foldl_dead {others : List Push} (hmem : other ∈ others) (hid : other.id ≠ incoming.id)
    (hrepo : other.repoId = incoming.repoId)
    (hrepeat : isRepeatOfPush other.gate incoming.gate = true) :
    (others.foldl (compare incoming) s).isLive other.id = false ∨
      (others.foldl (compare incoming) s).isLive incoming.id = false := by
  induction others generalizing s with
  | nil => cases hmem
  | cons first others ih =>
    rw [List.foldl_cons]
    rcases List.mem_cons.1 hmem with rfl | hmem
    · have hmarks := marks_foldl incoming others (compare incoming s other)
      have hdead : ∀ id, (compare incoming s other).isLive id = false →
          (others.foldl (compare incoming) (compare incoming s other)).isLive id = false := by
        intro id hdead
        by_contra hlive
        rw [Bool.not_eq_false] at hlive
        rw [hmarks.live id hlive] at hdead
        cases hdead
      exact (compare_dead hid hrepo hrepeat).imp (hdead _) (hdead _)
    · exact ih hmem

end PushYard

/-! ### What the steps keep -/

/-- **Every record can be read, and is the copy of its supervisor.** -/
structure PushSound (s : PushYard) : Prop where
  sound : Sound s.toYard
  readable : ∀ r ∈ s.records, r.readable = true

/-- **The live repeats of a push belong to one git process.** -/
def OneProcess (s : PushYard) : Prop :=
  ∀ x ∈ s.pushes, ∀ y ∈ s.pushes, s.isLive x.id = true → s.isLive y.id = true → x.Repeats y →
    x.SameProcess y

/-- Every supersession was by a later push. -/
def SupersededByLater (s : PushYard) : Prop :=
  ∀ p ∈ s.supersessions, pushOrder p.1.gate p.2.gate < 0

section Steps

variable {cfg : Config} {host : Host} {s s' : PushYard}

theorem Push.Repeats.symm {a b : Push} (h : a.Repeats b) : b.Repeats a :=
  ⟨h.1.symm, h.2.1.symm, h.2.2.1.symm, h.2.2.2.symm⟩

theorem Push.SameProcess.symm {a b : Push} (h : a.SameProcess b) : b.SameProcess a :=
  ⟨h.1.symm, h.2.symm⟩

theorem PushYard.mem_pushes {x : Push} : x ∈ s.pushes ↔
    (∃ l ∈ s.disk.leases, l.push = some x) ∨ ∃ r ∈ s.disk.queue, r.ticket.push = some x := by
  rw [PushYard.pushes, List.mem_append, List.mem_filterMap, List.mem_filterMap]

theorem PushYard.inSight_eq (hs : PushSound s) : s.inSight = s.pushes := by
  unfold PushYard.inSight PushYard.pushes
  congr 1
  refine List.filterMap_congr fun r hr => ?_
  rw [QueueRecord.read, if_pos (hs.readable r (List.mem_append_left _ hr))]
  rfl

/-- **Every record was there before, or is the copy of its supervisor.** -/
theorem PushSound.of_records (hs : PushSound s)
    (hrecords : ∀ r ∈ s'.records, r ∈ s.records ∨
      r.readable = true ∧ ∃ t, s.copies r.ticket.id = some t ∧ SameTicket r.ticket t)
    (hcopies : s'.copies = s.copies) : PushSound s' := by
  refine ⟨⟨fun r hr => ?_, fun id t ht => ?_⟩, fun r hr => ?_⟩
  · rw [hcopies]
    exact (hrecords r hr).elim (hs.sound.record r) fun h => h.2
  · rw [hcopies] at ht
    exact hs.sound.copy id t ht
  · exact (hrecords r hr).elim (hs.readable r) fun h => h.1

/-- **Fewer pushes, of which none came back to life.** -/
theorem OneProcess.fewer (h : OneProcess s) (hpushes : ∀ x ∈ s'.pushes, x ∈ s.pushes)
    (hlive : ∀ x ∈ s'.pushes, s'.isLive x.id = true → s.isLive x.id = true) : OneProcess s' :=
  fun x hx y hy hxl hyl hrepeats =>
    h x (hpushes x hx) y (hpushes y hy) (hlive x hx hxl) (hlive y hy hyl) hrepeats

/-- **One push more, which every live repeat in sight shares the process of.** -/
theorem OneProcess.joined {p : Push} (h : OneProcess s)
    (hpushes : ∀ x ∈ s'.pushes, x = p ∨ x ∈ s.pushes)
    (hlive : ∀ id, s'.isLive id = true → s.isLive id = true)
    (hp : ∀ x ∈ s.pushes, s'.isLive x.id = true → s'.isLive p.id = true → x.Repeats p →
      x.SameProcess p) : OneProcess s' := by
  intro x hx y hy hxl hyl hrepeats
  rcases hpushes x hx with rfl | hx'
  · rcases hpushes y hy with rfl | hy'
    · exact ⟨rfl, rfl⟩
    · exact (hp y hy' hyl hxl hrepeats.symm).symm
  · rcases hpushes y hy with rfl | hy'
    · exact hp x hx' hxl hyl hrepeats
    · exact h x hx' y hy' (hlive _ hxl) (hlive _ hyl) hrepeats

theorem pushes_of_queue_subset {x : Push} (hleases : s'.disk.leases = s.disk.leases)
    (hqueue : ∀ r ∈ s'.disk.queue, r ∈ s.disk.queue) (hx : x ∈ s'.pushes) : x ∈ s.pushes := by
  rw [PushYard.mem_pushes, hleases] at hx
  exact PushYard.mem_pushes.2 (hx.imp_right fun ⟨r, hr, hpush⟩ => ⟨r, hqueue r hr, hpush⟩)

theorem SameTicket.push_eq {t u : Ticket} (h : SameTicket t u) : t.push = u.push :=
  h.eq _ fun _ => rfl

/-- **The lease of a start is the push of its ticket.** -/
theorem Turn.lease_push (u : Turn) : u.lease.push = u.submitted.push := by
  obtain ⟨resources, weight, hticket⟩ := u.ticket_eq_submitted
  have hpush : u.lease.pushGate = u.submitted.pushGate ∧ u.lease.id = u.submitted.id ∧
      (u.submitted.pushGate.isSome = true → u.lease.repoId = u.submitted.repoId) := by
    cases hexclusive : u.exclusiveHolder with
    | true | false =>
      exact ⟨by simp [lease, hticket, hexclusive], by simp [lease, hticket, hexclusive],
        fun h => by simp [lease, hticket, hexclusive, h]⟩
  obtain ⟨hgate, hid, hrepo⟩ := hpush
  unfold Lease.push Ticket.push
  rw [hgate]
  cases hcase : u.submitted.pushGate with
  | none => rfl
  | some gate => simp [hid, hrepo (by simp [hcase])]

/-- The steps that the pushes share with the scheduler. -/
def Act.IsPlain (a : Act) : Prop :=
  (∃ id, a = .release id) ∨ (∃ leases, a = .heartbeat leases) ∨ ∃ id reads io, a = .poll id reads io

/-- **What such a step leaves alone.** -/
theorem work_of_next {a : Act} {s y : Yard} (hplain : a.IsPlain) (h : s.next cfg host a = some y) :
    (∀ r ∈ y.disk.queue, r ∈ s.disk.queue) ∧ y.parked = s.parked ∧ y.copies = s.copies ∧
      ∀ id, y.isLive id = s.isLive id := by
  rcases hplain with ⟨id, rfl⟩ | ⟨leases, rfl⟩ | ⟨id, reads, io, rfl⟩
  · obtain rfl := Option.some.inj h
    exact ⟨fun r hr => hr, rfl, rfl, fun _ => rfl⟩
  · simp only [Yard.next] at h
    split_ifs at h
    obtain rfl := Option.some.inj h
    exact ⟨fun r hr => hr, rfl, rfl, fun _ => rfl⟩
  · simp only [Yard.next] at h
    obtain ⟨t, -, rfl⟩ := Option.map_eq_some_iff.1 h
    have hwork := tryStart_work (Yard.pollOf cfg host s t reads) io
    exact ⟨fun r hr => hwork.1.subset hr, rfl, rfl, fun _ => rfl⟩

/-- **What is leased was queued**: the push of a start is that of a record in the queue. -/
theorem Started.push {s s' : Yard} {t : Ticket} {reads : Poll} {grant : Grant}
    (hs : Sound s) (h : Started cfg host s s' t reads grant) :
    ∃ r ∈ s.disk.queue, r.ticket.push = grant.lease.push := by
  obtain ⟨u, hpoll, -, -, -, rfl⟩ := h.turn hs
  obtain ⟨pre, r, post, hsplit, hid, -, -⟩ := Poll.readable_of_decideTicket h.granted
  have hr : r ∈ (Yard.pollOf cfg host s t reads).disk.queue := by
    rw [hsplit]
    simp
  have hcoherent : (Yard.pollOf cfg host s t reads).Coherent := hs.coherent h.copy
  refine ⟨r, hr, ?_⟩
  calc r.ticket.push = t.push := (hcoherent r hr hid).push_eq
    _ = u.submitted.push := by rw [(Turn.of_pollOf hpoll).1]
    _ = u.lease.push := u.lease_push.symm

/-- **Such a step brings no push.** -/
theorem pushes_of_next {a : Act} {y : Yard} (hs : PushSound s) (hplain : a.IsPlain)
    (h : s.toYard.next cfg host a = some y) :
    ∀ x ∈ ({ s with toYard := y } : PushYard).pushes, x ∈ s.pushes := by
  intro x hx
  rw [PushYard.mem_pushes]
  rcases PushYard.mem_pushes.1 hx with ⟨l', hl', hpush⟩ | ⟨r, hr, hpush⟩
  · rcases lease_step hs.sound h with hfewer | ⟨t, reads, io, grant, -, hstarted⟩
    · obtain ⟨l, hl, hcore, -⟩ := hfewer.lease l' hl'
      exact .inl ⟨l, hl, (Lease.eq_of_core hcore Lease.push fun _ => rfl).symm.trans hpush⟩
    · have hl'' : l' ∈ (s.disk.leased grant.lease).leases := hstarted.leases ▸ hl'
      rcases List.mem_append.1 hl'' with hold | hnew
      · exact .inl ⟨l', List.mem_of_mem_filter hold, hpush⟩
      · rw [List.mem_singleton.1 hnew] at hpush
        obtain ⟨r, hr, hrpush⟩ := hstarted.push hs.sound
        exact .inr ⟨r, hr, hrpush.trans hpush⟩
  · exact .inr ⟨r, (work_of_next hplain h).1 r hr, hpush⟩

theorem Ticket.push_id {t : Ticket} {p : Push} (h : t.push = some p) : p.id = t.id := by
  obtain ⟨gate, -, rfl⟩ := Option.map_eq_some_iff.1 h
  rfl

theorem Lease.push_id {l : Lease} {p : Push} (h : l.push = some p) : p.id = l.id := by
  obtain ⟨gate, -, rfl⟩ := Option.map_eq_some_iff.1 h
  rfl

/-- **What comes into the queue brings its own push and no other.** -/
theorem pushes_of_insert {r : QueueRecord} {place : ℕ}
    (hleases : s'.disk.leases = s.disk.leases)
    (hqueue : s'.disk.queue = s.disk.queue.insertIdx place r) :
    ∀ x ∈ s'.pushes, r.ticket.push = some x ∨ x ∈ s.pushes := by
  intro x hx
  rw [PushYard.mem_pushes, hleases, hqueue] at hx
  rcases hx with hx | ⟨r', hr', hpush⟩
  · exact .inr (PushYard.mem_pushes.2 (.inl hx))
  · rcases List.eq_or_mem_of_mem_insertIdx hr' with rfl | hr'
    · exact .inl hpush
    · exact .inr (PushYard.mem_pushes.2 (.inr ⟨r', hr', hpush⟩))

theorem mem_pushes_insert {r : QueueRecord} {place : ℕ}
    (hleases : s'.disk.leases = s.disk.leases)
    (hqueue : s'.disk.queue = s.disk.queue.insertIdx place r) : ∀ x ∈ s.pushes, x ∈ s'.pushes := by
  intro x hx
  rw [PushYard.mem_pushes] at hx
  rw [PushYard.mem_pushes, hleases, hqueue]
  exact hx.imp_right fun ⟨r', hr', hpush⟩ => ⟨r', List.subset_insertIdx _ _ _ hr', hpush⟩

theorem records_of_insert {r : QueueRecord} {place : ℕ}
    (hqueue : s'.disk.queue = s.disk.queue.insertIdx place r)
    (hparked : ∀ r ∈ s'.parked, r ∈ s.parked) : ∀ r' ∈ s'.records, r' = r ∨ r' ∈ s.records := by
  intro r' hr'
  rw [Yard.records, List.mem_append] at hr'
  rw [Yard.records, List.mem_append]
  rcases hr' with hr' | hr'
  · rw [hqueue] at hr'
    exact (List.eq_or_mem_of_mem_insertIdx hr').imp_right .inl
  · exact .inr (.inr (hparked r' hr'))

/-- **The push that comes in, or comes back, is told apart**: from a live repeat of its own pid by
the start of the process, and one that comes back has no live repeat of another process. -/
def PushYard.Apart (s : PushYard) : PushAct → Prop
  | .enqueue _ record _ => ∀ p ∈ record.push, ∀ x ∈ s.pushes, s.isLive x.id = true → x.Repeats p →
      x.gate.gitPid = p.gate.gitPid → x.gate.gitStartEpoch = p.gate.gitStartEpoch
  | .restore id _ => s.disk.queue.any (isRecordOf id) = false → ∀ r ∈ s.restored id,
      ∀ p ∈ r.ticket.push, s.isLive p.id = true →
        ∀ x ∈ s.pushes, s.isLive x.id = true → x.Repeats p → x.SameProcess p
  | _ => True

instance (s : PushYard) : DecidablePred s.Apart
  | .enqueue .. => inferInstanceAs (Decidable (∀ p ∈ _, ∀ x ∈ _, _ → _ → _ → _))
  | .restore .. => inferInstanceAs (Decidable (_ → ∀ r ∈ _, ∀ p ∈ _, _ → ∀ x ∈ _, _ → _ → _))
  | .cancel _ | .withdraw _ | .discard _ | .dequeue _ | .clear _ | .release _ | .heartbeat _
  | .poll .. => inferInstanceAs (Decidable True)

/-- What a step keeps. -/
structure PushKept (s s' : PushYard) (a : PushAct) : Prop where
  sound : PushSound s'
  later : SupersededByLater s → SupersededByLater s'
  one : s.Apart a → OneProcess s → OneProcess s'

/-- **A step that leaves the markers and brings no push.** -/
theorem PushKept.of_fewer {a : PushAct} (hsound : PushSound s')
    (hsupersessions : s'.supersessions = s.supersessions)
    (hpushes : ∀ x ∈ s'.pushes, x ∈ s.pushes)
    (hlive : ∀ x ∈ s'.pushes, s'.isLive x.id = true → s.isLive x.id = true) : PushKept s s' a :=
  ⟨hsound, fun h => by rwa [SupersededByLater, hsupersessions], fun _ h => h.fewer hpushes hlive⟩

theorem restored_sound {id : TicketId} {r : QueueRecord} (hs : PushSound s)
    (hr : s.restored id = some r) :
    r ∈ s.records ∨
      r.readable = true ∧ ∃ t, s.copies r.ticket.id = some t ∧ SameTicket r.ticket t := by
  rcases Option.or_eq_some_iff.1 hr with hparked | ⟨-, hcopy⟩
  · exact .inl (List.mem_append_right _ (List.mem_of_find?_eq_some hparked))
  · obtain ⟨t, ht, rfl⟩ := Option.map_eq_some_iff.1 hcopy
    have hid := (hs.sound.copy id t ht).1
    exact .inr ⟨rfl, t, by simpa [hid] using ht, .refl t⟩

/-- **`enqueue` compares the push that comes in with all that are there.** -/
theorem enqueue_kept {ticket record : Ticket} {place : ℕ} (hs : PushSound s)
    (h : (pushYard cfg host).next s (.enqueue ticket record place) = some s') :
    PushKept s s' (.enqueue ticket record place) := by
  simp only [pushYard, PushYard.next] at h
  split_ifs at h with hlease
  obtain ⟨s₁, hs₁, rfl⟩ := Option.map_eq_some_iff.1 h
  obtain ⟨y, hy, rfl⟩ := Option.map_eq_some_iff.1 hs₁
  have hyard : (yard cfg host).next s.toYard (.enqueue ticket { ticket := record } place) =
      some y := hy
  have hsound := sound_step hs.sound hyard
  simp only [Yard.next] at hy
  split_ifs at hy with hguard
  obtain ⟨hfresh, -, hsame⟩ := hguard
  obtain rfl := Option.some.inj hy
  set s₁ : PushYard := { s with toYard := _ } with hs₁
  have hrecords : ∀ r ∈ s₁.records, r = { ticket := record } ∨ r ∈ s.records :=
    records_of_insert rfl fun _ h => h
  have hsound₁ : PushSound s₁ :=
    ⟨hsound, fun r hr => (hrecords r hr).elim (fun h => by rw [h]) (hs.readable r)⟩
  have hpushes : ∀ x ∈ s₁.pushes, record.push = some x ∨ x ∈ s.pushes :=
    @pushes_of_insert s s₁ { ticket := record } place rfl rfl
  have hjoined : ∀ x ∈ s.pushes, x ∈ s₁.pushes := mem_pushes_insert rfl rfl
  cases hpush : record.push with
  | none =>
    refine .of_fewer hsound₁ rfl (fun x hx => ?_) fun _ _ h => h
    exact (hpushes x hx).resolve_left (by simp [hpush])
  | some p =>
    have hmarks : PushYard.Marks s₁ (s₁.supersedeRepeatedPushes p) := PushYard.marks_foldl p _ s₁
    -- nothing of this id was there before
    have hne : ∀ x ∈ s.pushes, x.id ≠ p.id := by
      intro x hx hid
      rw [Ticket.push_id hpush, hsame.id_eq] at hid
      rcases PushYard.mem_pushes.1 hx with ⟨l, hl, hlpush⟩ | ⟨r, hr, hrpush⟩
      · refine hlease (List.any_eq_true.2 ⟨l, hl, ?_⟩)
        rw [← Lease.push_id hlpush, hid, beq_self_eq_true]
      · obtain ⟨t, ht, -⟩ := hs.sound.record r (List.mem_append_left _ hr)
        rw [← Ticket.push_id hrpush, hid, hfresh] at ht
        cases ht
    refine ⟨?_, fun hlater => hmarks.later hlater, fun hapart hone => ?_⟩
    · exact hsound₁.of_records (fun r hr => .inl (by
        rwa [Yard.records, hmarks.disk, hmarks.parked] at hr)) hmarks.copies
    · have hpushes' : (s₁.supersedeRepeatedPushes p).pushes = s₁.pushes := by
        rw [PushYard.pushes, PushYard.pushes, hmarks.disk]
      refine hone.joined (p := p) (fun x hx => ?_) (fun id hid => hmarks.live id hid)
        fun x hx hxl hpl hrepeats => ?_
      · rw [hpushes'] at hx
        exact (hpushes x hx).imp_left fun h => (Option.some.inj (hpush.symm.trans h)).symm
      · have hpid : x.gate.gitPid = p.gate.gitPid := by
          by_contra hpid
          have hrepeat : isRepeatOfPush x.gate p.gate = true := by
            simp [isRepeatOfPush, hrepeats.2.1, hrepeats.2.2.1, hrepeats.2.2.2, hpid]
          have hsight : x ∈ s₁.inSight := by
            rw [PushYard.inSight_eq hsound₁]
            exact hjoined x hx
          rcases PushYard.foldl_dead hsight (hne x hx) hrepeats.1 hrepeat with hdead | hdead
          · exact Bool.false_ne_true (hdead.symm.trans hxl)
          · exact Bool.false_ne_true (hdead.symm.trans hpl)
        exact ⟨hpid, hapart p hpush x hx (hmarks.live _ hxl) hrepeats hpid⟩

/-- **`restoreLocked` compares nothing**: that the push is told apart is all there is. -/
theorem restore_kept {id : TicketId} {place : ℕ} (hs : PushSound s)
    (h : (pushYard cfg host).next s (.restore id place) = some s') :
    PushKept s s' (.restore id place) := by
  simp only [pushYard, PushYard.next] at h
  split_ifs at h with hqueued
  · obtain rfl := Option.some.inj h
    exact .of_fewer hs rfl (fun _ h => h) fun _ _ h => h
  · obtain ⟨r, hr, rfl⟩ := Option.map_eq_some_iff.1 h
    rw [Bool.not_eq_true] at hqueued
    set s₁ : PushYard :=
      { s with
        disk := { s.disk with queue := s.disk.queue.insertIdx place r }
        parked := s.parked.eraseP (isRecordOf id) }
    have hrecords : ∀ r' ∈ s₁.records, r' = r ∨ r' ∈ s.records :=
      records_of_insert rfl fun _ h => List.mem_of_mem_eraseP h
    have hpushes : ∀ x ∈ s₁.pushes, r.ticket.push = some x ∨ x ∈ s.pushes :=
      pushes_of_insert rfl rfl
    refine ⟨hs.of_records (fun r' hr' => ?_) rfl, fun h => h, fun hapart hone => ?_⟩
    · rcases hrecords r' hr' with rfl | hr'
      · exact restored_sound hs hr
      · exact .inl hr'
    · cases hpush : r.ticket.push with
      | none =>
        exact hone.fewer (fun x hx => (hpushes x hx).resolve_left (by simp [hpush])) fun _ _ h => h
      | some p =>
        refine hone.joined (p := p) (fun x hx => ?_) (fun _ h => h) fun x hx hxl hpl hrepeats => ?_
        · exact (hpushes x hx).imp_left fun h => (Option.some.inj (hpush.symm.trans h)).symm
        · exact hapart hqueued r hr p hpush hpl x hx hxl hrepeats

theorem lift_kept (cfg : Config) (host : Host) {a : PushAct} {b : Act} (hs : PushSound s)
    (hplain : b.IsPlain) (h : s.lift (s.toYard.next cfg host b) = some s') : PushKept s s' a := by
  obtain ⟨y, hy, rfl⟩ := Option.map_eq_some_iff.1 h
  obtain ⟨hqueue, hparked, hcopies, hlive⟩ := work_of_next hplain hy
  refine .of_fewer (hs.of_records (fun r hr => .inl ?_) hcopies) rfl (pushes_of_next hs hplain hy)
    fun x _ hx => (hlive x.id) ▸ hx
  rw [Yard.records, hparked, List.mem_append] at hr
  exact List.mem_append.2 (hr.imp_left (hqueue r))

/-- **What every step keeps.** -/
theorem push_step {a : PushAct} (hs : PushSound s) (h : (pushYard cfg host).next s a = some s') :
    PushKept s s' a := by
  cases a with
  | enqueue ticket record place => exact enqueue_kept hs h
  | restore id place => exact restore_kept hs h
  | release id => exact lift_kept cfg host hs (.inl ⟨id, rfl⟩) h
  | heartbeat leases => exact lift_kept cfg host hs (.inr (.inl ⟨leases, rfl⟩)) h
  | poll id reads io => exact lift_kept cfg host hs (.inr (.inr ⟨id, reads, io, rfl⟩)) h
  | cancel id =>
    obtain rfl := Option.some.inj h
    refine .of_fewer (hs.of_records (fun r hr => .inl hr) rfl) rfl (fun _ h => h)
      fun x _ hlive => ?_
    simp only [Yard.isLive, Bool.and_eq_true, Bool.not_eq_true'] at hlive ⊢
    refine ⟨?_, hlive.2⟩
    by_cases hid : x.id = id
    · simp [hid] at hlive
    · simpa [hid] using hlive.1
  | withdraw id =>
    simp only [pushYard, PushYard.next] at h
    split_ifs at h
    obtain ⟨r, hr, rfl⟩ := Option.map_eq_some_iff.1 h
    refine .of_fewer (hs.of_records (fun r' hr' => .inl ?_) rfl) rfl
      (fun x => pushes_of_queue_subset rfl fun r h => List.mem_of_mem_eraseP h) fun _ _ h => h
    rw [Yard.records, List.mem_append] at hr' ⊢
    rcases hr' with hr' | hr'
    · exact .inl (List.mem_of_mem_eraseP hr')
    · rcases List.mem_append.1 hr' with hr' | hr'
      · exact .inr hr'
      · exact .inl (List.mem_singleton.1 hr' ▸ List.mem_of_find?_eq_some hr)
  | discard id =>
    obtain rfl := Option.some.inj h
    refine .of_fewer (hs.of_records (fun r hr => .inl ?_) rfl) rfl (fun _ h => h) fun _ _ h => h
    rw [Yard.records, List.mem_append] at hr ⊢
    exact hr.imp_right List.mem_of_mem_eraseP
  | dequeue id =>
    obtain rfl := Option.some.inj h
    refine .of_fewer (hs.of_records (fun r hr => .inl ?_) rfl) rfl
      (fun x => pushes_of_queue_subset rfl fun r h => List.mem_of_mem_eraseP h) fun _ _ h => h
    rw [Yard.records, List.mem_append] at hr ⊢
    exact hr.imp_left List.mem_of_mem_eraseP
  | clear id =>
    simp only [pushYard, PushYard.next] at h
    split_ifs at h with hgone
    obtain rfl := Option.some.inj h
    refine .of_fewer (hs.of_records (fun r hr => .inl hr) rfl) rfl (fun _ h => h)
      fun x hx hlive => ?_
    have hne : x.id ≠ id := fun hid =>
      hgone (List.any_eq_true.2 ⟨x, hx, by rw [hid, beq_self_eq_true]⟩)
    simpa [Yard.isLive, hne] using hlive

end Steps

/-! ### Over the runs -/

theorem push_start {cfg : Config} {host : Host} {s : PushYard} (h : (pushYard cfg host).start s) :
    PushSound s ∧ SupersededByLater s ∧ OneProcess s := by
  obtain ⟨⟨hqueue, hleases, hparked, hcopies⟩, hsupersessions⟩ := h
  refine ⟨⟨@sound_start s.toYard cfg host ⟨hqueue, hleases, hparked, hcopies⟩,
    fun r hr => ?_⟩, fun p hp => ?_, fun x hx => ?_⟩
  · rw [Yard.records, hqueue, hparked] at hr
    cases hr
  · rw [hsupersessions] at hp
    cases hp
  · rw [PushYard.pushes, hqueue, hleases] at hx
    cases hx

/-- **A push is superseded by a later one only, and its live repeats belong to one git process**, as
long as every push that comes in or comes back is told apart from those that are there. -/
theorem live_repeats_one_process {cfg : Config} {host : Host} {s : PushYard}
    (h : (pushYard cfg host).Reach (fun _ _ => True) s) :
    SupersededByLater s ∧ ((pushYard cfg host).Reach PushYard.Apart s → OneProcess s) := by
  refine ⟨?_, fun hapart => ?_⟩
  · refine (h.invariant (P := fun s => PushSound s ∧ SupersededByLater s)
      (fun _ hstart => (push_start hstart).imp_right And.left) fun s a s' hs _ hnext => ?_).2
    have hkept := push_step hs.1 hnext
    exact ⟨hkept.sound, hkept.later hs.2⟩
  · refine (hapart.invariant (P := fun s => PushSound s ∧ OneProcess s)
      (fun _ hstart => (push_start hstart).imp_right And.right) fun s a s' hs hok hnext => ?_).2
    have hkept := push_step hs.1 hnext
    exact ⟨hkept.sound, hkept.one hok hs.2⟩

/-- A gate of a push by one git process: the later its pid, the later it started. -/
def pushBy (id : TicketId) (gitPid : ℕ) : Ticket :=
  { id, key := id, pushGate := some { gitPid, gitStartEpoch := gitPid } }

/-- A push comes in, and then a repeat of it. -/
def pushRepeated : List PushAct :=
  [.enqueue (pushBy 1 10) (pushBy 1 10) 0, .enqueue (pushBy 2 20) (pushBy 2 20) 1]

theorem pushRepeated_reached : ∃ s, (pushYard {} aloneInQueue.host).Reach PushYard.Apart s ∧
    decide (s.supersessions.map (fun p => (p.1.id, p.2.id)) = [(1, 2)]) = true :=
  (pushYard {} aloneInQueue.host).exists_reach_of_exec {} pushRepeated _
    ⟨⟨rfl, rfl, rfl, rfl⟩, rfl⟩
    (Machine.along_of_check (fun s a => decide (s.Apart a)) (fun _ _ => of_decide_eq_true) _
      (by decide +kernel)) (by decide +kernel)

theorem live_repeats_one_process_pushRepeated : ∃ s : PushYard,
    s.supersessions.map (fun p => (p.1.id, p.2.id)) = [(1, 2)] ∧ SupersededByLater s ∧
      OneProcess s := by
  obtain ⟨s, hs, hsuperseded⟩ := pushRepeated_reached
  have hboth := live_repeats_one_process (hs.mono fun _ _ _ => trivial)
  exact ⟨s, of_decide_eq_true hsuperseded, hboth.1, hboth.2 hs⟩

/-- **A push is repeated while its ticket is away**: the repeat does not see it, and it comes back
beside the repeat. -/
def parkedPush : List PushAct :=
  [.enqueue (pushBy 1 10) (pushBy 1 10) 0, .withdraw 1, .enqueue (pushBy 2 20) (pushBy 2 20) 0,
    .restore 1 0]

theorem parkedPush_reached :
    ∃ s, (pushYard {} aloneInQueue.host).Reach (fun _ _ => True) s ∧
      decide (s.pushes.map (fun x => (x.id, s.isLive x.id)) = [(1, true), (2, true)] ∧
        ∃ x ∈ s.pushes, ∃ y ∈ s.pushes, s.isLive x.id = true ∧ s.isLive y.id = true ∧
          x.Repeats y ∧ ¬ x.SameProcess y) = true :=
  (pushYard {} aloneInQueue.host).exists_reach_of_exec {} parkedPush _
    ⟨⟨rfl, rfl, rfl, rfl⟩, rfl⟩ (Machine.along_of_forall (fun _ _ => trivial) _ _)
    (by decide +kernel)

theorem not_forall_oneProcess :
    ¬ ∀ (cfg : Config) (host : Host) (s : PushYard),
      (pushYard cfg host).Reach (fun _ _ => True) s → OneProcess s ∧ SupersededByLater s := by
  intro h
  obtain ⟨s, hs, hboth⟩ := parkedPush_reached
  obtain ⟨-, x, hx, y, hy, hxl, hyl, hrepeats, hother⟩ := of_decide_eq_true hboth
  exact hother ((h _ _ s hs).1 x hx y hy hxl hyl hrepeats)

end Scheduler
end LaneBroker
