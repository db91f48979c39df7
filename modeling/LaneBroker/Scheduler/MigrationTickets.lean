/-
# The tickets around a migration

A ticket is in the queue exactly when its submitters and supervisors left it there, parked exactly
when it was withdrawn, and in no directory that new code does not look into (`Kept`).  Every step on
a ticket keeps that: it changes the files of the one ticket that it names (`Frame`).
-/

import LaneBroker.Scheduler.Migration

namespace LaneBroker
namespace Scheduler
namespace Migration

variable {τ : Type} {s s' : Root τ} {d : QueueDir τ} {t u : τ}

/-! ### Directories -/

/-- A directory has a ticket once. -/
def QueueDir.Once (d : QueueDir τ) : Prop := d.tickets.Nodup ∧ d.parked.Nodup

theorem once_empty : QueueDir.Once ({} : QueueDir τ) := ⟨List.nodup_nil, List.nodup_nil⟩

namespace Root

/-- The directories that new code does not look into. -/
def elsewhere (s : Root τ) : List (QueueDir τ) :=
  match s.queue with
  | .fence => s.legacy
  | .absent | .directory _ => s.legacy ++ s.queueV2.toList

@[simp] theorem queueDir_setQueueDir : (s.setQueueDir d).queueDir = some d := by
  cases hqueue : s.queue <;> simp [setQueueDir, queueDir, hqueue]

@[simp] theorem elsewhere_setQueueDir : (s.setQueueDir d).elsewhere = s.elsewhere := by
  cases hqueue : s.queue <;> simp [setQueueDir, elsewhere, hqueue]

@[simp] theorem queue_setQueueDir_eq_fence : (s.setQueueDir d).queue = .fence ↔ s.queue = .fence := by
  cases hqueue : s.queue <;> simp [setQueueDir, hqueue]

theorem exists_queue_setQueueDir (h : ∃ e, s.queue = .directory e) :
    ∃ e, (s.setQueueDir d).queue = .directory e := by
  obtain ⟨e, he⟩ := h
  exact ⟨d, by simp [setQueueDir, he]⟩

@[simp] theorem queued_setQueueDir : (s.setQueueDir d).queued = d.tickets := by
  rw [queued, queueDir_setQueueDir, Option.map_some, Option.getD_some]

@[simp] theorem rebinding_setQueueDir : (s.setQueueDir d).rebinding = d.parked := by
  rw [rebinding, queueDir_setQueueDir, Option.map_some, Option.getD_some]

@[simp] theorem attempts_setQueueDir : (s.setQueueDir d).attempts = s.attempts := by
  cases hqueue : s.queue <;> simp [setQueueDir, hqueue]

@[simp] theorem leases_setQueueDir : (s.setQueueDir d).leases = s.leases := by
  cases hqueue : s.queue <;> simp [setQueueDir, hqueue]

@[simp] theorem status_setQueueDir : (s.setQueueDir d).status = s.status := by
  cases hqueue : s.queue <;> simp [setQueueDir, hqueue]

@[simp] theorem fairness_setQueueDir : (s.setQueueDir d).fairness = s.fairness := by
  cases hqueue : s.queue <;> simp [setQueueDir, hqueue]

@[simp] theorem schedFence_setQueueDir : (s.setQueueDir d).schedFence = s.schedFence := by
  cases hqueue : s.queue <;> simp [setQueueDir, hqueue]

@[simp] theorem migrator_setQueueDir : (s.setQueueDir d).migrator = s.migrator := by
  cases hqueue : s.queue <;> simp [setQueueDir, hqueue]

theorem queueDir_of_queueOf {v : Version} (h : s.queueOf v = some d) : s.queueDir = some d := by
  cases v with
  | new => exact h
  | old =>
    cases hqueue : s.queue <;> simp_all [queueOf, oldQueueDir, queueDir]

theorem eq_of_enqueueDir {v : Version} (h : s.enqueueDir v = some d) :
    d = s.queueDir.getD {} := by
  cases v with
  | new => exact (Option.some.inj h).symm
  | old =>
    cases hqueue : s.queue <;> simp_all [enqueueDir, queueDir]

theorem queued_of_queueDir (h : s.queueDir = some d) : s.queued = d.tickets := by
  simp [queued, h]

theorem rebinding_of_queueDir (h : s.queueDir = some d) : s.rebinding = d.parked := by
  simp [rebinding, h]

theorem queued_eq_getD : s.queued = (s.queueDir.getD {}).tickets := by
  cases h : s.queueDir <;> simp [queued, h]

theorem rebinding_eq_getD : s.rebinding = (s.queueDir.getD {}).parked := by
  cases h : s.queueDir <;> simp [rebinding, h]

/-! ### What holds -/

/-- **A ticket is where it is looked for**, and nowhere else. -/
structure TicketOk (s : Root τ) (t : τ) : Prop where
  queued : s.status t = .queued ↔ t ∈ s.queued
  parked : s.status t = .withdrawn → t ∈ s.rebinding ∧ t ∈ s.attempts
  rebinding : t ∈ s.rebinding → s.status t = .withdrawn ∨ s.status t = .ended
  leased : t ∈ s.leases → s.status t = .started ∨ s.status t = .ended
  elsewhere : ∀ d ∈ s.elsewhere, t ∉ d.tickets ∧ (t ∈ d.parked → s.status t = .ended)

/-- **No ticket is lost or there twice.** -/
structure Kept (s : Root τ) : Prop where
  ticket : ∀ t, s.TicketOk t
  once : ∀ d ∈ s.queueDir.toList ++ s.elsewhere, d.Once

theorem Kept.once_queueDir (h : s.Kept) (hdir : s.queueDir = some d) : d.Once :=
  h.once d (List.mem_append_left _ (by simp [hdir]))

theorem Kept.once_getD (h : s.Kept) : (s.queueDir.getD {}).Once := by
  cases hdir : s.queueDir with
  | none => exact once_empty
  | some d => exact h.once_queueDir hdir

/-! ### Tickets -/

/-- A ticket that a step does not name. -/
theorem TicketOk.congr (h : s.TicketOk u) (hstatus : s'.status u = s.status u)
    (hqueued : u ∈ s'.queued ↔ u ∈ s.queued) (hrebinding : u ∈ s'.rebinding ↔ u ∈ s.rebinding)
    (hattempts : u ∈ s.attempts → u ∈ s'.attempts) (hleases : u ∈ s'.leases → u ∈ s.leases)
    (helse : s'.elsewhere = s.elsewhere) : s'.TicketOk u where
  queued := by rw [hstatus, hqueued, h.queued]
  parked hw := by
    rw [hstatus] at hw
    exact ⟨hrebinding.2 (h.parked hw).1, hattempts (h.parked hw).2⟩
  rebinding hu := by
    rw [hstatus]
    exact h.rebinding (hrebinding.1 hu)
  leased hu := by
    rw [hstatus]
    exact h.leased (hleases hu)
  elsewhere := by
    rw [helse, hstatus]
    exact h.elsewhere

/-- What a step does to the files of the other tickets. -/
structure Frame (t : τ) (s s' : Root τ) : Prop where
  status : ∀ u, u ≠ t → s'.status u = s.status u
  queued : ∀ u, u ≠ t → (u ∈ s'.queued ↔ u ∈ s.queued)
  rebinding : ∀ u, u ≠ t → (u ∈ s'.rebinding ↔ u ∈ s.rebinding)
  attempts : ∀ u, u ≠ t → u ∈ s.attempts → u ∈ s'.attempts
  leases : ∀ u, u ≠ t → u ∈ s'.leases → u ∈ s.leases
  elsewhere : s'.elsewhere = s.elsewhere

/-- **The files of one ticket change.** -/
theorem Kept.moves (h : s.Kept) (hframe : Frame t s s') (ht : s'.TicketOk t)
    (honce : ∀ d ∈ s'.queueDir, d.Once) : s'.Kept := by
  refine ⟨fun u => ?_, fun d hd => ?_⟩
  · by_cases hu : u = t
    · exact hu ▸ ht
    · exact (h.ticket u).congr (hframe.status u hu) (hframe.queued u hu) (hframe.rebinding u hu)
        (hframe.attempts u hu) (hframe.leases u hu) hframe.elsewhere
  · rcases List.mem_append.1 hd with hd | hd
    · exact honce d (Option.mem_toList.1 hd)
    · rw [hframe.elsewhere] at hd
      exact h.once d (List.mem_append_right _ hd)

section
variable [DecidableEq τ] {st : Status}

@[simp] theorem queueDir_become : (s.become t st).queueDir = s.queueDir := rfl
@[simp] theorem queued_become : (s.become t st).queued = s.queued := rfl
@[simp] theorem rebinding_become : (s.become t st).rebinding = s.rebinding := rfl
@[simp] theorem elsewhere_become : (s.become t st).elsewhere = s.elsewhere := rfl
@[simp] theorem attempts_become : (s.become t st).attempts = s.attempts := rfl
@[simp] theorem leases_become : (s.become t st).leases = s.leases := rfl

@[simp] theorem status_become_self : (s.become t st).status t = st := Function.update_self ..

theorem status_become_of_ne (h : u ≠ t) : (s.become t st).status u = s.status u :=
  Function.update_of_ne h ..

/-- A write into the queue directory that is about one ticket. -/
theorem frame_setQueueDir {d' : QueueDir τ} (hd : s.queueDir.getD {} = d)
    (htickets : ∀ u, u ≠ t → (u ∈ d'.tickets ↔ u ∈ d.tickets))
    (hparked : ∀ u, u ≠ t → (u ∈ d'.parked ↔ u ∈ d.parked)) :
    Frame t s ((s.setQueueDir d').become t st) where
  status u hu := by rw [status_become_of_ne hu, status_setQueueDir]
  queued u hu := by rw [queued_become, queued_setQueueDir, htickets u hu, queued_eq_getD, hd]
  rebinding u hu := by
    rw [rebinding_become, rebinding_setQueueDir, hparked u hu, rebinding_eq_getD, hd]
  attempts u _ hmem := by rwa [attempts_become, attempts_setQueueDir]
  leases u _ hmem := by rwa [leases_become, leases_setQueueDir] at hmem
  elsewhere := by rw [elsewhere_become, elsewhere_setQueueDir]

end

/-- **The queue files stay as they are.** -/
theorem Kept.same (h : s.Kept) (hdir : s'.queueDir.getD {} = s.queueDir.getD {})
    (helse : s'.elsewhere = s.elsewhere) (hstatus : s'.status = s.status)
    (hattempts : s'.attempts = s.attempts) (hleases : s'.leases = s.leases) : s'.Kept := by
  have hqueued : s'.queued = s.queued := by rw [queued_eq_getD, queued_eq_getD, hdir]
  have hrebinding : s'.rebinding = s.rebinding := by
    rw [rebinding_eq_getD, rebinding_eq_getD, hdir]
  refine ⟨fun t => ?_, fun d hd => ?_⟩
  · exact (h.ticket t).congr (by rw [hstatus]) (by rw [hqueued]) (by rw [hrebinding])
      (by rw [hattempts]; exact id) (by rw [hleases]; exact id) helse
  · rcases List.mem_append.1 hd with hd | hd
    · have hget : s.queueDir.getD {} = d := by rw [← hdir, Option.mem_toList.1 hd, Option.getD_some]
      exact hget ▸ h.once_getD
    · rw [helse] at hd
      exact h.once d (List.mem_append_right _ hd)

/-! ### Steps on a ticket -/

section
variable [DecidableEq τ]

/-- A write into the queue directory, about one ticket. -/
theorem Kept.writes (h : s.Kept) {d' : QueueDir τ} {st : Status} (hd : s.queueDir.getD {} = d)
    (htickets : ∀ u, u ≠ t → (u ∈ d'.tickets ↔ u ∈ d.tickets))
    (hparked : ∀ u, u ≠ t → (u ∈ d'.parked ↔ u ∈ d.parked)) (hd' : d'.Once)
    (ht : ((s.setQueueDir d').become t st).TicketOk t) :
    ((s.setQueueDir d').become t st).Kept :=
  h.moves (frame_setQueueDir hd htickets hparked) ht (by simpa using hd')

omit [DecidableEq τ] in
theorem mem_append_of_ne {l : List τ} (hu : u ≠ t) : u ∈ l ++ [t] ↔ u ∈ l := by simp [hu]

theorem Kept.enqueue (h : s.Kept) (hd : s.queueDir.getD {} = d) (ht : s.enqueues t = true) :
    ((s.setQueueDir { d with tickets := d.tickets ++ [t] }).become t .queued).Kept := by
  have hok := h.ticket t
  have hst : s.status t = .unknown ∨ s.status t = .remote := by
    simp only [enqueues, Bool.or_eq_true, Bool.and_eq_true, decide_eq_true_eq] at ht
    exact ht.imp id And.left
  have hqueued : t ∉ d.tickets := by
    rw [← hd, ← queued_eq_getD, ← hok.queued]
    rcases hst with hst | hst <;> simp [hst]
  have hparked : t ∉ d.parked := by
    rw [← hd, ← rebinding_eq_getD]
    intro hmem
    rcases hst with hst | hst <;> simpa [hst] using hok.rebinding hmem
  have honce : d.Once := hd ▸ h.once_getD
  refine h.writes hd (fun u hu => mem_append_of_ne hu) (fun u _ => Iff.rfl)
    ⟨List.nodup_append.2 ⟨honce.1, List.nodup_cons.2 ⟨List.not_mem_nil, List.nodup_nil⟩, by grind⟩, honce.2⟩ ?_
  exact {
    queued := by simp
    parked := by simp
    rebinding := by simp [hparked]
    leased := by
      intro hmem
      have := hok.leased (by simpa using hmem)
      rcases hst with hst | hst <;> simp [hst] at this
    elsewhere := by
      intro e he
      obtain ⟨hno, hended⟩ := hok.elsewhere e (by simpa using he)
      refine ⟨hno, fun hmem => ?_⟩
      have := hended hmem
      rcases hst with hst | hst <;> simp [hst] at this }

omit [DecidableEq τ] in
/-- What is known of a queued ticket. -/
theorem Kept.of_mem_tickets (h : s.Kept) (hd : s.queueDir = some d) (ht : t ∈ d.tickets) :
    s.status t = .queued ∧ t ∉ d.parked ∧ t ∉ s.leases ∧
      ∀ e ∈ s.elsewhere, t ∉ e.tickets ∧ t ∉ e.parked := by
  have hok := h.ticket t
  have hst : s.status t = .queued := by
    rw [hok.queued, queued_of_queueDir hd]
    exact ht
  refine ⟨hst, fun hmem => ?_, fun hmem => ?_, fun e he => ?_⟩
  · rw [← rebinding_of_queueDir hd] at hmem
    simpa [hst] using hok.rebinding hmem
  · simpa [hst] using hok.leased hmem
  · refine ⟨(hok.elsewhere e he).1, fun hmem => ?_⟩
    simpa [hst] using (hok.elsewhere e he).2 hmem

omit [DecidableEq τ] in
/-- What is known of a parked ticket. -/
theorem Kept.of_mem_parked (h : s.Kept) (hd : s.queueDir = some d) (ht : t ∈ d.parked) :
    (s.status t = .withdrawn ∨ s.status t = .ended) ∧ t ∉ d.tickets := by
  have hok := h.ticket t
  have hst := hok.rebinding (by rwa [rebinding_of_queueDir hd])
  refine ⟨hst, fun hmem => ?_⟩
  rw [← queued_of_queueDir hd, ← hok.queued] at hmem
  simp [hmem] at hst

/-- **A ticket leaves the queue.** -/
theorem Kept.leaves (h : s.Kept) (hd : s.queueDir = some d) (ht : t ∈ d.tickets) {st : Status}
    (hst : st = .started ∨ st = .ended) :
    ((s.setQueueDir { d with tickets := d.tickets.erase t }).become t st).Kept := by
  have honce := h.once_queueDir hd
  obtain ⟨-, hparked, hleases, helse⟩ := h.of_mem_tickets hd ht
  have hgone : t ∉ d.tickets.erase t := honce.1.not_mem_erase
  refine h.writes (by rw [hd, Option.getD_some]) (fun u hu => List.mem_erase_of_ne hu)
    (fun u _ => Iff.rfl) ⟨honce.1.erase t, honce.2⟩ ?_
  exact {
    queued := by rcases hst with rfl | rfl <;> simpa using hgone
    parked := by rcases hst with rfl | rfl <;> simp
    rebinding := by simp [hparked]
    leased := by simp [hleases]
    elsewhere := by
      intro e he
      have hno := helse e (by simpa using he)
      exact ⟨hno.1, fun hmem => absurd hmem hno.2⟩ }

omit [DecidableEq τ] in
/-- The lease of a ticket that has left the queue. -/
theorem Kept.lease (h : s.Kept) (ht : s.status t = .started) :
    Kept { s with leases := s.leases ++ [t] } := by
  have hframe : Frame t s { s with leases := s.leases ++ [t] } :=
    ⟨fun _ _ => rfl, fun _ _ => Iff.rfl, fun _ _ => Iff.rfl, fun _ _ => id,
      fun u hu => (mem_append_of_ne hu).1, rfl⟩
  have hok := h.ticket t
  exact h.moves hframe ⟨hok.queued, hok.parked, hok.rebinding, fun _ => .inl ht, hok.elsewhere⟩
    fun d hd => h.once_queueDir hd

theorem Kept.withdraw (h : s.Kept) (hd : s.queueDir = some d) (ht : t ∈ d.tickets)
    (hattempt : t ∈ s.attempts) :
    ((s.setQueueDir { tickets := d.tickets.erase t, parked := d.parked ++ [t] }).become t
      .withdrawn).Kept := by
  have honce := h.once_queueDir hd
  obtain ⟨-, hparked, hleases, helse⟩ := h.of_mem_tickets hd ht
  have hgone : t ∉ d.tickets.erase t := honce.1.not_mem_erase
  refine h.writes (by rw [hd, Option.getD_some]) (fun u hu => List.mem_erase_of_ne hu)
    (fun u hu => mem_append_of_ne hu) ⟨honce.1.erase t, ?_⟩ ?_
  · exact List.nodup_append.2 ⟨honce.2, List.nodup_cons.2 ⟨List.not_mem_nil, List.nodup_nil⟩,
      by grind⟩
  · exact {
      queued := by simpa using hgone
      parked := by simpa using hattempt
      rebinding := by simp
      leased := by simp [hleases]
      elsewhere := by
        intro e he
        have hno := helse e (by simpa using he)
        exact ⟨hno.1, fun hmem => absurd hmem hno.2⟩ }

theorem Kept.restore (h : s.Kept) (hd : s.queueDir = some d) (ht : t ∈ d.parked)
    (hst : s.status t = .withdrawn) :
    ((s.setQueueDir { tickets := d.tickets ++ [t], parked := d.parked.erase t }).become t
      .queued).Kept := by
  have honce := h.once_queueDir hd
  have hok := h.ticket t
  obtain ⟨-, hnot⟩ := h.of_mem_parked hd ht
  have hgone : t ∉ d.parked.erase t := honce.2.not_mem_erase
  have hleases : t ∉ s.leases := fun hmem => by simpa [hst] using hok.leased hmem
  refine h.writes (by rw [hd, Option.getD_some]) (fun u hu => mem_append_of_ne hu)
    (fun u hu => List.mem_erase_of_ne hu) ⟨?_, honce.2.erase t⟩ ?_
  · exact List.nodup_append.2 ⟨honce.1, List.nodup_cons.2 ⟨List.not_mem_nil, List.nodup_nil⟩,
      by grind⟩
  · exact {
      queued := by simp
      parked := by simp
      rebinding := by simp [hgone]
      leased := by simp [hleases]
      elsewhere := by
        intro e he
        obtain ⟨hno, hended⟩ := hok.elsewhere e (by simpa using he)
        refine ⟨hno, fun hmem => ?_⟩
        simp [hended hmem] at hst }

/-- The parked record goes: the ticket is with its remote attempt, or settled as it was. -/
theorem Kept.discard (h : s.Kept) (hd : s.queueDir = some d) (ht : t ∈ d.parked) :
    ((s.setQueueDir { d with parked := d.parked.erase t }).become t
      (if s.status t = .withdrawn then .remote else s.status t)).Kept := by
  have honce := h.once_queueDir hd
  have hok := h.ticket t
  obtain ⟨hst, hnot⟩ := h.of_mem_parked hd ht
  have hgone : t ∉ d.parked.erase t := honce.2.not_mem_erase
  have hget : s.queueDir.getD {} = d := by rw [hd, Option.getD_some]
  refine h.writes hget (fun u _ => Iff.rfl) (fun u hu => List.mem_erase_of_ne hu)
    ⟨honce.1, honce.2.erase t⟩ ?_
  rcases hst with hst | hst
  · have hleases : t ∉ s.leases := fun hmem => by simpa [hst] using hok.leased hmem
    exact {
      queued := by simpa [hst] using hnot
      parked := by simp [hst]
      rebinding := by simp [hgone]
      leased := by simp [hleases]
      elsewhere := by
        intro e he
        obtain ⟨hno, hended⟩ := hok.elsewhere e (by simpa using he)
        refine ⟨hno, fun hmem => ?_⟩
        simp [hended hmem] at hst }
  · exact {
      queued := by simpa [hst] using hnot
      parked := by simp [hst]
      rebinding := by simp [hgone]
      leased := by simp [hst]
      elsewhere := by
        intro e he
        refine ⟨(hok.elsewhere e (by simpa using he)).1, fun _ => ?_⟩
        simp [hst] }

/-- A step on a ticket that leaves the queue directories alone. -/
theorem Kept.turns (h : s.Kept) {st : Status} {leases attempts : List τ}
    (hleases : ∀ u, u ≠ t → u ∈ leases → u ∈ s.leases)
    (hattempts : ∀ u, u ≠ t → u ∈ s.attempts → u ∈ attempts)
    (ht : TicketOk { s.become t st with leases, attempts } t) :
    Kept { s.become t st with leases, attempts } := by
  refine h.moves (t := t) ?_ ht fun d hd => h.once_queueDir hd
  exact ⟨fun u hu => status_become_of_ne hu, fun _ _ => Iff.rfl, fun _ _ => Iff.rfl, hattempts,
    hleases, rfl⟩

theorem Kept.createAttempt (h : s.Kept) (ht : s.status t = .unknown) :
    Kept { s.become t .remote with attempts := s.attempts ++ [t] } := by
  have hok := h.ticket t
  refine h.turns (fun _ _ => id) (fun u _ => List.mem_append_left _) ?_
  exact {
    queued := by
      have hnot : t ∉ s.queued := by simp [← hok.queued, ht]
      refine ⟨fun heq => ?_, fun hmem => absurd hmem hnot⟩
      simp [become] at heq
    parked := by simp [become]
    rebinding := fun hmem => by simpa [ht] using hok.rebinding hmem
    leased := fun hmem => by simpa [ht] using hok.leased hmem
    elsewhere := by
      intro e he
      obtain ⟨hno, hended⟩ := hok.elsewhere e he
      refine ⟨hno, fun hmem => ?_⟩
      simp [hended hmem] at ht }

/-- **A ticket ends** that is not in the queue. -/
theorem Kept.ends (h : s.Kept) (ht : s.status t ≠ .queued) {leases attempts : List τ}
    (hleases : ∀ u, u ≠ t → u ∈ leases → u ∈ s.leases)
    (hattempts : ∀ u, u ≠ t → u ∈ s.attempts → u ∈ attempts) :
    Kept { s.become t .ended with leases, attempts } := by
  have hok := h.ticket t
  refine h.turns hleases hattempts ?_
  exact {
    queued := by
      have hnot : t ∉ s.queued := fun hmem => ht (hok.queued.2 hmem)
      refine ⟨fun heq => ?_, fun hmem => absurd hmem hnot⟩
      simp [become] at heq
    parked := by simp [become]
    rebinding := fun _ => .inr (by simp [become])
    leased := fun _ => .inr (by simp [become])
    elsewhere := fun e he => ⟨(hok.elsewhere e he).1, fun _ => by simp [become]⟩ }

end

end Root
end Migration
end Scheduler
end LaneBroker
