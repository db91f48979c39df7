/-
# The files of one ticket

Every file operation is about one ticket, or about none.  `filesFor s id` is what the state
directory holds for `id`; an operation about another ticket leaves it as it is
(`filesFor_apply_of_ne`), so an invariant of one ticket's files is threatened only by the
operations about that ticket.

The ticket is in one place at a time when its queue file, its parked file and its lease are at
most one in all (`TicketFiles.places`).  `Tidy` is that, together with what the names and the
records agree on and with what makes a withdrawal recoverable: a parked ticket that already has
a terminal result has no attempt left, or one that carries dispatch evidence, so that
`recoverRebinding` drops it.
-/

import LaneBroker.Broker.Queue

namespace LaneBroker

open LaneBroker.Basis

/-- **What the state directory holds for one ticket.** -/
structure TicketFiles where
  queued : List (QueueName × QueueRecord)
  parked : List (QueueName × QueueRecord)
  lease : Option Lease
  attempt : Option Attempt
  result : Option TicketResult
  seq : Option ℕ

/-- The files of `id`. -/
def filesFor (s : Broker) (id : TicketId) : TicketFiles where
  queued := filesOf s.queue id
  parked := filesOf s.parked id
  lease := s.leases.read id
  attempt := s.attempts.read id
  result := s.results.read id
  seq := s.seqOf.read id

/-- The ticket whose files an operation changes, if it changes any ticket's. -/
def FileOp.about : FileOp → Option TicketId
  | .bumpSeq id | .unlinkLease id | .writeResult id _ | .writeAttempt id _
  | .unlinkAttempt id => some id
  | .writeQueue n _ | .unlinkQueue n | .park n | .unpark n | .unlinkParked _ n => some n.id
  | .writeLease l => some l.id
  | _ => none

/-- The queue file an operation puts there. -/
@[simp] def FileOp.requeues : FileOp → Option QueueName
  | .writeQueue n _ | .unpark n => some n
  | _ => none

/-- Does the operation write a result or a row? -/
@[simp] def FileOp.publishes : FileOp → Bool
  | .writeResult .. | .appendHistory .. => true
  | _ => false

section Listing

variable {d : Dir QueueName QueueRecord} {n : QueueName} {r : QueueRecord} {id : TicketId}

theorem mem_filesOf {e : QueueName × QueueRecord} :
    e ∈ filesOf d id ↔ e ∈ d.entries ∧ e.1.id = id := by simp [filesOf]

theorem filesOf_write_self :
    filesOf (d.write n r) n.id = (filesOf d n.id).filter (fun e => e.1 ≠ n) ++ [(n, r)] := by
  simp [filesOf, Dir.write, Dir.unlink, List.filter_filter, Bool.and_comm]

theorem filesOf_write_of_ne (h : n.id ≠ id) : filesOf (d.write n r) id = filesOf d id := by
  simp only [filesOf, Dir.write, Dir.unlink, List.filter_append, List.filter_filter]
  rw [List.filter_cons_of_neg (by simpa using h), List.filter_nil, List.append_nil]
  refine List.filter_congr fun e _ => ?_
  by_cases he : e.1.id = id
  · have : e.1 ≠ n := fun hn => h (hn ▸ he)
    simp [he, this]
  · simp [he]

theorem filesOf_unlink_self :
    filesOf (d.unlink n) n.id = (filesOf d n.id).filter fun e => e.1 ≠ n := by
  simp [filesOf, Dir.unlink, List.filter_filter, Bool.and_comm]

theorem filesOf_unlink_of_ne (h : n.id ≠ id) : filesOf (d.unlink n) id = filesOf d id := by
  simp only [filesOf, Dir.unlink, List.filter_filter]
  refine List.filter_congr fun e _ => ?_
  by_cases he : e.1.id = id
  · have : e.1 ≠ n := fun hn => h (hn ▸ he)
    simp [he, this]
  · simp [he]

theorem filesOf_moveFile_of_ne {d' : Dir QueueName QueueRecord} (h : n.id ≠ id) :
    filesOf (moveFile n d d').1 id = filesOf d id ∧
      filesOf (moveFile n d d').2 id = filesOf d' id := by
  unfold moveFile
  split
  · exact ⟨filesOf_unlink_of_ne h, filesOf_write_of_ne h⟩
  · exact ⟨rfl, rfl⟩

/-- With one file for the ticket, a lookup finds it by its name. -/
theorem read_of_filesOf (h : filesOf d id = [(n, r)]) : d.read n = some r := by
  have hmem : (n, r) ∈ filesOf d id := by rw [h]; exact List.mem_cons_self ..
  obtain ⟨hd, hn⟩ := mem_filesOf.1 hmem
  cases hread : d.read n with
  | none => exact absurd hread (Dir.read_ne_none_of_mem hd)
  | some r' =>
    have hmem' : (n, r') ∈ filesOf d id := mem_filesOf.2 ⟨Dir.mem_of_read hread, hn⟩
    rw [h, List.mem_singleton] at hmem'
    exact congrArg some (Prod.ext_iff.1 hmem').2

theorem mem_filesOf_of_read (h : d.read n = some r) : (n, r) ∈ filesOf d n.id :=
  mem_filesOf.2 ⟨Dir.mem_of_read h, rfl⟩

end Listing

/-- **The frame of a file operation**: the files of every other ticket stay as they are. -/
theorem filesFor_apply_of_ne {op : FileOp} {s : Broker} {id : TicketId}
    (h : op.about ≠ some id) : filesFor (op.apply s) id = filesFor s id := by
  cases op <;> simp only [FileOp.about, ne_eq, Option.some.injEq] at h <;>
    simp only [filesFor, FileOp.apply]
  case bumpSeq i | writeLease l | writeResult i r | writeAttempt i a =>
    rw [Dir.read_write_of_ne _ _ (Ne.symm h)]
  case writeQueue n r => rw [filesOf_write_of_ne h]
  case unlinkQueue n => rw [filesOf_unlink_of_ne h]
  case park n | unpark n => rw [(filesOf_moveFile_of_ne h).1, (filesOf_moveFile_of_ne h).2]
  case unlinkParked w n => rw [filesOf_unlink_of_ne h]
  case unlinkLease i | unlinkAttempt i => rw [Dir.read_unlink_of_ne _ (Ne.symm h)]

/-- The frame of a list of file operations. -/
theorem filesFor_applyAll_of_ne {ops : List FileOp} {s : Broker} {id : TicketId}
    (h : ∀ op ∈ ops, op.about ≠ some id) : filesFor (applyAll ops s) id = filesFor s id := by
  induction ops generalizing s with
  | nil => rfl
  | cons op ops ih =>
    rw [applyAll_cons, ih fun o ho => h o (List.mem_cons_of_mem _ ho)]
    exact filesFor_apply_of_ne (h op (List.mem_cons_self ..))

namespace TicketFiles

/-- In how many of the three places a ticket is: queue file, parked file, lease. -/
def places (v : TicketFiles) : ℕ :=
  v.queued.length + v.parked.length + v.lease.toList.length

end TicketFiles

/-- **The files of a ticket are in order.** -/
structure Tidy (id : TicketId) (v : TicketFiles) : Prop where
  /-- The ticket is in at most one place. -/
  places : v.places ≤ 1
  /-- Name and record of a queued or parked file agree, and carry the seq the ticket was
  enqueued with. -/
  named : ∀ e ∈ v.queued ++ v.parked, e.2.id = id ∧ e.2.seq = e.1.seq ∧ v.seq = some e.1.seq
  lease : ∀ l, v.lease = some l → l.id = id
  /-- A parked ticket with a terminal result is one that recovery drops. -/
  dropped : v.parked ≠ [] → v.result ≠ none → ∀ a, v.attempt = some a → a.dispatched = true

/-- Of two lists and an option that hold at most one thing, what is in the first list is all. -/
theorem one_place {α β : Type} {xs ys : List α} {o : Option β}
    (h : xs.length + ys.length + o.toList.length ≤ 1) :
    xs = [] ∨ ∃ x, xs = [x] ∧ ys = [] ∧ o = none := by
  rcases xs with _ | ⟨x, _ | ⟨x', xs⟩⟩
  · exact .inl rfl
  · rw [List.length_singleton] at h
    exact .inr ⟨x, rfl, List.length_eq_zero_iff.1 (by omega),
      Option.toList_eq_nil_iff.1 (List.length_eq_zero_iff.1 (by omega))⟩
  · rw [List.length_cons, List.length_cons] at h
    omega

namespace Tidy

variable {id : TicketId} {v : TicketFiles} {e : QueueName × QueueRecord}

theorem queued_cases (h : Tidy id v) :
    v.queued = [] ∨ ∃ e, v.queued = [e] ∧ v.parked = [] ∧ v.lease = none :=
  one_place h.places

theorem parked_cases (h : Tidy id v) :
    v.parked = [] ∨ ∃ e, v.parked = [e] ∧ v.queued = [] ∧ v.lease = none := by
  have hp := h.places
  rw [TicketFiles.places, Nat.add_comm v.queued.length] at hp
  exact one_place hp

theorem of_lease (h : Tidy id v) (hl : v.lease ≠ none) : v.queued = [] ∧ v.parked = [] := by
  constructor
  · rcases h.queued_cases with hq | ⟨_, _, _, hn⟩
    · exact hq
    · exact absurd hn hl
  · rcases h.parked_cases with hq | ⟨_, _, _, hn⟩
    · exact hq
    · exact absurd hn hl

end Tidy

/-- A ticket that has no file at all is tidy. -/
theorem tidy_empty (id : TicketId) : Tidy id (filesFor .init id) where
  places := by simp [TicketFiles.places, filesFor, Broker.init, filesOf, Dir.empty, Dir.read]
  named := by simp [filesFor, Broker.init, filesOf, Dir.empty]
  lease := by simp [filesFor, Broker.init]
  dropped := by simp [filesFor, Broker.init, filesOf, Dir.empty]

/-! ### What each operation does to the files of its own ticket -/

section Apply

variable {s : Broker} {id : TicketId} {n : QueueName} {r : QueueRecord}

theorem filesFor_bumpSeq (id : TicketId) (s : Broker) :
    filesFor ((FileOp.bumpSeq id).apply s) id =
      { filesFor s id with seq := some (s.seqCounter + 1) } := by
  simp [filesFor, FileOp.apply]

theorem filesFor_writeQueue (n : QueueName) (r : QueueRecord) (s : Broker) :
    filesFor ((FileOp.writeQueue n r).apply s) n.id =
      { filesFor s n.id with
        queued := ((filesFor s n.id).queued.filter fun e => e.1 ≠ n) ++ [(n, r)] } := by
  simp only [filesFor, FileOp.apply, filesOf_write_self]

theorem filesFor_unlinkQueue (n : QueueName) (s : Broker) :
    filesFor ((FileOp.unlinkQueue n).apply s) n.id =
      { filesFor s n.id with queued := (filesFor s n.id).queued.filter fun e => e.1 ≠ n } := by
  simp only [filesFor, FileOp.apply, filesOf_unlink_self]

theorem filesFor_unlinkParked (w : Unparking) (n : QueueName) (s : Broker) :
    filesFor ((FileOp.unlinkParked w n).apply s) n.id =
      { filesFor s n.id with parked := (filesFor s n.id).parked.filter fun e => e.1 ≠ n } := by
  simp only [filesFor, FileOp.apply, filesOf_unlink_self]

/-- The rename of a ticket's only queue file to its parked name. -/
theorem filesFor_park (hq : (filesFor s n.id).queued = [(n, r)])
    (hp : (filesFor s n.id).parked = []) :
    filesFor ((FileOp.park n).apply s) n.id =
      { filesFor s n.id with queued := [], parked := [(n, r)] } := by
  have hread := read_of_filesOf hq
  change filesOf s.queue n.id = _ at hq
  change filesOf s.parked n.id = _ at hp
  simp [filesFor, FileOp.apply, moveFile, hread, filesOf_write_self, filesOf_unlink_self, hq, hp]

/-- The rename back. -/
theorem filesFor_unpark (hq : (filesFor s n.id).queued = [])
    (hp : (filesFor s n.id).parked = [(n, r)]) :
    filesFor ((FileOp.unpark n).apply s) n.id =
      { filesFor s n.id with queued := [(n, r)], parked := [] } := by
  have hread := read_of_filesOf hp
  change filesOf s.queue n.id = _ at hq
  change filesOf s.parked n.id = _ at hp
  simp [filesFor, FileOp.apply, moveFile, hread, filesOf_write_self, filesOf_unlink_self, hq, hp]

theorem filesFor_writeLease (l : Lease) (s : Broker) :
    filesFor ((FileOp.writeLease l).apply s) l.id =
      { filesFor s l.id with lease := some l } := by simp [filesFor, FileOp.apply]

theorem filesFor_unlinkLease (id : TicketId) (s : Broker) :
    filesFor ((FileOp.unlinkLease id).apply s) id =
      { filesFor s id with lease := none } := by simp [filesFor, FileOp.apply]

theorem filesFor_writeResult (id : TicketId) (r : TicketResult) (s : Broker) :
    filesFor ((FileOp.writeResult id r).apply s) id =
      { filesFor s id with result := some r } := by simp [filesFor, FileOp.apply]

theorem filesFor_writeAttempt (id : TicketId) (a : Attempt) (s : Broker) :
    filesFor ((FileOp.writeAttempt id a).apply s) id =
      { filesFor s id with attempt := some a } := by simp [filesFor, FileOp.apply]

theorem filesFor_unlinkAttempt (id : TicketId) (s : Broker) :
    filesFor ((FileOp.unlinkAttempt id).apply s) id =
      { filesFor s id with attempt := none } := by simp [filesFor, FileOp.apply]

/-- Only a withdrawal makes a parked file: without one, a ticket with none keeps none. -/
theorem parked_apply_of_nil {op : FileOp} (hpark : ∀ n, op = .park n → n.id ≠ id)
    (h : (filesFor s id).parked = []) : (filesFor (op.apply s) id).parked = [] := by
  by_cases habout : op.about = some id
  · cases op <;> simp only [FileOp.about, Option.some.injEq, reduceCtorEq] at habout
    case park n => exact absurd habout (hpark n rfl)
    case unpark n =>
      subst habout
      simp only [filesFor, FileOp.apply, moveFile] at h ⊢
      split
      · simp [filesOf_unlink_self, h]
      · exact h
    case unlinkParked w n => subst habout; rw [filesFor_unlinkParked]; simp [h]
    all_goals exact h
  · rw [filesFor_apply_of_ne habout]
    exact h

theorem parked_applyAll_of_nil {ops : List FileOp}
    (hpark : ∀ n, FileOp.park n ∈ ops → n.id ≠ id) (h : (filesFor s id).parked = []) :
    (filesFor (applyAll ops s) id).parked = [] := by
  induction ops generalizing s with
  | nil => exact h
  | cons op ops ih =>
    rw [applyAll_cons]
    refine ih (fun n hn => hpark n (List.mem_cons_of_mem _ hn)) (parked_apply_of_nil ?_ h)
    exact fun n hn => hpark n (hn ▸ List.mem_cons_self ..)

end Apply

/-! ### Lookups -/

theorem findQueueFile_eq (s : Broker) (id : TicketId) :
    findQueueFile s id = (filesFor s id).queued.head? := rfl

theorem rebindingFile_eq (s : Broker) (id : TicketId) :
    rebindingFile s id = (filesFor s id).parked.head? := by
  rw [rebindingFile, filesFor]

/-- **An id the ownership check lets through** has no file but, at most, the caller's own
attempt. -/
theorem existingTicket_eq_none {s : Broker} {id : TicketId} {g : Option ℕ}
    (h : existingTicket s id g = none) :
    (filesFor s id).queued = [] ∧ (filesFor s id).parked = [] ∧ (filesFor s id).lease = none ∧
      (filesFor s id).result = none ∧
      ∀ a, (filesFor s id).attempt = some a → g = some a.generation := by
  unfold existingTicket at h
  split_ifs at h with hq hp hl hr
  refine ⟨?_, ?_, by simpa [filesFor] using hl, by simpa [filesFor] using hr, fun a ha => ?_⟩
  · simpa [findQueueFile, filesFor] using hq
  · simpa [rebindingFile, filesFor] using hp
  · change s.attempts.read id = some a at ha
    rw [ha] at h
    dsimp only at h
    split_ifs at h with hg
    exact hg

end LaneBroker
