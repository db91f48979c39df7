/-
# What a locked section does to the queue, the parked files and the leases

For each section of `Broker/Queue.lean` and `Broker/Attempts.lean`: at every point where a crash
can cut it the files of every ticket are in order (`AllTidy`), but for two windows
(`CutsRestore`, `CutsPublish`), and no queue file is written for a ticket that has a terminal
result (`Guarded`); when it completes they are in order.  The windows are those of the source:

* `restoreLocked` writes the queue file and then unlinks the parked one; between the two the
  ticket is in both places;
* `publishTerminal` writes the result and then removes the attempt; between the two a parked
  ticket whose attempt carries no dispatch evidence has a result that `recoverRebinding` does
  not look at.

A section is safe (`SafeSection`) about the tickets `X` when besides it touches no other
ticket's files, and withdraws only tickets in `K`.
-/

import LaneBroker.Broker.Files

namespace LaneBroker

open LaneBroker.Basis

/-- The files of every ticket are in order. -/
def AllTidy (s : Broker) : Prop := ∀ id, Tidy id (filesFor s id)

/-- A crash before this operation cuts a restore: the queue file is written and the parked file
not yet unlinked. -/
def CutsRestore (op : FileOp) : Prop := ∃ n, op = .unlinkParked .restore n

/-- A crash before this operation cuts a terminal publish between its result and the removal of
the attempt, for a ticket that is parked with an attempt that was not dispatched. -/
def CutsPublish (op : FileOp) (s : Broker) : Prop :=
  ∃ id, (op = .unlinkAttempt id ∨ ∃ row : HistoryRow, row.id = id ∧ op = .appendHistory row) ∧
    (filesFor s id).parked ≠ [] ∧
    ∃ a, (filesFor s id).attempt = some a ∧ a.dispatched = false

/-- **What holds before an operation of a locked section.** -/
structure Guarded (op : FileOp) (s : Broker) : Prop where
  tidy : AllTidy s ∨ CutsRestore op ∨ CutsPublish op s
  /-- A queue file is put there only for a ticket with no terminal result, and at the seq the
  ticket was enqueued with. -/
  requeue : ∀ n, op.requeues = some n →
    (filesFor s n.id).result = none ∧ (filesFor s n.id).seq = some n.seq

theorem AllTidy.guarded {op : FileOp} {s : Broker} (h : AllTidy s)
    (hq : op.requeues = none) : Guarded op s :=
  ⟨.inl h, fun n hop => by rw [hq] at hop; exact absurd hop (by simp)⟩

/-! ### One operation -/

section One

variable {s : Broker} {id : TicketId} {n : QueueName} {r : QueueRecord} {op : FileOp}

/-- An operation keeps every ticket in order if it keeps the ticket it is about in order. -/
theorem AllTidy.apply (h : AllTidy s)
    (hop : ∀ id, op.about = some id → Tidy id (filesFor (op.apply s) id)) :
    AllTidy (op.apply s) := by
  intro id
  by_cases habout : op.about = some id
  · exact hop id habout
  · rw [filesFor_apply_of_ne habout]
    exact h id

theorem AllTidy.apply_none (h : AllTidy s) (hop : op.about = none) : AllTidy (op.apply s) :=
  h.apply fun id hid => by rw [hop] at hid; exact absurd hid (by simp)

/-- The files of an id nobody uses may be given a new seq. -/
theorem AllTidy.bumpSeq (h : AllTidy s) (hq : (filesFor s id).queued = [])
    (hp : (filesFor s id).parked = []) : AllTidy ((FileOp.bumpSeq id).apply s) := by
  refine h.apply fun i hi => ?_
  obtain rfl : id = i := Option.some.inj hi
  rw [filesFor_bumpSeq]
  exact { h id with named := by simp [hq, hp] }

/-- A queue file for a ticket that is in no place. -/
theorem AllTidy.writeQueue (h : AllTidy s) (hq : (filesFor s n.id).queued = [])
    (hp : (filesFor s n.id).parked = []) (hl : (filesFor s n.id).lease = none)
    (hr : r.id = n.id ∧ r.seq = n.seq ∧ (filesFor s n.id).seq = some n.seq) :
    AllTidy ((FileOp.writeQueue n r).apply s) := by
  refine h.apply fun i hi => ?_
  obtain rfl : n.id = i := Option.some.inj hi
  rw [filesFor_writeQueue]
  refine { h n.id with places := ?_, named := ?_, dropped := by simp [hp] }
  · simp [TicketFiles.places, hq, hp, hl]
  · simp [hq, hp, hr]

theorem AllTidy.unlinkQueue (h : AllTidy s) : AllTidy ((FileOp.unlinkQueue n).apply s) := by
  refine h.apply fun i hi => ?_
  obtain rfl : n.id = i := Option.some.inj hi
  rw [filesFor_unlinkQueue]
  refine { h n.id with places := ?_, named := fun e he => (h n.id).named e ?_ }
  · refine le_trans ?_ (h n.id).places
    have := List.length_filter_le (fun e => decide (e.1 ≠ n)) (filesFor s n.id).queued
    simp only [TicketFiles.places]
    omega
  · rcases List.mem_append.1 he with he | he
    · exact List.mem_append_left _ (List.mem_of_mem_filter he)
    · exact List.mem_append_right _ he

theorem AllTidy.unlinkParked {w : Unparking} (h : AllTidy s) :
    AllTidy ((FileOp.unlinkParked w n).apply s) := by
  refine h.apply fun i hi => ?_
  obtain rfl : n.id = i := Option.some.inj hi
  rw [filesFor_unlinkParked]
  refine { h n.id with
    places := ?_
    named := fun e he => (h n.id).named e ?_
    dropped := fun hp => (h n.id).dropped ?_ }
  · refine le_trans ?_ (h n.id).places
    have := List.length_filter_le (fun e => decide (e.1 ≠ n)) (filesFor s n.id).parked
    simp only [TicketFiles.places]
    omega
  · rcases List.mem_append.1 he with he | he
    · exact List.mem_append_left _ he
    · exact List.mem_append_right _ (List.mem_of_mem_filter he)
  · rintro hnil
    exact hp (by simp [hnil])

/-- The rename of a queue file to its parked name, for a ticket that recovery would restore or
drop. -/
theorem AllTidy.park (h : AllTidy s) (hq : (filesFor s n.id).queued = [(n, r)])
    (hdrop : (filesFor s n.id).result ≠ none →
      ∀ a, (filesFor s n.id).attempt = some a → a.dispatched = true) :
    AllTidy ((FileOp.park n).apply s) := by
  have hp : (filesFor s n.id).parked = [] := by
    rcases (h n.id).queued_cases with hq' | ⟨_, _, hp, _⟩
    · simp [hq] at hq'
    · exact hp
  have hnamed := (h n.id).named
  have hplaces := (h n.id).places
  refine h.apply fun i hi => ?_
  obtain rfl : n.id = i := Option.some.inj hi
  rw [filesFor_park hq hp]
  refine { h n.id with places := ?_, named := ?_, dropped := fun _ => hdrop }
  · simpa [TicketFiles.places, hq, hp] using hplaces
  · simpa [hq, hp] using hnamed

theorem AllTidy.unpark (h : AllTidy s) (hp : (filesFor s n.id).parked = [(n, r)]) :
    AllTidy ((FileOp.unpark n).apply s) := by
  have hq : (filesFor s n.id).queued = [] := by
    rcases (h n.id).parked_cases with hp' | ⟨_, _, hq, _⟩
    · simp [hp] at hp'
    · exact hq
  have hnamed := (h n.id).named
  have hplaces := (h n.id).places
  refine h.apply fun i hi => ?_
  obtain rfl : n.id = i := Option.some.inj hi
  rw [filesFor_unpark hq hp]
  refine { h n.id with places := ?_, named := ?_, dropped := by simp }
  · simpa [TicketFiles.places, hq, hp] using hplaces
  · simpa [hq, hp] using hnamed

theorem AllTidy.writeLease {l : Lease} (h : AllTidy s) (hq : (filesFor s l.id).queued = [])
    (hp : (filesFor s l.id).parked = []) : AllTidy ((FileOp.writeLease l).apply s) := by
  refine h.apply fun i hi => ?_
  obtain rfl : l.id = i := Option.some.inj hi
  rw [filesFor_writeLease]
  refine { h l.id with places := by simp [TicketFiles.places, hq, hp], lease := ?_ }
  rintro l' ⟨rfl⟩
  rfl

theorem AllTidy.unlinkLease (h : AllTidy s) : AllTidy ((FileOp.unlinkLease id).apply s) := by
  refine h.apply fun i hi => ?_
  obtain rfl : id = i := Option.some.inj hi
  rw [filesFor_unlinkLease]
  refine { h id with places := ?_, lease := by simp }
  have hplaces := (h id).places
  simp only [TicketFiles.places, Option.toList_none, List.length_nil] at hplaces ⊢
  omega

/-- A result for a ticket that is not parked, or that recovery drops. -/
theorem AllTidy.writeResult {t : TicketResult} (h : AllTidy s)
    (hdrop : (filesFor s id).parked ≠ [] →
      ∀ a, (filesFor s id).attempt = some a → a.dispatched = true) :
    AllTidy ((FileOp.writeResult id t).apply s) := by
  refine h.apply fun i hi => ?_
  obtain rfl : id = i := Option.some.inj hi
  rw [filesFor_writeResult]
  exact { h id with dropped := fun hp _ => hdrop hp }

/-- An attempt record for a ticket that is not parked, or has no result, or is dispatched. -/
theorem AllTidy.writeAttempt {a : Attempt} (h : AllTidy s)
    (hdrop : (filesFor s id).parked ≠ [] → (filesFor s id).result ≠ none →
      a.dispatched = true) :
    AllTidy ((FileOp.writeAttempt id a).apply s) := by
  refine h.apply fun i hi => ?_
  obtain rfl : id = i := Option.some.inj hi
  rw [filesFor_writeAttempt]
  refine { h id with dropped := fun hp hr b hb => ?_ }
  obtain rfl := Option.some.inj hb
  exact hdrop hp hr

theorem AllTidy.unlinkAttempt (h : AllTidy s) :
    AllTidy ((FileOp.unlinkAttempt id).apply s) := by
  refine h.apply fun i hi => ?_
  obtain rfl : id = i := Option.some.inj hi
  rw [filesFor_unlinkAttempt]
  exact { h id with dropped := by simp }

end One

/-! ### One section -/

/-- **A safe operation of a section**: guarded, about one of the tickets `X`, and a withdrawal
only where `K` allows one. -/
structure SafeOp (X : TicketId → Prop) (K : TicketId → Prop) (op : FileOp) (s : Broker) : Prop
    extends Guarded op s where
  about : ∀ id, op.about = some id → X id
  park : ∀ n, op = .park n → K n.id

/-- **A safe section**: each of its operations is safe where it stands, and once they are all
done every ticket is in order. -/
def SafeSection (X : TicketId → Prop) (K : TicketId → Prop) (ops : List FileOp) (s : Broker) : Prop :=
  BeforeEach (SafeOp X K) ops s ∧ AllTidy (applyAll ops s)

section SafeSection

variable {X Y : TicketId → Prop} {K : TicketId → Prop} {op : FileOp} {ops ops' : List FileOp}
  {s : Broker} {id : TicketId} {n : QueueName} {r : QueueRecord}

theorem SafeSection.nil (h : AllTidy s) : SafeSection X K [] s := ⟨trivial, h⟩

theorem SafeSection.cons (hop : SafeOp X K op s)
    (h : SafeSection X K ops (op.apply s)) : SafeSection X K (op :: ops) s :=
  ⟨⟨hop, h.1⟩, h.2⟩

theorem SafeSection.append (h : SafeSection X K ops s)
    (h' : SafeSection X K ops' (applyAll ops s)) :
    SafeSection X K (ops ++ ops') s :=
  ⟨beforeEach_append.2 ⟨h.1, h'.1⟩, by rw [applyAll_append]; exact h'.2⟩

theorem SafeSection.mono (hX : ∀ i, X i → Y i) (h : SafeSection X K ops s) :
    SafeSection Y K ops s :=
  ⟨h.1.mono fun _ _ ho => { ho with about := fun i hi => hX i (ho.about i hi) }, h.2⟩

/-- An operation that is neither a queue write nor a withdrawal is safe where every ticket is in
order. -/
theorem AllTidy.safeOp (h : AllTidy s) (habout : ∀ i, op.about = some i → X i)
    (hq : op.requeues = none) (hp : ∀ n, op ≠ .park n) : SafeOp X K op s :=
  { h.guarded hq with about := habout, park := fun n hn => absurd hn (hp n) }

/-- Operations about no ticket's queue file, lease, result or attempt. -/
theorem SafeSection.of_about_none (h : AllTidy s) (hops : ∀ op ∈ ops, op.about = none) :
    SafeSection X K ops s := by
  induction ops generalizing s with
  | nil => exact .nil h
  | cons op ops ih =>
    have hnone := hops op (List.mem_cons_self ..)
    have hrequeue : op.requeues = none := by
      cases op <;> first | rfl | simp [FileOp.about] at hnone
    refine .cons (h.safeOp (fun i hi => ?_) hrequeue fun n hop => ?_)
      (ih (h.apply_none hnone) fun o ho => hops o (List.mem_cons_of_mem _ ho))
    · rw [hnone] at hi; exact absurd hi (by simp)
    · rw [hop] at hnone; exact absurd hnone (by simp [FileOp.about])

theorem SafeSection.about (h : SafeSection X K ops s) {o : FileOp} (ho : o ∈ ops)
    {i : TicketId} (hi : o.about = some i) : X i := by
  induction ops generalizing s with
  | nil => simp at ho
  | cons op ops ih =>
    rcases List.mem_cons.1 ho with rfl | ho
    · exact h.1.1.about i hi
    · exact ih ⟨h.1.2, h.2⟩ ho

theorem SafeSection.park (h : SafeSection X K ops s) {n : QueueName}
    (ho : FileOp.park n ∈ ops) : K n.id := by
  induction ops generalizing s with
  | nil => simp at ho
  | cons op ops ih =>
    rcases List.mem_cons.1 ho with rfl | ho
    · exact h.1.1.park n rfl
    · exact ih ⟨h.1.2, h.2⟩ ho

/-- A safe section leaves every other ticket's files as they were. -/
theorem SafeSection.frame (h : SafeSection X K ops s) (hid : ¬ X id) :
    filesFor (applyAll ops s) id = filesFor s id :=
  filesFor_applyAll_of_ne fun _ ho hi => hid (h.about ho hi)

/-! ### The sections about one ticket -/

theorem safe_patchAttemptLocked {patch : Attempt → Attempt} (h : AllTidy s) (hX : X id)
    (hpatch : ∀ a, (patch a).dispatched = a.dispatched) :
    SafeSection X K ((patchAttemptLocked id patch).journal s) s := by
  rw [journal_patchAttemptLocked]
  cases ha : s.attempts.read id with
  | none => exact .nil h
  | some a =>
    refine .cons (h.safeOp ?_ (by simp) (by simp)) (.nil (h.writeAttempt fun hp hr => ?_))
    · rintro i ⟨rfl⟩
      exact hX
    · rw [hpatch]
      exact (h id).dropped hp hr a ha

theorem journal_discardRebinding (id : TicketId) (s : Broker) :
    (discardRebinding id).journal s =
      ((filesFor s id).parked.head?.map fun e => FileOp.unlinkParked .discard e.1).toList := by
  simp only [discardRebinding, rebindingFile_eq, Locked.journal_bind, Locked.journal_read,
    Locked.value_read, Locked.after_read, List.nil_append]
  cases (filesFor s id).parked.head? <;> rfl

theorem id_of_mem_files {d : Dir QueueName QueueRecord} {e : QueueName × QueueRecord}
    (h : (filesOf d id).head? = some e) : e.1.id = id :=
  (mem_filesOf.1 (List.mem_of_head? h)).2

theorem safe_discardRebinding (h : AllTidy s) (hX : X id) :
    SafeSection X K ((discardRebinding id).journal s) s := by
  rw [journal_discardRebinding]
  cases hp : (filesFor s id).parked.head? with
  | none => exact .nil h
  | some e =>
    refine .cons (h.safeOp ?_ (by simp) (by simp)) (.nil h.unlinkParked)
    rintro i ⟨rfl⟩
    exact (id_of_mem_files hp) ▸ hX

theorem journal_dequeueSync (id : TicketId) (s : Broker) :
    (dequeueSync id).journal s =
      ((filesFor s id).queued.head?.map fun e => FileOp.unlinkQueue e.1).toList := by
  simp only [dequeueSync, findQueueFile_eq, Locked.journal_bind, Locked.journal_read,
    Locked.value_read, Locked.after_read, List.nil_append]
  cases (filesFor s id).queued.head? <;> rfl

theorem safe_dequeueSync (h : AllTidy s) (hX : X id) :
    SafeSection X K ((dequeueSync id).journal s) s := by
  rw [journal_dequeueSync]
  cases hp : (filesFor s id).queued.head? with
  | none => exact .nil h
  | some e =>
    refine .cons (h.safeOp ?_ (by simp) (by simp)) (.nil h.unlinkQueue)
    rintro i ⟨rfl⟩
    exact (id_of_mem_files hp) ▸ hX

theorem journal_clearTicketMarkers (id : TicketId) (s : Broker) :
    (clearTicketMarkers id).journal s =
      (discardRebinding id).journal s ++ [.unlinkCancelMarker id, .unlinkSuperseded id] := rfl

theorem safe_clearTicketMarkers (h : AllTidy s) (hX : X id) :
    SafeSection X K ((clearTicketMarkers id).journal s) s := by
  have hd := safe_discardRebinding (K := K) h hX
  rw [journal_clearTicketMarkers]
  refine hd.append (.of_about_none hd.2 fun op hop => ?_)
  simp only [List.mem_cons, List.not_mem_nil, or_false] at hop
  rcases hop with rfl | rfl <;> rfl

/-- The two file operations of a restore, from a parked file to a queue file of the same name:
between them the ticket is in both places. -/
theorem safe_restoreFiles {rec : QueueRecord} (now : ℕ) (h : AllTidy s) (hX : X n.id)
    (hp : (filesFor s n.id).parked = [(n, rec)]) (hr : (filesFor s n.id).result = none) :
    SafeSection X K
      [.writeQueue n { rec with localSince := now }, .unlinkParked .restore n] s := by
  obtain ⟨hq, hl⟩ : (filesFor s n.id).queued = [] ∧ (filesFor s n.id).lease = none := by
    rcases (h n.id).parked_cases with hnil | ⟨_, _, hq, hl⟩
    · simp [hp] at hnil
    · exact ⟨hq, hl⟩
  obtain ⟨hid, hseq, hs⟩ := (h n.id).named (n, rec) (by simp [hp])
  have habout : ∀ i, some n.id = some i → X i := by
    rintro i ⟨rfl⟩
    exact hX
  refine ⟨⟨{ tidy := .inl h, requeue := ?_, about := habout, park := by simp },
    { tidy := .inr (.inl ⟨n, rfl⟩), requeue := by simp, about := habout, park := by simp },
    trivial⟩, fun i => ?_⟩
  · rintro m ⟨rfl⟩
    exact ⟨hr, hs⟩
  · by_cases hi : n.id = i
    · subst hi
      change Tidy _ (filesFor ((FileOp.unlinkParked .restore n).apply
        ((FileOp.writeQueue n { rec with localSince := now }).apply s)) n.id)
      rw [filesFor_unlinkParked, filesFor_writeQueue]
      refine { h n.id with places := ?_, named := ?_, dropped := by simp [hp] }
      · simp [TicketFiles.places, hq, hp, hl]
      · simpa [hq, hp] using ⟨hid, hseq, hs⟩
    · rw [filesFor_applyAll_of_ne]
      · exact h i
      · intro op hop
        simp only [List.mem_cons, List.not_mem_nil, or_false] at hop
        rcases hop with rfl | rfl <;> simpa [FileOp.about] using hi

/-- The rename back of a withdrawal that failed. -/
theorem safe_unpark (h : AllTidy s) (hX : X n.id) (hp : (filesFor s n.id).parked = [(n, r)])
    (hr : (filesFor s n.id).result = none) : SafeSection X K [.unpark n] s := by
  obtain ⟨-, -, hs⟩ := (h n.id).named (n, r) (by simp [hp])
  refine .cons { tidy := .inl h, requeue := ?_, about := ?_, park := by simp }
    (.nil (h.unpark hp))
  · rintro m ⟨rfl⟩
    exact ⟨hr, hs⟩
  · rintro i ⟨rfl⟩
    exact hX

/-- What a restore does to a ticket that is parked in one file. -/
theorem journal_restoreLocked {rec : QueueRecord} (now : ℕ)
    (hq : (filesFor s r.id).queued = []) (hp : (filesFor s r.id).parked = [(n, rec)]) :
    (restoreLocked r now).journal s =
      [.writeQueue n { rec with localSince := now }, .unlinkParked .restore n] ++
        (patchAttemptLocked r.id fun a => { a with rebinding := none }).journal
          (applyAll [FileOp.writeQueue n { rec with localSince := now },
            .unlinkParked .restore n] s) := by
  simp [restoreLocked, findQueueFile_eq, rebindingFile_eq, hq, hp]

/-- The files of a ticket whose attempt was patched. -/
theorem filesFor_patched (id : TicketId) (patch : Attempt → Attempt) (s : Broker) :
    filesFor (applyAll ((patchAttemptLocked id patch).journal s) s) id =
      { filesFor s id with attempt := (filesFor s id).attempt.map patch } := by
  rw [journal_patchAttemptLocked]
  change filesFor (applyAll (((filesFor s id).attempt.map _).toList) s) id = _
  cases ha : (filesFor s id).attempt with
  | none =>
    change filesFor s id = { filesFor s id with attempt := none }
    rw [← ha]
  | some a => exact filesFor_writeAttempt ..

/-- The files of a ticket that was put back. -/
theorem filesFor_restored {rec : QueueRecord} (now : ℕ) (h : Tidy r.id (filesFor s r.id))
    (hp : (filesFor s r.id).parked = [(n, rec)]) :
    filesFor (applyAll ((restoreLocked r now).journal s) s) r.id =
      { filesFor s r.id with
        queued := [(n, { rec with localSince := now })]
        parked := []
        attempt := (filesFor s r.id).attempt.map fun a => { a with rebinding := none } } := by
  have hq : (filesFor s r.id).queued = [] := by
    rcases h.parked_cases with hnil | ⟨_, _, hq, _⟩
    · simp [hp] at hnil
    · exact hq
  obtain hn : n.id = r.id := id_of_mem_files (d := s.parked) (e := (n, rec)) (by
    change (filesFor s r.id).parked.head? = _
    rw [hp]; rfl)
  have hfiles : filesFor (applyAll [FileOp.writeQueue n { rec with localSince := now },
      .unlinkParked .restore n] s) r.id =
      { filesFor s r.id with queued := [(n, { rec with localSince := now })], parked := [] } := by
    rw [← hn] at hq hp ⊢
    change filesFor ((FileOp.unlinkParked .restore n).apply
      ((FileOp.writeQueue n { rec with localSince := now }).apply s)) n.id = _
    rw [filesFor_unlinkParked, filesFor_writeQueue]
    simp [hq, hp]
  rw [journal_restoreLocked now hq hp, applyAll_append, filesFor_patched, hfiles]

/-- **A restore puts a ticket with no terminal result back under its own name.** -/
theorem safe_restoreLocked {now : ℕ} (h : AllTidy s) (hX : X r.id)
    (hp : (filesFor s r.id).parked ≠ []) (hr : (filesFor s r.id).result = none) :
    SafeSection X K ((restoreLocked r now).journal s) s := by
  obtain ⟨⟨n, rec⟩, hpe, hq, hl⟩ := (h r.id).parked_cases.resolve_left hp
  have hn : n.id = r.id := id_of_mem_files (d := s.parked) (e := (n, rec)) (by
    change (filesFor s r.id).parked.head? = _
    rw [hpe]; rfl)
  have hfiles : SafeSection X K
      [.writeQueue n { rec with localSince := now }, .unlinkParked .restore n] s :=
    safe_restoreFiles now h (hn.symm ▸ hX) (hn.symm ▸ hpe) (hn.symm ▸ hr)
  rw [journal_restoreLocked now hq hpe]
  exact hfiles.append (safe_patchAttemptLocked hfiles.2 hX fun a => rfl)

end SafeSection

/-! ### A terminal publish -/

/-- What a publisher does to the files of its own ticket once the ticket is not parked. -/
def ReleaseOp (id : TicketId) : FileOp → Prop
  | .writeResult i _ | .unlinkLease i | .unlinkAttempt i => i = id
  | .unlinkQueue n | .unlinkParked .discard n => n.id = id
  | .appendHistory _ | .writeCancelMarker _ | .unlinkCancelMarker _ | .writeSuperseded _ _
  | .unlinkSuperseded _ | .setMigrating _ => True
  | _ => False

section Publish

variable {X : TicketId → Prop} {K : TicketId → Prop} {s : Broker} {id : TicketId}
  {ops : List FileOp}

theorem safe_releaseOps (h : AllTidy s) (hX : X id) (hp : (filesFor s id).parked = [])
    (hops : ∀ op ∈ ops, ReleaseOp id op) : SafeSection X K ops s := by
  induction ops generalizing s with
  | nil => exact .nil h
  | cons op ops ih =>
    have hop := hops op (List.mem_cons_self ..)
    have hpark : ∀ n, op ≠ .park n := by rintro n rfl; exact hop
    have hqueue : op.requeues = none := by
      cases op <;> first | rfl | exact hop.elim
    have habout : ∀ i, op.about = some i → X i := by
      intro i hi
      have : i = id := by
        cases op <;> simp only [FileOp.about, Option.some.injEq, reduceCtorEq] at hi <;>
          subst hi <;> first | exact hop | exact hop.elim | skip
        case unlinkParked w n => cases w; exacts [hop.elim, hop]
      exact this ▸ hX
    have hafter : AllTidy (op.apply s) := by
      cases op <;> first | exact hop.elim | exact h.apply_none rfl | skip
      case unlinkQueue n => exact h.unlinkQueue
      case unlinkParked w n => exact h.unlinkParked
      case unlinkLease i => exact h.unlinkLease
      case writeResult i r =>
        obtain rfl : i = id := hop
        exact h.writeResult fun hne => absurd hp hne
      case unlinkAttempt i => exact h.unlinkAttempt
    refine .cons (h.safeOp habout hqueue hpark)
      (ih hafter ?_ fun o ho => hops o (List.mem_cons_of_mem _ ho))
    exact parked_apply_of_nil (fun n hn => absurd hn (hpark n)) hp

/-- **A publish through the attempt record**: the result, then its row if it is logged, then the
removal of the attempt.  For a parked ticket whose attempt was not dispatched the points in
between are the window. -/
theorem safe_publish {a : Attempt} {r : TicketResult} {rows : List HistoryRow} (h : AllTidy s)
    (hX : X id) (ha : (filesFor s id).attempt = some a) (hrows : ∀ row ∈ rows, row.id = id) :
    SafeSection X K
      (.writeResult id r :: (rows.map FileOp.appendHistory ++ [.unlinkAttempt id])) s := by
  have habout : ∀ i, some id = some i → X i := by
    rintro i ⟨rfl⟩
    exact hX
  by_cases hdrop : (filesFor s id).parked ≠ [] → a.dispatched = true
  · have h₁ : AllTidy ((FileOp.writeResult id r).apply s) := by
      refine h.writeResult fun hp b hb => ?_
      rw [ha] at hb
      exact Option.some.inj hb ▸ hdrop hp
    have h₂ : SafeSection X K (rows.map FileOp.appendHistory)
        ((FileOp.writeResult id r).apply s) := .of_about_none h₁ fun op hop => by
      obtain ⟨row, -, rfl⟩ := List.mem_map.1 hop
      rfl
    exact .cons (h.safeOp habout (by simp) (by simp))
      (h₂.append (.cons (h₂.2.safeOp habout (by simp) (by simp)) (.nil h₂.2.unlinkAttempt)))
  · obtain ⟨hp, hd⟩ := Classical.not_imp.1 hdrop
    rw [Bool.not_eq_true] at hd
    -- along the rows the parked file and the attempt stay, so every cut there is in the window
    have hmid : ∀ (rows : List HistoryRow) (t : Broker), (∀ row ∈ rows, row.id = id) →
        (filesFor t id).parked ≠ [] → (filesFor t id).attempt = some a →
        (∀ i, i ≠ id → Tidy i (filesFor t i)) → Tidy id { filesFor t id with attempt := none } →
        SafeSection X K (rows.map FileOp.appendHistory ++ [.unlinkAttempt id]) t := by
      intro rows
      induction rows with
      | nil =>
        intro t _ hp ha hother hid
        have hop : SafeOp X K (.unlinkAttempt id) t :=
          { tidy := .inr (.inr ⟨id, .inl rfl, hp, a, ha, hd⟩)
            requeue := by simp
            about := habout
            park := by simp }
        refine ⟨⟨hop, trivial⟩, fun i => ?_⟩
        by_cases hi : i = id
        · subst hi
          change Tidy i (filesFor ((FileOp.unlinkAttempt i).apply t) i)
          rw [filesFor_unlinkAttempt]
          exact hid
        · rw [filesFor_applyAll_of_ne]
          · exact hother i hi
          · intro op hop
            obtain rfl := List.mem_singleton.1 hop
            simpa [FileOp.about] using Ne.symm hi
      | cons row rows ih =>
        intro t hrows hp ha hother hid
        have hrow := hrows row (List.mem_cons_self ..)
        have hop : SafeOp X K (.appendHistory row) t :=
          { tidy := .inr (.inr ⟨id, .inr ⟨row, hrow, rfl⟩, hp, a, ha, hd⟩)
            requeue := by simp
            about := by simp [FileOp.about]
            park := by simp }
        refine .cons hop ?_
        exact ih _ (fun o ho => hrows o (List.mem_cons_of_mem _ ho)) hp ha hother hid
    refine .cons (h.safeOp habout (by simp) (by simp)) (hmid rows _ hrows ?_ ?_ ?_ ?_)
    · rw [filesFor_writeResult]; exact hp
    · rw [filesFor_writeResult]; exact ha
    · intro i hi
      rw [filesFor_apply_of_ne (by simpa [FileOp.about] using Ne.symm hi)]
      exact h i
    · rw [filesFor_writeResult]
      exact { h id with dropped := by simp }

/-- A writer that writes one result, and at most one row, of its own ticket. -/
def RowWriter (id : TicketId) (w : Bool → Section Unit) : Prop :=
  ∀ c s, ∃ (r : TicketResult) (row : Option HistoryRow), (∀ x ∈ row.toList, x.id = id) ∧
    (w c).journal s = .writeResult id r :: row.toList.map FileOp.appendHistory

theorem RowWriter.safe {w : Bool → Section Unit} {g : ℕ} {expect : Broker → Attempt → Bool}
    (hw : RowWriter id w) (h : AllTidy s)
    (hX : ∀ a, s.attempts.read id = some a → expect s a = true → X id) :
    SafeSection X K ((publishTerminal id g expect w).journal s) s := by
  rcases journal_publishTerminal_cases id g expect w s with hj | ⟨a, c, ha, he, -, -, hj⟩
  · exact hj ▸ .nil h
  · obtain ⟨r, rows, hrows, hwj⟩ := hw c s
    rw [hj, hwj]
    exact safe_publish h (hX a ha he) ha hrows

end Publish

/-! ### Reaping

A pass over the leases, the parked files or the queue changes only the tickets whose records
name a supervisor that the probe found gone.  The others are the tickets outside `X`: the loops
keep their files as they were at the start. -/

/-- No record of the ticket names a process that the probe found gone. -/
structure HeldAlive (gone : List Proc) (v : TicketFiles) : Prop where
  files : ∀ e ∈ v.queued ++ v.parked, e.2.supervisor ∉ gone
  lease : ∀ l, v.lease = some l → l.supervisor ∉ gone

/-- What the reaping loops keep, from the state `s₀` they start in. -/
structure ReapInv (X : TicketId → Prop) (gone : List Proc) (s₀ s : Broker) : Prop where
  tidy : AllTidy s
  alive : ∀ id, ¬ X id → HeldAlive gone (filesFor s₀ id)
  frame : ∀ id, ¬ X id → filesFor s id = filesFor s₀ id

section Reaping

variable {X : TicketId → Prop} {K : TicketId → Prop} {gone : List Proc} {s₀ s : Broker}

theorem ReapInv.heldAlive (h : ReapInv X gone s₀ s) {id : TicketId} (hid : ¬ X id) :
    HeldAlive gone (filesFor s id) := by
  rw [h.frame id hid]
  exact h.alive id hid

/-- A safe section about `X` keeps the loops' invariant. -/
theorem ReapInv.section {ops : List FileOp} (h : ReapInv X gone s₀ s)
    (hs : SafeSection X K ops s) : ReapInv X gone s₀ (applyAll ops s) where
  tidy := hs.2
  alive := h.alive
  frame id hid := by rw [hs.frame hid, h.frame id hid]

theorem safe_reapIfStale (h : ReapInv X gone s₀ s) (released : List TicketId) (id : TicketId) :
    SafeSection X K ((reapIfStale gone released id).journal s) s := by
  cases hl : s.leases.read id with
  | none =>
    have hj : (reapIfStale gone released id).journal s = [] := by simp [reapIfStale, hl]
    exact hj ▸ .nil h.tidy
  | some l =>
    obtain rfl : l.id = id := (h.tidy id).lease l hl
    obtain ⟨hq, hp⟩ := (h.tidy l.id).of_lease (by simp [filesFor, hl])
    by_cases hgone : l.supervisor ∈ gone
    · have hX : X l.id := by
        by_contra hX
        exact (h.heldAlive hX).lease l hl hgone
      have habout : ∀ i, some l.id = some i → X i := by
        rintro i ⟨rfl⟩
        exact hX
      by_cases hrel : l.id ∈ released
      · have hj : (reapIfStale gone released l.id).journal s = [.unlinkLease l.id] := by
          simp [reapIfStale, hl, hgone, hrel]
        rw [hj]
        exact .cons (h.tidy.safeOp habout (by simp) (by simp)) (.nil h.tidy.unlinkLease)
      · have hj : (reapIfStale gone released l.id).journal s =
            [.writeLease { l with state := .orphaned }] := by
          simp [reapIfStale, hl, hgone, hrel]
        rw [hj]
        exact .cons (h.tidy.safeOp habout (by simp) (by simp)) (.nil (h.tidy.writeLease hq hp))
    · have hj : (reapIfStale gone released l.id).journal s = [] := by
        simp [reapIfStale, hl, hgone]
      exact hj ▸ .nil h.tidy

theorem safe_reapAll (h : ReapInv X gone s₀ s) (released : List TicketId) :
    SafeSection X K ((reapAll gone released).journal s) s := by
  have hloop := forM_journal (P := SafeOp X K) (I := ReapInv X gone s₀)
    (f := reapIfStale gone released) (s := s) (s.leases.entries.map Prod.fst)
    (fun id _ t ht => by
      have hone := safe_reapIfStale (K := K) ht released id
      exact ⟨hone.1, ht.section hone⟩) h
  exact ⟨hloop.1, hloop.2.tidy⟩

theorem safe_recoverOne (h : ReapInv X gone s₀ s) (now : ℕ) (name : QueueName) :
    SafeSection X K ((recoverOne gone now name).journal s) s := by
  cases hrec : s.parked.read name with
  | none =>
    have hj : (recoverOne gone now name).journal s = [] := by simp [recoverOne, hrec]
    exact hj ▸ .nil h.tidy
  | some record =>
    have hmem : (name, record) ∈ (filesFor s name.id).parked := mem_filesOf_of_read hrec
    have hid : record.id = name.id :=
      ((h.tidy name.id).named _ (List.mem_append_right _ hmem)).1
    have hparked : (filesFor s record.id).parked ≠ [] := by
      rw [hid]
      exact List.ne_nil_of_mem hmem
    by_cases hgone : record.supervisor ∈ gone
    · have hX : X record.id := by
        by_contra hX
        refine (h.heldAlive hX).files (name, record) (List.mem_append_right _ ?_) hgone
        rwa [hid]
      have hdiscard := safe_discardRebinding (K := K) h.tidy hX
      cases ha : s.attempts.read record.id with
      | some a =>
        by_cases hd : a.dispatched = true
        · have hj : (recoverOne gone now name).journal s =
              (discardRebinding record.id).journal s := by
            simp [recoverOne, hrec, hgone, ha, hd]
          exact hj ▸ hdiscard
        · have hj : (recoverOne gone now name).journal s =
              (restoreLocked record now).journal s := by
            simp [recoverOne, hrec, hgone, ha, hd]
          rw [hj]
          refine safe_restoreLocked h.tidy hX hparked ?_
          by_contra hres
          exact hd ((h.tidy record.id).dropped hparked hres a ha)
      | none =>
        by_cases hr : (s.results.read record.id).isSome = true
        · have hj : (recoverOne gone now name).journal s =
              (discardRebinding record.id).journal s := by
            simp [recoverOne, hrec, hgone, ha, hr]
          exact hj ▸ hdiscard
        · have hj : (recoverOne gone now name).journal s =
              (restoreLocked record now).journal s := by
            simp [recoverOne, hrec, hgone, ha, hr]
          rw [hj]
          exact safe_restoreLocked h.tidy hX hparked (by simpa [filesFor] using hr)
    · have hj : (recoverOne gone now name).journal s = [] := by simp [recoverOne, hrec, hgone]
      exact hj ▸ .nil h.tidy

theorem safe_recoverRebinding (h : ReapInv X gone s₀ s) (now : ℕ) :
    SafeSection X K ((recoverRebinding gone now).journal s) s := by
  have hloop := forM_journal (P := SafeOp X K) (I := ReapInv X gone s₀)
    (f := recoverOne gone now) (s := s) (s.parked.entries.map Prod.fst)
    (fun n _ t ht => by
      have hone := safe_recoverOne (K := K) ht now n
      exact ⟨hone.1, ht.section hone⟩) h
  exact ⟨hloop.1, hloop.2.tidy⟩

theorem mem_listQueue {t : QueueRecord} (h : t ∈ listQueue s) :
    ∃ n, (n, t) ∈ (filesFor s n.id).queued := by
  obtain ⟨e, he, rfl⟩ := List.mem_map.1 h
  exact ⟨e.1, mem_filesOf.2 ⟨(List.mem_insertionSort _).1 he, rfl⟩⟩

/-- The result and the history row of a reaped ticket. -/
theorem journal_reapOrphanedOne (keep : Option TicketId) (gone : List Proc) (t : QueueRecord)
    (s : Broker) :
    (reapOrphanedOne keep gone t).journal s = [] ∨ t.supervisor ∈ gone ∧
      ∃ r row, row.id = t.id ∧ (reapOrphanedOne keep gone t).journal s =
        .writeResult t.id r :: ((dequeueSync t.id).journal ((FileOp.writeResult t.id r).apply s) ++
          [.appendHistory row, .unlinkSuperseded t.id]) := by
  by_cases h : some t.id = keep ∨ t.supervisor ∉ gone
  · exact .inl (by simp [reapOrphanedOne, h])
  · refine .inr ⟨not_not.1 (not_or.1 h).2,
      withSupersession s t.id (deadSupervisorResult (readSupersededBy s t.id).isSome),
      ⟨t.id, if (readSupersededBy s t.id).isSome then some 130 else none,
        (readSupersededBy s t.id).isSome, some "supervisor died while queued"⟩, rfl, ?_⟩
    simp only [reapOrphanedOne, Locked.journal_bind, Locked.journal_read, Locked.value_read,
      Locked.after_read, List.nil_append, if_neg h]
    rfl

/-- One ticket of the queue reap, which is not parked: its result, its dequeue, its row. -/
theorem safe_reapOrphanedOne (h : AllTidy s) {keep : Option TicketId}
    {t : QueueRecord} (hX : t.supervisor ∈ gone → X t.id)
    (hp : (filesFor s t.id).parked = []) :
    SafeSection X K ((reapOrphanedOne keep gone t).journal s) s := by
  rcases journal_reapOrphanedOne keep gone t s with hj | ⟨hg, r, row, -, hj⟩
  · exact hj ▸ .nil h
  · have htidy : AllTidy ((FileOp.writeResult t.id r).apply s) :=
      h.writeResult fun hne => absurd hp hne
    have hd := safe_dequeueSync (K := K) htidy (hX hg)
    rw [hj]
    refine .cons (h.safeOp ?_ (by simp) (by simp)) (hd.append (.of_about_none hd.2 ?_))
    · rintro i ⟨rfl⟩
      exact hX hg
    · intro op hop
      simp only [List.mem_cons, List.not_mem_nil, or_false] at hop
      rcases hop with rfl | rfl <;> rfl

theorem safe_reapOrphanedQueue (h : ReapInv X gone s₀ s) (keep : Option TicketId) :
    SafeSection X K ((reapOrphanedQueue keep gone).journal s) s := by
  have hloop := forM_journal (P := SafeOp X fun _ => False)
    (I := fun t => ReapInv X gone s₀ t ∧
      ∀ id, (filesFor s id).queued ≠ [] → (filesFor t id).parked = [])
    (f := reapOrphanedOne keep gone) (s := s) (listQueue s)
    (fun q hq t ht => ?_) ⟨h, fun id hne => ?_⟩
  · exact ⟨hloop.1.mono fun op t ho => { ho with park := fun n hn => (ho.park n hn).elim },
      hloop.2.1.tidy⟩
  · obtain ⟨n, hn⟩ := mem_listQueue hq
    have hid : q.id = n.id := ((h.tidy n.id).named _ (List.mem_append_left _ hn)).1
    have hne : (filesFor s q.id).queued ≠ [] := by
      rw [hid]
      exact List.ne_nil_of_mem hn
    have hone : SafeSection X (fun _ => False) ((reapOrphanedOne keep gone q).journal t) t := by
      refine safe_reapOrphanedOne ht.1.tidy (fun hg => ?_) (ht.2 q.id hne)
      by_contra hX
      refine (h.heldAlive hX).files (n, q) (List.mem_append_left _ ?_) hg
      rwa [hid]
    refine ⟨hone.1, ht.1.section hone, fun id hid' => ?_⟩
    exact parked_applyAll_of_nil (fun n hn => (hone.park hn).elim) (ht.2 id hid')
  · rcases (h.tidy id).queued_cases with hnil | ⟨_, _, hp, _⟩
    · exact absurd hnil hne
    · exact hp

/-- **The reaping every admission decision starts with is safe**, for the tickets whose records
name nobody alive. -/
theorem safe_reapStale (h : AllTidy s) (halive : ∀ id, ¬ X id → HeldAlive gone (filesFor s id))
    (keep : Option TicketId) (released : List TicketId) (now : ℕ) :
    SafeSection X K ((reapStale keep gone released now).journal s) s := by
  have h₀ : ReapInv X gone s s := ⟨h, halive, fun _ _ => rfl⟩
  have h₁ := safe_reapAll (K := K) h₀ released
  have h₂ := safe_recoverRebinding (K := K) (h₀.section h₁) now
  have h₃ := safe_reapOrphanedQueue (K := K) ((h₀.section h₁).section h₂) keep
  exact h₁.append (h₂.append h₃)

end Reaping

end LaneBroker
