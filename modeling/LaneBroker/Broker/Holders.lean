/-
# Who holds a ticket

Several submissions may name one ticket id.  A submission holds the ticket when a record of the
ticket names its supervisor, or when that is alive and past the ownership check (`World.Holds`).

No locked section names anybody new in a record but the process that runs it, on a ticket that it
holds or takes: what a section writes over a record names whom the record named (`Fair`).  And no
section queues, leases or writes an attempt for a ticket that has a terminal result.
-/

import LaneBroker.Broker.RecoverySteps

namespace LaneBroker

open LaneBroker.Basis

/-! ### Names -/

/-- The submissions that the records of a ticket name. -/
def TicketFiles.names (v : TicketFiles) : List Proc :=
  (v.queued ++ v.parked).map (fun e => e.2.supervisor) ++ v.lease.toList.map Lease.supervisor ++
    v.attempt.toList.map Attempt.supervisor

/-- Who is named: in the queue, in the lease or in the attempt record. -/
theorem TicketFiles.mem_names {v : TicketFiles} {p : Proc} :
    p ∈ v.names ↔ (∃ e ∈ v.queued ++ v.parked, e.2.supervisor = p) ∨
      (∃ l, v.lease = some l ∧ l.supervisor = p) ∨ ∃ a, v.attempt = some a ∧ a.supervisor = p := by
  rw [TicketFiles.names, List.mem_append, List.mem_append, List.mem_map, List.mem_map, List.mem_map,
    or_assoc]
  simp only [Option.mem_toList]

/-- A rename brings no record that was not there. -/
theorem mem_moveFile {n : QueueName} {d d' : Dir QueueName QueueRecord} {id : TicketId}
    {e : QueueName × QueueRecord}
    (h : e ∈ filesOf (moveFile n d d').1 id ++ filesOf (moveFile n d d').2 id) :
    e ∈ filesOf d id ++ filesOf d' id := by
  unfold moveFile at h
  split at h
  · rename_i r hr
    rcases List.mem_append.1 h with h | h
    · obtain ⟨he, hid⟩ := mem_filesOf.1 h
      exact List.mem_append_left _ (mem_filesOf.2 ⟨(Dir.mem_unlink.1 he).1, hid⟩)
    · obtain ⟨he, hid⟩ := mem_filesOf.1 h
      rcases Dir.mem_write.1 he with ⟨he, -⟩ | rfl
      · exact List.mem_append_right _ (mem_filesOf.2 ⟨he, hid⟩)
      · exact List.mem_append_left _ (hid ▸ mem_filesOf_of_read hr)
  · exact h

/-- **Whom an operation names** is in the record that it writes, and else was named before. -/
theorem mem_names_apply {op : FileOp} {s : Broker} {id : TicketId} {q : Proc}
    (h : q ∈ (filesFor (op.apply s) id).names) :
    q ∈ (filesFor s id).names ∨ op.about = some id ∧ op.named = some q := by
  by_cases habout : op.about = some id
  swap
  · rw [filesFor_apply_of_ne habout] at h
    exact .inl h
  rw [TicketFiles.mem_names] at h ⊢
  cases op <;> simp only [FileOp.about, Option.some.injEq, reduceCtorEq] at habout <;> subst habout
  case bumpSeq i => exact .inl h
  case writeQueue n r =>
    rw [filesFor_writeQueue] at h
    rcases h with ⟨e, he, rfl⟩ | h
    · simp only [List.mem_append, List.mem_filter, List.mem_singleton] at he
      rcases he with (⟨he, -⟩ | rfl) | he
      · exact .inl (.inl ⟨e, List.mem_append_left _ he, rfl⟩)
      · exact .inr ⟨rfl, rfl⟩
      · exact .inl (.inl ⟨e, List.mem_append_right _ he, rfl⟩)
    · exact .inl (.inr h)
  case unlinkQueue n =>
    rw [filesFor_unlinkQueue] at h
    rcases h with ⟨e, he, rfl⟩ | h
    · rcases List.mem_append.1 he with he | he
      · exact .inl (.inl ⟨e, List.mem_append_left _ (List.mem_of_mem_filter he), rfl⟩)
      · exact .inl (.inl ⟨e, List.mem_append_right _ he, rfl⟩)
    · exact .inl (.inr h)
  case park n =>
    rcases h with ⟨e, he, rfl⟩ | h
    · exact .inl (.inl ⟨e, mem_moveFile he, rfl⟩)
    · exact .inl (.inr h)
  case unpark n =>
    rcases h with ⟨e, he, rfl⟩ | h
    · have he' : e ∈ filesOf s.parked n.id ++ filesOf s.queue n.id :=
        mem_moveFile ((List.perm_append_comm.mem_iff).1 he)
      exact .inl (.inl ⟨e, (List.perm_append_comm.mem_iff).1 he', rfl⟩)
    · exact .inl (.inr h)
  case unlinkParked u n =>
    rw [filesFor_unlinkParked] at h
    rcases h with ⟨e, he, rfl⟩ | h
    · rcases List.mem_append.1 he with he | he
      · exact .inl (.inl ⟨e, List.mem_append_left _ he, rfl⟩)
      · exact .inl (.inl ⟨e, List.mem_append_right _ (List.mem_of_mem_filter he), rfl⟩)
    · exact .inl (.inr h)
  case writeLease l =>
    rw [filesFor_writeLease] at h
    rcases h with h | ⟨l', hl', rfl⟩ | h
    · exact .inl (.inl h)
    · obtain rfl := Option.some.inj hl'
      exact .inr ⟨rfl, rfl⟩
    · exact .inl (.inr (.inr h))
  case unlinkLease i =>
    rw [filesFor_unlinkLease] at h
    rcases h with h | ⟨l', hl', -⟩ | h
    · exact .inl (.inl h)
    · simp at hl'
    · exact .inl (.inr (.inr h))
  case writeResult i r => exact .inl h
  case writeAttempt i a =>
    rw [filesFor_writeAttempt] at h
    rcases h with h | h | ⟨a', ha', rfl⟩
    · exact .inl (.inl h)
    · exact .inl (.inr (.inl h))
    · obtain rfl := Option.some.inj ha'
      exact .inr ⟨rfl, rfl⟩
  case unlinkAttempt i =>
    rw [filesFor_unlinkAttempt] at h
    rcases h with h | h | ⟨a', ha', -⟩
    · exact .inl (.inl h)
    · exact .inl (.inr (.inl h))
    · simp at ha'

/-! ### Fair sections -/

/-- The ticket that an operation queues, starts, or writes an attempt for. -/
def FileOp.begins : FileOp → Option TicketId
  | .writeQueue n _ => some n.id
  | .writeLease l => if l.state = .running then some l.id else none
  | .writeAttempt id _ => some id
  | _ => none

/-- What begins something names somebody. -/
theorem FileOp.begins_eq_none {op : FileOp} (h : op.named = none) : op.begins = none := by
  cases op <;> first | rfl | simp [FileOp.named] at h

/-- **A fair operation**: it names only whom `H` allows, and begins nothing that is finished. -/
structure Fair (H : TicketId → Proc → Prop) (op : FileOp) (s : Broker) : Prop where
  named : ∀ id q, op.about = some id → op.named = some q → H id q
  begins : ∀ id, op.begins = some id → (filesFor s id).result = none

/-- The records name only whom `H` allows. -/
def NamesIn (H : TicketId → Proc → Prop) (s : Broker) : Prop :=
  ∀ id, ∀ q ∈ (filesFor s id).names, H id q

section Fair

variable {H : TicketId → Proc → Prop} {op : FileOp} {ops : List FileOp} {s : Broker}
  {id : TicketId}

/-- What names nobody is fair. -/
theorem fair_of_named (h : op.named = none) : Fair H op s where
  named id q _ hq := by rw [h] at hq; cases hq
  begins id hid := by rw [FileOp.begins_eq_none h] at hid; cases hid

/-- Operations that write no record. -/
theorem fair_of_forall_named (h : ∀ op ∈ ops, op.named = none) : BeforeEach (Fair H) ops s :=
  (beforeEach_const.2 h).mono fun _ _ ho => fair_of_named ho

/-- **A fair operation names nobody new.** -/
theorem NamesIn.apply (h : NamesIn H s) (hop : Fair H op s) : NamesIn H (op.apply s) := by
  intro id q hq
  rcases mem_names_apply hq with hq | ⟨habout, hnamed⟩
  · exact h id q hq
  · exact hop.named id q habout hnamed

theorem NamesIn.applyAll (h : NamesIn H s) (hops : BeforeEach (Fair H) ops s) :
    NamesIn H (applyAll ops s) :=
  hops.keep (fun _ _ hop hs => NamesIn.apply hs hop) h

/-- What a patch of an attempt's record names. -/
theorem fair_patched {a : Attempt} {patch : Attempt → Attempt} (h : NamesIn H s)
    (ha : (filesFor s id).attempt = some a) (hpatch : (patch a).supervisor = a.supervisor)
    (hr : (filesFor s id).result = none) : Fair H (.writeAttempt id (patch a)) s where
  named i q hi hq := by
    obtain rfl : id = i := Option.some.inj hi
    obtain rfl : (patch a).supervisor = q := Option.some.inj hq
    exact h id _ (TicketFiles.mem_names.2 (.inr (.inr ⟨a, ha, hpatch.symm⟩)))
  begins i hi := by
    obtain rfl : id = i := Option.some.inj hi
    exact hr

/-- A patch of the record leaves its supervisor. -/
theorem fair_patchAttemptLocked {patch : Attempt → Attempt} (h : NamesIn H s)
    (hpatch : ∀ a, (patch a).supervisor = a.supervisor) (hr : (filesFor s id).result = none) :
    BeforeEach (Fair H) ((patchAttemptLocked id patch).journal s) s := by
  rw [journal_patchAttemptLocked]
  cases ha : s.attempts.read id with
  | none => trivial
  | some a => exact ⟨fair_patched h ha (hpatch a) hr, trivial⟩

theorem fair_dequeueSync : BeforeEach (Fair H) ((dequeueSync id).journal s) s := by
  refine fair_of_forall_named fun op hop => ?_
  rw [journal_dequeueSync] at hop
  obtain ⟨e, -, rfl⟩ := Option.map_eq_some_iff.1 (Option.mem_toList.1 hop)
  rfl

theorem fair_discardRebinding : BeforeEach (Fair H) ((discardRebinding id).journal s) s := by
  refine fair_of_forall_named fun op hop => ?_
  rw [journal_discardRebinding] at hop
  obtain ⟨e, -, rfl⟩ := Option.map_eq_some_iff.1 (Option.mem_toList.1 hop)
  rfl

theorem fair_clearTicketMarkers : BeforeEach (Fair H) ((clearTicketMarkers id).journal s) s := by
  rw [journal_clearTicketMarkers]
  refine beforeEach_append.2 ⟨fair_discardRebinding, fair_of_forall_named fun op hop => ?_⟩
  simp only [List.mem_cons, List.not_mem_nil, or_false] at hop
  rcases hop with rfl | rfl <;> rfl

/-- **A restore names whom the parked record names.** -/
theorem fair_restoreLocked {r : QueueRecord} (now : ℕ) (h : NamesIn H s) (htidy : AllTidy s)
    (hp : (filesFor s r.id).parked ≠ []) (hr : (filesFor s r.id).result = none) :
    BeforeEach (Fair H) ((restoreLocked r now).journal s) s := by
  obtain ⟨⟨n, rec⟩, hpe, hq, -⟩ := (htidy r.id).parked_cases.resolve_left hp
  have hn : n.id = r.id := id_of_mem_files (d := s.parked) (e := (n, rec)) (by
    change (filesFor s r.id).parked.head? = _
    rw [hpe]; rfl)
  have hwrite : Fair H (.writeQueue n { rec with localSince := now }) s := by
    refine ⟨fun i q hi hq => ?_, fun i hi => ?_⟩
    · obtain rfl : n.id = i := Option.some.inj hi
      obtain rfl : rec.supervisor = q := Option.some.inj hq
      refine h n.id _ (TicketFiles.mem_names.2 (.inl ⟨(n, rec), List.mem_append_right _ ?_, rfl⟩))
      rw [hn, hpe]
      exact List.mem_cons_self ..
    · obtain rfl : n.id = i := Option.some.inj hi
      exact hn.symm ▸ hr
  have hfiles : BeforeEach (Fair H)
      [.writeQueue n { rec with localSince := now }, .unlinkParked .restore n] s :=
    ⟨hwrite, fair_of_named rfl, trivial⟩
  rw [journal_restoreLocked now hq hpe]
  refine beforeEach_append.2 ⟨hfiles, fair_patchAttemptLocked (h.applyAll hfiles) (fun _ => rfl) ?_⟩
  change (filesFor ((FileOp.unlinkParked .restore n).apply
    ((FileOp.writeQueue n { rec with localSince := now }).apply s)) r.id).result = none
  rw [← hn, filesFor_unlinkParked, filesFor_writeQueue]
  exact hn.symm ▸ hr

/-! ### Reaping -/

variable {X : TicketId → Prop} {gone : List Proc} {s₀ : Broker}

/-- A lease that is put back to the queue names whom it named. -/
theorem fair_reapIfStale (h : NamesIn H s) (htidy : AllTidy s) (released : List TicketId)
    (id : TicketId) : BeforeEach (Fair H) ((reapIfStale gone released id).journal s) s := by
  cases hl : s.leases.read id with
  | none =>
    have hj : (reapIfStale gone released id).journal s = [] := by simp [reapIfStale, hl]
    rw [hj]
    trivial
  | some l =>
    obtain rfl : l.id = id := (htidy id).lease l hl
    by_cases hgone : l.supervisor ∈ gone
    swap
    · have hj : (reapIfStale gone released l.id).journal s = [] := by
        simp [reapIfStale, hl, hgone]
      rw [hj]
      trivial
    by_cases hrel : l.id ∈ released
    · have hj : (reapIfStale gone released l.id).journal s = [.unlinkLease l.id] := by
        simp [reapIfStale, hl, hgone, hrel]
      rw [hj]
      exact ⟨fair_of_named rfl, trivial⟩
    · have hj : (reapIfStale gone released l.id).journal s =
          [.writeLease { l with state := .orphaned }] := by
        simp [reapIfStale, hl, hgone, hrel]
      rw [hj]
      refine ⟨⟨fun i q hi hq => ?_, fun i hi => ?_⟩, trivial⟩
      · obtain rfl : l.id = i := Option.some.inj hi
        obtain rfl : l.supervisor = q := Option.some.inj hq
        exact h l.id _ (TicketFiles.mem_names.2 (.inr (.inl ⟨l, hl, rfl⟩)))
      · simp [FileOp.begins] at hi

/-- **A parked ticket that comes back** names whom it named. -/
theorem fair_recoverOne (h : NamesIn H s) (htidy : AllTidy s) (now : ℕ) (name : QueueName) :
    BeforeEach (Fair H) ((recoverOne gone now name).journal s) s := by
  cases hrec : s.parked.read name with
  | none =>
    have hj : (recoverOne gone now name).journal s = [] := by simp [recoverOne, hrec]
    rw [hj]
    trivial
  | some record =>
    have hmem : (name, record) ∈ (filesFor s name.id).parked := mem_filesOf_of_read hrec
    have hid : record.id = name.id :=
      ((htidy name.id).named _ (List.mem_append_right _ hmem)).1
    have hparked : (filesFor s record.id).parked ≠ [] := by
      rw [hid]
      exact List.ne_nil_of_mem hmem
    by_cases hgone : record.supervisor ∈ gone
    swap
    · have hj : (recoverOne gone now name).journal s = [] := by simp [recoverOne, hrec, hgone]
      rw [hj]
      trivial
    cases ha : s.attempts.read record.id with
    | some a =>
      by_cases hd : a.dispatched = true
      · have hj : (recoverOne gone now name).journal s = (discardRebinding record.id).journal s := by
          simp [recoverOne, hrec, hgone, ha, hd]
        rw [hj]
        exact fair_discardRebinding
      · have hj : (recoverOne gone now name).journal s = (restoreLocked record now).journal s := by
          simp [recoverOne, hrec, hgone, ha, hd]
        rw [hj]
        refine fair_restoreLocked now h htidy hparked ?_
        by_contra hres
        exact hd ((htidy record.id).dropped hparked hres a ha)
    | none =>
      by_cases hr : (s.results.read record.id).isSome = true
      · have hj : (recoverOne gone now name).journal s = (discardRebinding record.id).journal s := by
          simp [recoverOne, hrec, hgone, ha, hr]
        rw [hj]
        exact fair_discardRebinding
      · have hj : (recoverOne gone now name).journal s = (restoreLocked record now).journal s := by
          simp [recoverOne, hrec, hgone, ha, hr]
        rw [hj]
        exact fair_restoreLocked now h htidy hparked (by simpa [filesFor] using hr)

theorem fair_reapOrphanedQueue (keep : Option TicketId) :
    BeforeEach (Fair H) ((reapOrphanedQueue keep gone).journal s) s := by
  have hloop := forM_journal (P := Fair H) (I := fun _ => True)
    (f := reapOrphanedOne keep gone) (s := s) (listQueue s) (fun q _ t _ => ?_) trivial
  · exact hloop.1
  · refine ⟨?_, trivial⟩
    rcases journal_reapOrphanedOne keep gone q t with hj | ⟨-, r, row, -, hj⟩
    · rw [hj]
      trivial
    · rw [hj]
      refine ⟨fair_of_named rfl, beforeEach_append.2 ⟨fair_dequeueSync, ?_⟩⟩
      exact ⟨fair_of_named rfl, fair_of_named rfl, trivial⟩

/-- **The reaping names nobody new and begins nothing that is finished.** -/
theorem fair_reapStale (h : NamesIn H s) (htidy : AllTidy s)
    (halive : ∀ id, ¬ X id → HeldAlive gone (filesFor s id)) (keep : Option TicketId)
    (released : List TicketId) (now : ℕ) :
    BeforeEach (Fair H) ((reapStale keep gone released now).journal s) s := by
  have h₀ : ReapInv X gone s s := ⟨htidy, halive, fun _ _ => rfl⟩
  have h₁ := forM_journal (P := Fair H) (I := fun t => ReapInv X gone s t ∧ NamesIn H t)
    (f := reapIfStale gone released) (s := s) (s.leases.entries.map Prod.fst)
    (fun id _ t ht => by
      have hone := @fair_reapIfStale H t gone ht.2 ht.1.tidy released id
      exact ⟨hone, ht.1.section (K := fun _ => False) (safe_reapIfStale ht.1 released id),
        ht.2.applyAll hone⟩) ⟨h₀, h⟩
  have h₂ := forM_journal (P := Fair H) (I := fun t => ReapInv X gone s t ∧ NamesIn H t)
    (f := recoverOne gone now) (s := (reapAll gone released).after s)
    (((reapAll gone released).after s).parked.entries.map Prod.fst)
    (fun n _ t ht => by
      have hone := @fair_recoverOne H t gone ht.2 ht.1.tidy now n
      exact ⟨hone, ht.1.section (K := fun _ => False) (safe_recoverOne ht.1 now n),
        ht.2.applyAll hone⟩) h₁.2
  exact beforeEach_append.2 ⟨h₁.1, beforeEach_append.2 ⟨h₂.1, fair_reapOrphanedQueue keep⟩⟩

/-! ### What a process does to its own ticket -/

variable {p : Proc} {g : Option ℕ}

theorem FileOp.named_eq_none (h : op.about = none) : op.named = none := by
  cases op <;> first | rfl | simp [FileOp.about] at h

/-- An attempt record of who may hold the ticket, which has no result. -/
theorem fair_writeAttempt {a : Attempt} (ha : H id a.supervisor)
    (hr : (filesFor s id).result = none) : Fair H (.writeAttempt id a) s where
  named i q hi hq := by
    obtain rfl : id = i := Option.some.inj hi
    obtain rfl : a.supervisor = q := Option.some.inj hq
    exact ha
  begins i hi := by
    obtain rfl : id = i := Option.some.inj hi
    exact hr

/-- **A new record names the process that takes the ticket.** -/
theorem fair_createAttempt (now : ℕ) (hp : existingTicket s id none = none → H id p) :
    BeforeEach (Fair H) ((createAttempt id p now).journal s) s := by
  rcases createAttempt_cases id p now s with ⟨-, he, hj⟩ | ⟨-, hj, -⟩ <;> rw [hj]
  · exact ⟨fair_writeAttempt (hp he) (existingTicket_eq_none he).2.2.2.1, trivial⟩
  · trivial

/-- A new queue file does. -/
theorem fair_enqueue (now : ℕ) (losers : List (TicketId × TicketId))
    (hp : existingTicket s id g = none → H id p) :
    BeforeEach (Fair H) ((enqueue id p now g losers).journal s) s := by
  rcases enqueue_cases id p now g losers s with ⟨-, he, marks, hmarks, hj⟩ | ⟨-, hj, -⟩ <;> rw [hj]
  · refine ⟨fair_of_named rfl, ⟨fun i q hi hq => ?_, fun i hi => ?_⟩,
      fair_of_forall_named fun op hop => FileOp.named_eq_none (hmarks op hop).1⟩
    · obtain rfl : id = i := Option.some.inj hi
      obtain rfl : p = q := Option.some.inj hq
      exact hp he
    · obtain rfl : id = i := Option.some.inj hi
      exact (existingTicket_eq_none he).2.2.2.1
  · trivial

/-- A patch of the own record. -/
theorem fair_updateAttempt {patch : Attempt → Attempt} (n : ℕ) (h : NamesIn H s)
    (hpatch : ∀ a, (patch a).supervisor = a.supervisor) (hr : (filesFor s id).result = none) :
    BeforeEach (Fair H) ((updateAttempt id n patch).journal s) s := by
  rcases journal_updateAttempt_cases id n patch s with hj | ⟨a, ha, -, hj⟩ <;> rw [hj]
  · trivial
  · exact ⟨fair_patched h ha (hpatch a) hr, trivial⟩

/-- The fallback keeps the supervisor. -/
theorem fair_fallbackToLocal (reason : String) (h : NamesIn H s)
    (hr : (filesFor s id).result = none) :
    BeforeEach (Fair H) ((fallbackToLocal id reason).journal s) s := by
  rcases fallbackToLocal_cases id reason s with ⟨a, ha, -, hj⟩ | ⟨-, hj⟩ <;> rw [hj]
  · have hpatched : Fair H (.writeAttempt id (a.fallBack reason)) s :=
      @fair_patched H s id a (·.fallBack reason) h ha rfl hr
    exact ⟨hpatched, trivial⟩
  · trivial

/-- **A withdrawal** parks the file, and patches the record. -/
theorem fair_withdrawQueued (fault : Option WithdrawFault) (h : NamesIn H s)
    (hr : (filesFor s id).result = none) :
    BeforeEach (Fair H) ((withdrawQueued id p fault).journal s) s := by
  rcases withdrawQueued_cases id p fault s with ⟨n, r, -, -, -, hj⟩ | ⟨-, hj | ⟨n, r, -, hj⟩⟩ <;>
    rw [hj]
  · have hpark : Fair H (.park n) s := fair_of_named rfl
    exact ⟨hpark, fair_patchAttemptLocked (h.apply hpark) (fun _ => rfl) hr⟩
  · trivial
  · exact ⟨fair_of_named rfl, fair_of_named rfl, trivial⟩

/-- Leaving the queue touches no result. -/
theorem result_dequeueSync (id i : TicketId) (s : Broker) :
    (filesFor (applyAll ((dequeueSync id).journal s) s) i).result = (filesFor s i).result := by
  rw [journal_dequeueSync]
  cases (filesFor s id).queued.head? <;> rfl

/-- **A poll that starts the ticket** leases it to the process that polls. -/
theorem fair_tryStart (admitted : Bool) (released : List TicketId) (now : ℕ)
    (hreap : BeforeEach (Fair H) ((reapStale (some id) gone released now).journal s) s)
    (hp : H id p)
    (hr : (filesFor (applyAll ((reapStale (some id) gone released now).journal s) s) id).result =
      none) :
    BeforeEach (Fair H) ((tryStart id p admitted gone released now).journal s) s := by
  rcases tryStart_cases id p admitted gone released now s with ⟨-, -, hj⟩ | ⟨-, hj⟩ <;> rw [hj]
  · refine beforeEach_append.2 ⟨hreap, beforeEach_append.2 ⟨fair_dequeueSync, ?_, trivial⟩⟩
    refine ⟨fun i q hi hq => ?_, fun i hi => ?_⟩
    · obtain rfl : id = i := Option.some.inj hi
      obtain rfl : p = q := Option.some.inj hq
      exact hp
    · obtain rfl : id = i := by simpa [FileOp.begins] using hi
      rw [result_dequeueSync]
      exact hr
  · exact hreap

/-- **A publish names nobody and begins nothing.** -/
theorem fair_publishTerminal {n : ℕ} {expect : Broker → Attempt → Bool}
    {wr : Bool → Section Unit} (hw : RowWriter id wr) :
    BeforeEach (Fair H) ((publishTerminal id n expect wr).journal s) s :=
  fair_of_forall_named (named_of_rowWriter hw)

end Fair

end LaneBroker
