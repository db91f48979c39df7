/-
# One result and one row for each ticket

What the locked sections do to the results and to the history.  Before every file operation
`PublishesOnce` holds: a result is written only for a ticket that has none, and a row only for a
ticket that has a result and no row yet.  That keeps `Counted`: at most one result and one row
were ever written for a ticket.  After a section no queued ticket has a result (`Unpublished`);
inside `reapOrphanedQueue` one does, between its result and its dequeue.
-/

import LaneBroker.Broker.RecoverySteps

namespace LaneBroker

open LaneBroker.Basis

/-- How many results were ever written for a ticket. -/
def resultCount (s : Broker) (id : TicketId) : ℕ :=
  (s.resultLog.filter fun e => e.1 = id).length

/-- How many history rows a ticket has. -/
def rowCount (s : Broker) (id : TicketId) : ℕ := (s.history.filter fun row => row.id = id).length

/-- **At most one result and one row of each ticket**, and none of a ticket with no result. -/
structure Counted (s : Broker) : Prop where
  fresh : ∀ id, s.results.read id = none → resultCount s id = 0 ∧ rowCount s id = 0
  results : ∀ id, resultCount s id ≤ 1
  rows : ∀ id, rowCount s id ≤ 1

/-- No queued ticket has a result. -/
def Unpublished (s : Broker) : Prop :=
  ∀ id, (filesFor s id).queued ≠ [] → s.results.read id = none

/-- **What holds before an operation that may publish.** -/
structure PublishesOnce (op : FileOp) (s : Broker) : Prop where
  result : ∀ id r, op = .writeResult id r → s.results.read id = none
  row : ∀ row, op = .appendHistory row →
    s.results.read row.id ≠ none ∧ rowCount s row.id = 0

section One

variable {s : Broker} {op : FileOp} {ops : List FileOp} {id : TicketId}

theorem PublishesOnce.of_quiet (h : op.publishes = false) : PublishesOnce op s where
  result i r hop := by simp [hop] at h
  row row hop := by simp [hop] at h

/-- Results are never removed. -/
theorem results_apply (h : s.results.read id ≠ none) : (op.apply s).results.read id ≠ none := by
  cases op <;> first | exact h | skip
  case writeResult i r =>
    change (s.results.write i r).read id ≠ none
    rw [Dir.read_write]
    split_ifs <;> simp [h]

theorem results_applyAll (h : s.results.read id ≠ none) :
    (applyAll ops s).results.read id ≠ none := by
  induction ops generalizing s with
  | nil => exact h
  | cons op ops ih => exact ih (results_apply h)

/-- Only the write of a result changes results. -/
theorem results_apply_of_ne (h : ∀ r, op ≠ .writeResult id r) :
    (op.apply s).results.read id = s.results.read id := by
  cases op <;> first | rfl | skip
  case writeResult i r =>
    exact Dir.read_write_of_ne _ _ fun hi => h r (by rw [hi])

theorem rowCount_apply_of_ne (h : ∀ row : HistoryRow, row.id = id → op ≠ .appendHistory row) :
    rowCount (op.apply s) id = rowCount s id := by
  cases op <;> first | rfl | skip
  case appendHistory row =>
    have hne : ¬ row.id = id := fun hid => h row hid rfl
    simp [rowCount, FileOp.apply, List.filter_append, hne]

theorem rowCount_applyAll_of_ne
    (h : ∀ row : HistoryRow, row.id = id → FileOp.appendHistory row ∉ ops) :
    rowCount (applyAll ops s) id = rowCount s id := by
  induction ops generalizing s with
  | nil => rfl
  | cons op ops ih =>
    rw [applyAll_cons, ih fun row hid hr => h row hid (List.mem_cons_of_mem _ hr)]
    exact rowCount_apply_of_ne fun row hid hr => h row hid (hr ▸ List.mem_cons_self ..)

/-- **One operation keeps the counts.** -/
theorem Counted.apply (h : Counted s) (hop : PublishesOnce op s) : Counted (op.apply s) := by
  cases op <;> first | exact ⟨h.fresh, h.results, h.rows⟩ | skip
  case writeResult i r =>
    have hnone := hop.result i r rfl
    have hcount : ∀ id, resultCount ((FileOp.writeResult i r).apply s) id =
        resultCount s id + if i = id then 1 else 0 := by
      intro id
      by_cases hid : i = id <;>
        simp [resultCount, FileOp.apply, List.filter_append, hid]
    refine ⟨fun id hid => ?_, fun id => ?_, h.rows⟩
    · have hne : i ≠ id := by
        rintro rfl
        simp [FileOp.apply] at hid
      rw [hcount, if_neg hne]
      refine h.fresh id ?_
      rwa [results_apply_of_ne fun r' hr => hne (FileOp.writeResult.inj hr).1] at hid
    · rw [hcount]
      split_ifs with hid
      · subst hid
        rw [(h.fresh i hnone).1]
      · exact h.results id
  case appendHistory row =>
    obtain ⟨hsome, hzero⟩ := hop.row row rfl
    have hcount : ∀ id, rowCount ((FileOp.appendHistory row).apply s) id =
        rowCount s id + if row.id = id then 1 else 0 := by
      intro id
      by_cases hid : row.id = id <;>
        simp [rowCount, FileOp.apply, List.filter_append, hid]
    refine ⟨fun id hid => ?_, h.results, fun id => ?_⟩
    · have hne : row.id ≠ id := by
        rintro rfl
        exact hsome hid
      rw [hcount, if_neg hne]
      exact h.fresh id hid
    · rw [hcount]
      split_ifs with hid
      · subst hid
        rw [hzero]
      · exact h.rows id

theorem Counted.applyAll (h : Counted s) (hops : BeforeEach PublishesOnce ops s) :
    Counted (applyAll ops s) :=
  hops.keep (fun _ _ hop ht => ht.apply hop) h

/-- A result is never written over. -/
theorem results_kept {r : TicketResult} (hops : BeforeEach PublishesOnce ops s)
    (h : s.results.read id = some r) : (Basis.applyAll ops s).results.read id = some r := by
  refine hops.keep (I := fun t => t.results.read id = some r) (fun op t hop ht => ?_) h
  change (op.apply t).results.read id = some r
  rw [results_apply_of_ne]
  · exact ht
  · rintro r' rfl
    rw [hop.result id r' rfl] at ht
    exact absurd ht (by simp)

/-- A journal that writes a result of a ticket starts where there is none. -/
theorem result_none_of_mem (hops : BeforeEach PublishesOnce ops s) (r : TicketResult)
    (hr : FileOp.writeResult id r ∈ ops) : s.results.read id = none := by
  induction ops generalizing s with
  | nil => simp at hr
  | cons op ops ih =>
    rcases List.mem_cons.1 hr with rfl | hr
    · exact hops.1.result id r rfl
    · by_contra hne
      exact results_apply hne (ih hops.2 hr)

/-- One operation that writes no result of the ticket, and puts it back only when it has none,
keeps a queued ticket without one. -/
theorem unpublished_apply (h : (filesFor s id).queued ≠ [] → s.results.read id = none)
    (hop : ∀ r, op ≠ .writeResult id r)
    (hre : ∀ n, op.requeues = some n → n.id = id → s.results.read id = none)
    (hne : (filesFor (op.apply s) id).queued ≠ []) : (op.apply s).results.read id = none := by
  rw [results_apply_of_ne hop]
  by_cases habout : op.about = some id
  · by_contra hres
    have hempty : (filesFor s id).queued = [] := by
      by_contra hqd
      exact hres (h hqd)
    cases op <;> simp only [FileOp.about, Option.some.injEq, reduceCtorEq] at habout <;>
      subst habout
    case writeQueue n r => exact hres (hre n rfl rfl)
    case unpark n => exact hres (hre n rfl rfl)
    case unlinkQueue n => exact hne (by rw [filesFor_unlinkQueue, hempty]; rfl)
    case park n =>
      refine hne ?_
      change filesOf (moveFile n s.queue s.parked).1 n.id = []
      change filesOf s.queue n.id = [] at hempty
      unfold moveFile
      split
      · rw [filesOf_unlink_self, hempty]
        rfl
      · exact hempty
    case writeResult i r => exact absurd rfl (hop r)
    all_goals exact hne hempty
  · rw [filesFor_apply_of_ne habout] at hne
    exact h hne

theorem unpublished_applyAll (h : (filesFor s id).queued ≠ [] → s.results.read id = none)
    (hops : ∀ op ∈ ops, (∀ r, op ≠ .writeResult id r) ∧ op.requeues = none)
    (hne : (filesFor (applyAll ops s) id).queued ≠ []) :
    (applyAll ops s).results.read id = none := by
  induction ops generalizing s with
  | nil => exact h hne
  | cons op ops ih =>
    obtain ⟨hop, hre⟩ := hops op (List.mem_cons_self ..)
    exact ih (unpublished_apply h hop fun n hn => by rw [hre] at hn; exact absurd hn (by simp))
      (fun o ho => hops o (List.mem_cons_of_mem _ ho)) hne

end One

/-! ### One section -/

/-- **A section that publishes at most once for each ticket**: so before each of its operations,
no queued ticket has a result when it is done, and each row goes with a result of its own. -/
structure OnceSection (ops : List FileOp) (s : Broker) : Prop where
  each : BeforeEach PublishesOnce ops s
  queued : Unpublished (applyAll ops s)
  rows : ∀ row, FileOp.appendHistory row ∈ ops → ∃ r, FileOp.writeResult row.id r ∈ ops

section OneSection

variable {s : Broker} {op : FileOp} {ops ops' : List FileOp} {id : TicketId}

/-- A section that publishes nothing, and puts back no ticket that has a result. -/
theorem OnceSection.quiet (h : Unpublished s) (hg : BeforeEach Guarded ops s)
    (hq : ∀ op ∈ ops, op.publishes = false) : OnceSection ops s where
  each := (beforeEach_const.2 hq).mono fun _ _ hop => .of_quiet hop
  queued := (hg.and (beforeEach_const.2 hq)).keep (fun op t hop ht id =>
    unpublished_apply (ht id) (fun r hr => by simp [hr] at hop) fun n hn hid =>
      hid ▸ (hop.1.requeue n hn).1) h
  rows row hrow := by simpa using hq _ hrow

theorem OnceSection.append (h : OnceSection ops s) (h' : OnceSection ops' (applyAll ops s)) :
    OnceSection (ops ++ ops') s where
  each := beforeEach_append.2 ⟨h.each, h'.each⟩
  queued := by rw [applyAll_append]; exact h'.queued
  rows row hrow := by
    rcases List.mem_append.1 hrow with hrow | hrow
    · obtain ⟨r, hr⟩ := h.rows row hrow
      exact ⟨r, List.mem_append_left _ hr⟩
    · obtain ⟨r, hr⟩ := h'.rows row hrow
      exact ⟨r, List.mem_append_right _ hr⟩

/-- Operations that publish nothing. -/
theorem beforeEach_quiet (hq : ∀ op ∈ ops, op.publishes = false) :
    BeforeEach PublishesOnce ops s :=
  (beforeEach_const.2 hq).mono fun _ _ hop => .of_quiet hop

theorem rowCount_quiet (hq : ∀ op ∈ ops, op.publishes = false) :
    rowCount (applyAll ops s) id = rowCount s id :=
  rowCount_applyAll_of_ne fun row _ hrow => by simpa using hq _ hrow

/-- **A publish**: the result, then its row if there is one, among operations that publish
nothing and put nothing back, the queue file of the ticket being gone at the end. -/
theorem OnceSection.publish {r : TicketResult} (row : Option HistoryRow)
    (before after : List FileOp) (hc : Counted s) (hun : Unpublished s)
    (hres : s.results.read id = none) (hrow : ∀ x ∈ row.toList, x.id = id)
    (hbefore : ∀ op ∈ before, op.publishes = false ∧ op.requeues = none)
    (hafter : ∀ op ∈ after, op.publishes = false ∧ op.requeues = none)
    (hq : (filesFor (applyAll (.writeResult id r ::
      (before ++ (row.toList.map FileOp.appendHistory ++ after))) s) id).queued = []) :
    OnceSection (.writeResult id r :: (before ++ (row.toList.map FileOp.appendHistory ++ after)))
      s where
  each := by
    refine ⟨⟨fun i r' hop => ?_, by simp⟩, beforeEach_append.2
      ⟨beforeEach_quiet fun op hop => (hbefore op hop).1, beforeEach_append.2
        ⟨?_, beforeEach_quiet fun op hop => (hafter op hop).1⟩⟩⟩
    · obtain ⟨rfl, rfl⟩ := FileOp.writeResult.inj hop
      exact hres
    · cases row with
      | none => trivial
      | some x =>
        obtain rfl : x.id = id := hrow x (by simp)
        refine ⟨⟨by simp, fun x' hx' => ?_⟩, trivial⟩
        obtain rfl := FileOp.appendHistory.inj hx'
        refine ⟨results_applyAll ?_, ?_⟩
        · change (s.results.write x.id r).read x.id ≠ none
          simp
        · rw [rowCount_quiet fun op hop => (hbefore op hop).1]
          exact (hc.fresh x.id hres).2
  queued i hne := by
    by_cases hi : i = id
    · subst hi
      exact absurd hq hne
    · refine unpublished_applyAll (hun i) (fun op hop => ?_) hne
      simp only [List.mem_cons, List.mem_append, List.mem_map] at hop
      rcases hop with rfl | hop | ⟨x, hx, rfl⟩ | hop
      · exact ⟨fun r' hr => hi (FileOp.writeResult.inj hr).1.symm, rfl⟩
      · exact ⟨fun r' hr => by have := (hbefore op hop).1; simp [hr] at this, (hbefore op hop).2⟩
      · exact ⟨by simp, rfl⟩
      · exact ⟨fun r' hr => by have := (hafter op hop).1; simp [hr] at this, (hafter op hop).2⟩
  rows x hx := by
    refine ⟨r, ?_⟩
    simp only [List.mem_cons, List.mem_append, List.mem_map, reduceCtorEq, false_or,
      FileOp.appendHistory.injEq, exists_eq_right] at hx
    rcases hx with hx | hx | hx
    · simpa using (hbefore _ hx).1
    · rw [hrow x hx]
      exact List.mem_cons_self ..
    · simpa using (hafter _ hx).1

theorem queued_of_about_none (h : ∀ op ∈ ops, op.about = none) (i : TicketId) :
    (filesFor (applyAll ops s) i).queued = (filesFor s i).queued := by
  rw [filesFor_applyAll_of_ne fun op hop => by rw [h op hop]; simp]

/-- A result, its row, and the removal of the attempt, for a ticket that has no result and is not
queued. -/
theorem once_row {r : TicketResult} (row : Option HistoryRow) (hc : Counted s)
    (hun : Unpublished s) (hres : s.results.read id = none) (hq : (filesFor s id).queued = [])
    (hrow : ∀ x ∈ row.toList, x.id = id) :
    OnceSection (.writeResult id r ::
      (row.toList.map FileOp.appendHistory ++ [.unlinkAttempt id])) s := by
  refine .publish row [] _ hc hun hres hrow (by simp) (by simp) ?_
  rw [List.nil_append, applyAll_cons, applyAll_append]
  change (filesFor (applyAll (row.toList.map FileOp.appendHistory) _) id).queued = []
  rw [queued_of_about_none fun op hop => by
    obtain ⟨x, -, rfl⟩ := List.mem_map.1 hop
    rfl]
  exact hq

/-- A publish through the attempt record, of a ticket that has no result and is not queued. -/
theorem once_publishTerminal {w : Bool → Section Unit} {g : ℕ}
    {expect : Broker → Attempt → Bool} (hw : RowWriter id w) (hc : Counted s)
    (hun : Unpublished s) (hfree : (publishTerminal id g expect w).journal s ≠ [] →
      s.results.read id = none ∧ (filesFor s id).queued = []) :
    OnceSection ((publishTerminal id g expect w).journal s) s := by
  rcases journal_publishTerminal_cases id g expect w s with hj | ⟨a, c, -, -, -, -, hj⟩
  · rw [hj]
    exact .quiet hun trivial (by simp)
  · obtain ⟨r, row, hrow, hwj⟩ := hw c s
    obtain ⟨hres, hq⟩ := hfree (by simp [hj, hwj])
    rw [hj, hwj, List.cons_append]
    exact once_row row hc hun hres hq hrow

/-- A local run's publish, which releases the lease and clears the markers in the same
section. -/
theorem once_finalize {r : TicketResult} {g : ℕ} {expect : Broker → Attempt → Bool}
    (hc : Counted s) (hun : Unpublished s) (hres : s.results.read id = none)
    (hq : (filesFor s id).queued = []) (hp : (filesFor s id).parked = []) :
    OnceSection ((publishTerminal id g expect (finalizeWriter id r)).journal s) s := by
  rcases journal_publishTerminal_cases id g expect (finalizeWriter id r) s with
    hj | ⟨a, c, -, -, -, -, hj⟩
  · rw [hj]
    exact .quiet hun trivial (by simp)
  · have hwj : ∃ row ops, row.id = id ∧
        (∀ op ∈ ops, ReleaseOp id op ∧ op.publishes = false) ∧
        (finalizeWriter id r c).journal s ++ [.unlinkAttempt id] =
          .writeResult id r :: ([] ++ ((some row).toList.map FileOp.appendHistory ++ ops)) := by
      refine ⟨⟨id, r.exit, r.cancelled, none⟩, .unlinkLease id ::
        ((clearTicketMarkers id).journal (applyAll [FileOp.writeResult id r,
          .appendHistory ⟨id, r.exit, r.cancelled, none⟩, .unlinkLease id] s) ++
            [.unlinkAttempt id]), rfl, fun op hop => ?_, by rfl⟩
      rw [journal_clearTicketMarkers, journal_discardRebinding] at hop
      simp only [List.mem_append, List.mem_cons, List.not_mem_nil, or_false, Option.mem_toList,
        Option.map_eq_some_iff] at hop
      rcases hop with rfl | (⟨e, he, rfl⟩ | rfl | rfl) | rfl
      · exact ⟨rfl, rfl⟩
      · exact ⟨id_of_mem_files he, rfl⟩
      · exact ⟨trivial, rfl⟩
      · exact ⟨trivial, rfl⟩
      · exact ⟨rfl, rfl⟩
    obtain ⟨row, ops, hrow, hops, hwj⟩ := hwj
    rw [hj, hwj]
    refine .publish _ _ _ hc hun hres (by simpa using hrow) (by simp) (fun op hop => ?_) ?_
    · refine ⟨(hops op hop).2, ?_⟩
      have := (hops op hop).1
      cases op <;> first | rfl | exact this.elim
    · refine (ReleaseOp.files (fun op hop => ?_) hq hp).1
      simp only [List.nil_append, Option.toList_some, List.map_cons, List.map_nil,
        List.cons_append, List.mem_cons] at hop
      rcases hop with rfl | rfl | hop
      · rfl
      · trivial
      · exact (hops op hop).1

/-! ### The reaping -/

theorem publishes_dequeueSync : ∀ op ∈ (dequeueSync id).journal s,
    op.publishes = false ∧ op.requeues = none := by
  intro op hop
  rw [journal_dequeueSync] at hop
  simp only [Option.mem_toList, Option.map_eq_some_iff] at hop
  obtain ⟨e, -, rfl⟩ := hop
  exact ⟨rfl, rfl⟩

theorem publishes_discardRebinding : ∀ op ∈ (discardRebinding id).journal s,
    op.publishes = false := by
  intro op hop
  rw [journal_discardRebinding] at hop
  simp only [Option.mem_toList, Option.map_eq_some_iff] at hop
  obtain ⟨e, -, rfl⟩ := hop
  rfl

theorem publishes_patchAttemptLocked {patch : Attempt → Attempt} :
    ∀ op ∈ (patchAttemptLocked id patch).journal s, op.publishes = false := by
  intro op hop
  rw [journal_patchAttemptLocked] at hop
  simp only [Option.mem_toList, Option.map_eq_some_iff] at hop
  obtain ⟨a, -, rfl⟩ := hop
  rfl

theorem publishes_restoreLocked {r : QueueRecord} {now : ℕ} :
    ∀ op ∈ (restoreLocked r now).journal s, op.publishes = false := by
  intro op hop
  cases hq : findQueueFile s r.id with
  | some e =>
    have hj : (restoreLocked r now).journal s =
        (patchAttemptLocked r.id fun a => { a with rebinding := none }).journal s := by
      simp [restoreLocked, hq]
    rw [hj] at hop
    exact publishes_patchAttemptLocked op hop
  | none =>
    cases hp : rebindingFile s r.id with
    | some e =>
      simp only [restoreLocked, Locked.journal_bind, Locked.journal_read, Locked.value_read,
        Locked.after_read, List.nil_append, hq, hp, Locked.journal_effect, List.cons_append,
        List.mem_cons] at hop
      rcases hop with rfl | rfl | hop
      · rfl
      · rfl
      · exact publishes_patchAttemptLocked op hop
    | none =>
      simp only [restoreLocked, Locked.journal_bind, Locked.journal_read, Locked.value_read,
        Locked.after_read, List.nil_append, hq, hp, Locked.journal_effect, List.cons_append,
        List.mem_cons] at hop
      rcases hop with rfl | hop
      · rfl
      · exact publishes_patchAttemptLocked op hop

/-- What every operation of a loop's pass satisfies, every operation of the loop does. -/
theorem mem_forM {α : Type} {f : α → Section Unit} {Q : FileOp → Prop}
    (h : ∀ x t, ∀ op ∈ (f x).journal t, Q op) (xs : List α) :
    ∀ op ∈ (xs.forM f).journal s, Q op :=
  beforeEach_const.1 (forM_journal (I := fun _ => True) xs
    (fun x _ t _ => ⟨beforeEach_const.2 (h x t), trivial⟩) (s := s) trivial).1

theorem publishes_reapAll {gone : List Proc} {released : List TicketId} :
    ∀ op ∈ (reapAll gone released).journal s, op.publishes = false := by
  refine mem_forM (fun i t op hop => ?_) (s.leases.entries.map Prod.fst)
  simp only [reapIfStale, Locked.journal_bind, Locked.journal_read, Locked.value_read,
    Locked.after_read, List.nil_append] at hop
  split at hop
  · simp at hop
  · split_ifs at hop <;> simp only [Locked.journal_pure, Locked.journal_effect,
      List.not_mem_nil, List.mem_singleton] at hop <;> subst hop <;> rfl

theorem publishes_recoverRebinding {gone : List Proc} {now : ℕ} :
    ∀ op ∈ (recoverRebinding gone now).journal s, op.publishes = false := by
  refine mem_forM (fun n t op hop => ?_) (s.parked.entries.map Prod.fst)
  simp only [recoverOne, Locked.journal_bind, Locked.journal_read, Locked.value_read,
    Locked.after_read, List.nil_append] at hop
  split at hop
  · simp at hop
  · split at hop
    · simp at hop
    · rename_i record _ _
      cases ha : t.attempts.read record.id with
      | some a =>
        by_cases hd : a.dispatched = true
        · exact publishes_discardRebinding op (by simpa [ha, hd] using hop)
        · exact publishes_restoreLocked op (by simpa [ha, hd] using hop)
      | none =>
        by_cases hr : (t.results.read record.id).isSome = true
        · exact publishes_discardRebinding op (by simpa [ha, hr] using hop)
        · exact publishes_restoreLocked op (by simpa [ha, hr] using hop)

/-- One ticket of the queue reap, with its queue file and no result. -/
theorem once_reapOrphanedOne {keep : Option TicketId} {gone : List Proc} {t : QueueRecord}
    (htidy : ∀ r, AllTidy ((FileOp.writeResult t.id r).apply s)) (hc : Counted s)
    (hun : Unpublished s) (hres : s.results.read t.id = none) :
    OnceSection ((reapOrphanedOne keep gone t).journal s) s := by
  rcases journal_reapOrphanedOne keep gone t s with hj | ⟨-, r, row, hrow, hj⟩
  · rw [hj]
    exact .quiet hun trivial (by simp)
  · rw [hj]
    refine .publish (some row) _ [.unlinkSuperseded t.id] hc hun hres
      (by simpa using hrow) publishes_dequeueSync (by simp) ?_
    have hlast : ∀ op ∈ (some row).toList.map FileOp.appendHistory ++
        [FileOp.unlinkSuperseded t.id], op.about = none := by simp [FileOp.about]
    rw [applyAll_cons, applyAll_append, queued_of_about_none hlast]
    exact congrArg TicketFiles.queued (filesFor_dequeued t.id (htidy r))

/-- The ids of the queued tickets are different. -/
theorem nodup_listQueue (h : AllTidy s) : ((listQueue s).map QueueRecord.id).Nodup := by
  have hids : ∀ e ∈ s.queue.entries, e.2.id = e.1.id := fun e he =>
    ((h e.1.id).named e (List.mem_append_left _ (mem_filesOf.2 ⟨he, rfl⟩))).1
  have hnodup : (s.queue.entries.map fun e => e.1.id).Nodup := by
    refine List.nodup_iff_count_le_one.2 fun id => ?_
    have hp := (h id).places
    have hcount : (s.queue.entries.map fun e => e.1.id).count id =
        (filesFor s id).queued.length := by
      rw [List.count_eq_countP, List.countP_map, List.countP_eq_length_filter]
      exact congrArg List.length (List.filter_congr fun e _ => rfl)
    rw [hcount]
    unfold TicketFiles.places at hp
    omega
  rw [listQueue, List.map_map, ((List.perm_insertionSort _ _).map _).nodup_iff]
  have hmap : s.queue.entries.map (QueueRecord.id ∘ Prod.snd) =
      s.queue.entries.map fun e => e.1.id := List.map_congr_left hids
  rw [hmap]
  exact hnodup

/-- The loop rule for publishing sections, with an invariant of the items still to come. -/
theorem OnceSection.forM {α : Type} {f : α → Section Unit} {I : List α → Broker → Prop}
    (xs : List α) (hun : ∀ rest t, I rest t → Unpublished t)
    (hpass : ∀ x rest t, I (x :: rest) t →
      OnceSection ((f x).journal t) t ∧ I rest ((f x).after t))
    (hs : I xs s) : OnceSection ((xs.forM f).journal s) s := by
  induction xs generalizing s with
  | nil => exact .quiet (hun _ _ hs) trivial (fun op hop => absurd hop (List.not_mem_nil))
  | cons x xs ih =>
    obtain ⟨hone, hrest⟩ := hpass x xs s hs
    exact hone.append (ih hrest)

/-- What is known before each ticket of the queue reap. -/
structure QueueReapInv (rest : List QueueRecord) (s : Broker) : Prop where
  tidy : AllTidy s
  counted : Counted s
  unpublished : Unpublished s
  different : (rest.map QueueRecord.id).Nodup
  queued : ∀ q ∈ rest, s.results.read q.id = none ∧ (filesFor s q.id).parked = []

/-- **The queue reap publishes once for each ticket.** -/
theorem once_reapOrphanedQueue (ht : AllTidy s) (hc : Counted s) (hun : Unpublished s)
    (keep : Option TicketId) (gone : List Proc) :
    OnceSection ((reapOrphanedQueue keep gone).journal s) s := by
  refine OnceSection.forM (I := QueueReapInv) (f := reapOrphanedOne keep gone)
    (listQueue s) (fun _ _ h => h.unpublished) (fun q rest t h => ?_)
    ⟨ht, hc, hun, nodup_listQueue ht,
      fun q hq => ?_⟩
  · obtain ⟨hres, hp⟩ := h.queued q (List.mem_cons_self ..)
    have hsafe : SafeSection (· = q.id) (fun _ => False)
        ((reapOrphanedOne keep gone q).journal t) t :=
      safe_reapOrphanedOne h.tidy (fun _ => rfl) hp
    have hone : OnceSection ((reapOrphanedOne keep gone q).journal t) t :=
      once_reapOrphanedOne (fun r => h.tidy.writeResult fun hne => absurd hp hne) h.counted
        h.unpublished hres
    have hnodup := List.nodup_cons.1 h.different
    refine ⟨hone, ⟨hsafe.2, h.counted.applyAll hone.each,
      hone.queued, hnodup.2, fun q' hq' => ?_⟩⟩
    have hne : q'.id ≠ q.id := fun hid => hnodup.1 (hid ▸ List.mem_map_of_mem hq')
    have hframe := hsafe.frame hne
    obtain ⟨hres', hp'⟩ := h.queued q' (List.mem_cons_of_mem _ hq')
    change (filesFor (applyAll _ t) q'.id).result = none ∧
      (filesFor (applyAll _ t) q'.id).parked = []
    rw [hframe]
    exact ⟨hres', hp'⟩
  · obtain ⟨n, hn⟩ := mem_listQueue hq
    have hid : q.id = n.id := ((ht n.id).named _ (List.mem_append_left _ hn)).1
    have hne : (filesFor s q.id).queued ≠ [] := by
      rw [hid]
      exact List.ne_nil_of_mem hn
    rcases (ht q.id).queued_cases with hnil | ⟨_, _, hp, _⟩
    · exact absurd hnil hne
    · exact ⟨hun q.id hne, hp⟩

/-- **The reaping every admission decision starts with publishes once for each ticket.** -/
theorem once_reapStale {X : TicketId → Prop} {gone : List Proc} (ht : AllTidy s)
    (halive : ∀ id, ¬ X id → HeldAlive gone (filesFor s id)) (hc : Counted s)
    (hun : Unpublished s) (keep : Option TicketId) (released : List TicketId) (now : ℕ) :
    OnceSection ((reapStale keep gone released now).journal s) s := by
  have h₀ : ReapInv X gone s s := ⟨ht, halive, fun _ _ => rfl⟩
  have h₁ := safe_reapAll (K := fun _ => False) h₀ released
  have h₂ := safe_recoverRebinding (K := fun _ => False) (h₀.section h₁) now
  have once₁ : OnceSection ((reapAll gone released).journal s) s :=
    .quiet hun (h₁.1.mono fun _ _ ho => ho.toGuarded) publishes_reapAll
  have once₂ := OnceSection.quiet once₁.queued (h₂.1.mono fun _ _ ho => ho.toGuarded)
    publishes_recoverRebinding
  have hc₂ := (hc.applyAll once₁.each).applyAll once₂.each
  exact once₁.append (once₂.append (once_reapOrphanedQueue h₂.2 hc₂ once₂.queued keep gone))

end OneSection

end LaneBroker
