/-
# What a migration leaves behind

Between the writes of a migrator nobody puts a ticket into a queue, because that takes the lock: what
the migrator has checked stays true (`PhaseOk`), and what it moves aside holds nothing that waits.
So every ticket stays where the version that reads it looks for it (`Kept`), the fence comes behind
everything that it stands for (`Fenced`), and old and new code never use two queues (`Exclusive`).

A fairness file can become invalid behind the fence: a head below its elastic floor is denied without
a sample of the load, and the record of that denial has no budget (`not_forall_migrated`).  And a
marker that a dead migrator left is taken for a live one when its pid is in use again: then a run is
refused (`completes_iff`).  In runs in which every denial is measured the rest holds
(`migration_stands`).
-/

import LaneBroker.Scheduler.MigrationTickets

namespace LaneBroker
namespace Scheduler
namespace Migration

open LaneBroker.Basis

variable {τ : Type} {s s' : Root τ} {d : QueueDir τ} {t : τ} {m : Migrator}

/-! ### Fairness records -/

theorem valid_denialRecord {now : ℕ} {load : Option CpuLoad} (h : load.isSome = true) :
    (denialRecord now load).valid = true := by
  obtain ⟨l, rfl⟩ := Option.isSome_iff_exists.1 h
  rfl

theorem validFairness_record [DecidableEq τ] {f : Fairness τ} {r : ResourceRecord}
    (hf : validFairness f = true) (hr : r.valid = true) : validFairness (record t r f) = true := by
  rw [validFairness, List.all_eq_true] at hf ⊢
  intro e he
  rcases List.mem_append.1 he with he | he
  · exact hf e (List.mem_of_mem_filter he)
  · obtain rfl := List.mem_singleton.1 he
    exact hr

theorem validFairness_filter {f : Fairness τ} (p : τ × ResourceRecord → Bool)
    (hf : validFairness f = true) : validFairness (f.filter p) = true := by
  rw [validFairness, List.all_eq_true] at hf ⊢
  exact fun e he => hf e (List.mem_of_mem_filter he)

namespace Root

/-! ### What holds -/

/-- **Behind the fence**: a valid fairness file, and no legacy queue. -/
def Fenced (s : Root τ) : Prop :=
  s.schedFence = true → s.queue = .fence ∧ ∃ f, s.fairness = some f ∧ validFairness f = true

/-- **Old and new code never have two queues**: while old code has one, new code runs the legacy
scheduler in the same. -/
def Exclusive (s : Root τ) : Prop :=
  ∀ d, s.oldQueueDir = some d → s.resolveScheduler = false ∧ s.queueDir = some d

/-- The migration is done. -/
def Migrated (s : Root τ) : Prop :=
  s.schedFence = true ∧ s.resolveScheduler = true ∧ s.queue = .fence ∧ s.migrating = none ∧
    s.migrator = none

/-- Nothing waits, and no attempt owns a ticket. -/
def Empty (s : Root τ) : Prop := s.queued = [] ∧ s.attempts = []

/-- **What the migrator has made sure of** behind its writes. -/
def PhaseOk (s : Root τ) : Phase → Prop
  | .marked => s.schedFence = false
  | .checked => s.schedFence = false ∧ s.Empty
  | .recorded | .made false | .pending false =>
    s.schedFence = false ∧ s.Empty ∧ s.fairness = some []
  | .made true | .pending true =>
    s.schedFence = false ∧ s.Empty ∧ s.fairness = some [] ∧ ∃ d, s.queue = .directory d
  | .fenced => s.schedFence = false ∧ s.fairness = some [] ∧ s.queue = .fence
  | .committed | .leaving => True

/-- **What every step keeps.** -/
structure Inv (s : Root τ) : Prop where
  kept : s.Kept
  fenced : s.Fenced
  phase : ∀ m, s.migrator = some m → s.PhaseOk m.phase

/-! ### The migrator -/

/-- What the migrator knows stays true when nothing is queued or attempted, and what `queue` is
stays. -/
theorem PhaseOk.mono {p : Phase} (h : s.PhaseOk p) (hempty : s.Empty → s'.Empty)
    (hfence : s'.schedFence = s.schedFence) (hfairness : s'.fairness = s.fairness)
    (hdir : (∃ d, s.queue = .directory d) → ∃ d, s'.queue = .directory d)
    (hqueue : s.queue = .fence → s'.queue = .fence) : s'.PhaseOk p := by
  cases p with
  | marked => exact hfence.trans h
  | checked => exact ⟨hfence.trans h.1, hempty h.2⟩
  | recorded => exact ⟨hfence.trans h.1, hempty h.2.1, hfairness.trans h.2.2⟩
  | made legacy | pending legacy =>
    cases legacy with
    | false => exact ⟨hfence.trans h.1, hempty h.2.1, hfairness.trans h.2.2⟩
    | true => exact ⟨hfence.trans h.1, hempty h.2.1, hfairness.trans h.2.2.1, hdir h.2.2.2⟩
  | fenced => exact ⟨hfence.trans h.1, hfairness.trans h.2.1, hqueue h.2.2⟩
  | committed => trivial
  | leaving => trivial

/-- **A step that needs the lock**: there is no migrator. -/
theorem Inv.locked (h : s.Inv) (hlock : s.lockFree = true) (hmigrator : s'.migrator = s.migrator)
    (hkept : s'.Kept) (hqueue : s.queue = .fence → s'.queue = .fence)
    (hfence : s'.schedFence = s.schedFence) (hfairness : s'.fairness = s.fairness) : s'.Inv := by
  refine ⟨hkept, fun hf => ?_, fun m hm => ?_⟩
  · obtain ⟨hq, hvalid⟩ := h.fenced (hfence ▸ hf)
    exact ⟨hqueue hq, hfairness.symm ▸ hvalid⟩
  · rw [hmigrator, Option.isNone_iff_eq_none.1 hlock] at hm
    cases hm

/-- **A step without the lock**, which adds nothing to the queue. -/
theorem Inv.unlocked (h : s.Inv) (hmigrator : s'.migrator = s.migrator) (hkept : s'.Kept)
    (hempty : s.Empty → s'.Empty) (hdir : (∃ d, s.queue = .directory d) → ∃ d, s'.queue = .directory d)
    (hqueue : s.queue = .fence → s'.queue = .fence)
    (hfence : s'.schedFence = s.schedFence) (hfairness : s'.fairness = s.fairness) : s'.Inv := by
  refine ⟨hkept, fun hf => ?_, fun m hm => ?_⟩
  · obtain ⟨hq, hvalid⟩ := h.fenced (hfence ▸ hf)
    exact ⟨hqueue hq, hfairness.symm ▸ hvalid⟩
  · exact (h.phase m (hmigrator ▸ hm)).mono hempty hfence hfairness hdir hqueue

theorem empty_of_checkPreconditions {quiet : Bool} (h : s.checkPreconditions quiet = true) :
    s.Empty := by
  simp only [checkPreconditions, drained, Bool.and_eq_true, List.isEmpty_iff] at h
  exact ⟨h.1.2.1.1, h.1.2.2⟩

/-- With nothing queued and no attempt, what is parked is settled. -/
theorem Kept.settled (h : s.Kept) (hempty : s.Empty) (ht : t ∈ s.rebinding) :
    s.status t = .ended := by
  refine ((h.ticket t).rebinding ht).resolve_left fun hw => ?_
  have := ((h.ticket t).parked hw).2
  simp [hempty.2] at this

theorem queueDir_of_unfenced (hqueue : s.queue ≠ .fence) (hq : s'.queue = s.queue) :
    s'.queueDir = s.queueDir := by
  cases hcase : s.queue <;> simp_all [queueDir]

theorem Empty.unfenced (h : s.Empty) (hqueue : s.queue ≠ .fence) (hq : s'.queue = s.queue)
    (hattempts : s'.attempts = s.attempts) : s'.Empty := by
  refine ⟨?_, hattempts.trans h.2⟩
  rw [queued, queueDir_of_unfenced hqueue hq]
  exact h.1

/-- `mkdir` of `queue-v2/`, in which nobody looks yet. -/
theorem Kept.mkdirV2 (h : s.Kept) (hqueue : s.queue ≠ .fence) {s' : Root τ}
    (hs' : s'.queue = s.queue ∧ s'.legacy = s.legacy ∧ s'.queueV2 = some (s.queueV2.getD {}) ∧
      s'.status = s.status ∧ s'.attempts = s.attempts ∧ s'.leases = s.leases) : s'.Kept := by
  obtain ⟨hq, hlegacy, hv2, hstatus, hattempts, hleases⟩ := hs'
  have hdir := queueDir_of_unfenced hqueue hq
  cases hold : s.queueV2 with
  | some d =>
    refine h.same (by rw [hdir]) ?_ hstatus hattempts hleases
    cases hcase : s.queue <;> simp_all [elsewhere]
  | none =>
    have helse : s'.elsewhere = s.elsewhere ++ [({} : QueueDir τ)] := by
      cases hcase : s.queue <;> simp_all [elsewhere]
    refine ⟨fun t => ?_, ?_⟩
    · have hok := h.ticket t
      refine ⟨?_, ?_, ?_, ?_, fun d hd => ?_⟩
      · rw [hstatus, queued, hdir]
        exact hok.queued
      · rw [hstatus, hattempts, rebinding, hdir]
        exact hok.parked
      · rw [hstatus, rebinding, hdir]
        exact hok.rebinding
      · rw [hstatus, hleases]
        exact hok.leased
      · rw [helse] at hd
        rcases List.mem_append.1 hd with hd | hd
        · rw [hstatus]
          exact hok.elsewhere d hd
        · obtain rfl := List.mem_singleton.1 hd
          exact ⟨List.not_mem_nil, fun hmem => absurd hmem List.not_mem_nil⟩
    · rw [hdir, helse, ← List.append_assoc]
      intro d hd
      rcases List.mem_append.1 hd with hd | hd
      · exact h.once d hd
      · exact List.mem_singleton.1 hd ▸ once_empty

/-- **The legacy directory is moved aside**, with nothing in it that waits. -/
theorem Kept.aside (h : s.Kept) (hqueue : s.queue = .directory d) (hempty : s.Empty) {s' : Root τ}
    (hs' : s'.queue = .absent ∧ s'.legacy = s.legacy ++ [d] ∧ s'.queueV2 = s.queueV2 ∧
      s'.status = s.status ∧ s'.attempts = s.attempts ∧ s'.leases = s.leases) : s'.Kept := by
  obtain ⟨hq, hlegacy, hv2, hstatus, hattempts, hleases⟩ := hs'
  have hdir : s.queueDir = some d := by simp [queueDir, hqueue]
  have hdir' : s'.queueDir = none := by simp [queueDir, hq]
  have hmem : ∀ e ∈ s'.elsewhere, e = d ∨ e ∈ s.elsewhere := by
    intro e he
    simp only [elsewhere, hq, hlegacy, hv2, hqueue, List.mem_append, List.mem_singleton] at he ⊢
    grind
  have hnone : d.tickets = [] := by rw [← queued_of_queueDir hdir, hempty.1]
  refine ⟨fun t => ?_, fun e he => ?_⟩
  · have hok := h.ticket t
    refine ⟨?_, fun hw => ?_, ?_, ?_, fun e he => ?_⟩
    · rw [hstatus, hok.queued, hempty.1, queued, hdir', Option.map_none, Option.getD_none]
    · have := (hok.parked (by rwa [hstatus] at hw)).2
      simp [hempty.2] at this
    · simp [rebinding, hdir']
    · rw [hstatus, hleases]
      exact hok.leased
    · rw [hstatus]
      rcases hmem e he with rfl | he
      · refine ⟨by simp [hnone], fun hmem => h.settled hempty ?_⟩
        rwa [rebinding_of_queueDir hdir]
      · exact hok.elsewhere e he
  · rw [hdir', Option.toList_none, List.nil_append] at he
    rcases hmem e he with rfl | he
    · exact h.once_queueDir hdir
    · exact h.once e (List.mem_append_right _ he)

/-- **The fence takes its place**: new code looks into `queue-v2/` from then on. -/
theorem Kept.fence (h : s.Kept) (hqueue : s.queue = .absent) (hempty : s.Empty) {s' : Root τ}
    (hs' : s'.queue = .fence ∧ s'.legacy = s.legacy ∧ s'.queueV2 = s.queueV2 ∧
      s'.status = s.status ∧ s'.attempts = s.attempts ∧ s'.leases = s.leases) : s'.Kept := by
  obtain ⟨hq, hlegacy, hv2, hstatus, hattempts, hleases⟩ := hs'
  have hdir' : s'.queueDir = s.queueV2 := by simp [queueDir, hq, hv2]
  have helse : s'.queueDir.toList ++ s'.elsewhere ⊆ s.elsewhere := by
    simp only [hdir', elsewhere, hq, hqueue, hlegacy]
    grind
  have hin : ∀ e, s'.queueDir = some e → e ∈ s.elsewhere := fun e he =>
    helse (List.mem_append_left _ (by simp [he]))
  refine ⟨fun t => ?_, fun e he => h.once e (List.mem_append_right _ (helse he))⟩
  have hok := h.ticket t
  refine ⟨?_, fun hw => ?_, fun hmem => ?_, ?_, fun e he => ?_⟩
  · rw [hstatus, hok.queued, hempty.1]
    refine ⟨fun hmem => absurd hmem List.not_mem_nil, fun hmem => ?_⟩
    cases hd : s'.queueDir with
    | none => simp [queued, hd] at hmem
    | some e =>
      rw [queued_of_queueDir hd] at hmem
      exact absurd hmem (hok.elsewhere e (hin e hd)).1
  · have := (hok.parked (by rwa [hstatus] at hw)).2
    simp [hempty.2] at this
  · rw [hstatus]
    cases hd : s'.queueDir with
    | none => simp [rebinding, hd] at hmem
    | some e =>
      rw [rebinding_of_queueDir hd] at hmem
      exact .inr ((hok.elsewhere e (hin e hd)).2 hmem)
  · rw [hstatus, hleases]
    exact hok.leased
  · rw [hstatus]
    exact hok.elsewhere e (helse (List.mem_append_right _ he))

/-- The queue files stay, in all the fields that they are in. -/
theorem Kept.fields (h : s.Kept) (hqueue : s'.queue = s.queue) (hlegacy : s'.legacy = s.legacy)
    (hv2 : s'.queueV2 = s.queueV2) (hstatus : s'.status = s.status)
    (hattempts : s'.attempts = s.attempts) (hleases : s'.leases = s.leases) : s'.Kept := by
  refine h.same ?_ ?_ hstatus hattempts hleases
  · rw [queueDir, queueDir, hqueue, hv2]
  · rw [elsewhere, elsewhere, hqueue, hlegacy, hv2]

/-- **A write of the migrator.** -/
theorem Inv.proceed (h : s.Inv) (hm : s.migrator = some m) (quiet : Bool) :
    (s.proceed m quiet).Inv := by
  have hphase := h.phase m hm
  have hsame : ∀ p, (s.goes m p).Kept := fun p => h.kept.fields rfl rfl rfl rfl rfl rfl
  have hunfenced : s.schedFence = false → ∀ u : Root τ, u.schedFence = s.schedFence → u.Fenced :=
    fun hf u hu hu' => by rw [hu, hf] at hu'; cases hu'
  obtain ⟨pid, phase⟩ := m
  cases phase with
  | marked =>
    refine ⟨hsame _, hunfenced hphase _ rfl, fun m' hm' => ?_⟩
    obtain rfl := Option.some.inj hm'
    by_cases hcheck : s.checkPreconditions quiet = true
    · simp only [hcheck, if_true]
      exact ⟨hphase, empty_of_checkPreconditions hcheck⟩
    · simp only [hcheck]
      trivial
  | checked =>
    refine ⟨h.kept.fields rfl rfl rfl rfl rfl rfl, hunfenced hphase.1 _ rfl, fun m' hm' => ?_⟩
    obtain rfl := Option.some.inj hm'
    exact ⟨hphase.1, hphase.2, rfl⟩
  | recorded =>
    obtain ⟨hfence, hempty, hfairness⟩ := hphase
    cases hqueue : s.queue with
    | fence =>
      simp only [Root.proceed, hqueue]
      refine ⟨hsame _, hunfenced hfence _ rfl, fun m' hm' => ?_⟩
      obtain rfl := Option.some.inj hm'
      exact ⟨hfence, hfairness, hqueue⟩
    | absent =>
      simp only [Root.proceed, hqueue]
      have hne : s.queue ≠ .fence := by simp [hqueue]
      refine ⟨h.kept.mkdirV2 hne ⟨rfl, rfl, rfl, rfl, rfl, rfl⟩, hunfenced hfence _ rfl,
        fun m' hm' => ?_⟩
      obtain rfl := Option.some.inj hm'
      exact ⟨hfence, hempty.unfenced hne rfl rfl, hfairness⟩
    | directory d =>
      simp only [Root.proceed, hqueue]
      have hne : s.queue ≠ .fence := by simp [hqueue]
      refine ⟨h.kept.mkdirV2 hne ⟨rfl, rfl, rfl, rfl, rfl, rfl⟩, hunfenced hfence _ rfl,
        fun m' hm' => ?_⟩
      obtain rfl := Option.some.inj hm'
      exact ⟨hfence, hempty.unfenced hne rfl rfl, hfairness, d, hqueue⟩
  | made legacy =>
    refine ⟨hsame _, ?_, fun m' hm' => ?_⟩
    · cases legacy <;> exact hunfenced hphase.1 _ rfl
    · obtain rfl := Option.some.inj hm'
      cases legacy <;> exact hphase
  | pending legacy =>
    cases legacy with
    | true =>
      obtain ⟨hfence, hempty, hfairness, d, hqueue⟩ := hphase
      simp only [Root.proceed, hqueue]
      refine ⟨h.kept.aside hqueue hempty ⟨rfl, rfl, rfl, rfl, rfl, rfl⟩, hunfenced hfence _ rfl,
        fun m' hm' => ?_⟩
      obtain rfl := Option.some.inj hm'
      exact ⟨hfence, ⟨rfl, hempty.2⟩, hfairness⟩
    | false =>
      obtain ⟨hfence, hempty, hfairness⟩ := hphase
      cases hqueue : s.queue with
      | directory d =>
        simp only [Root.proceed, hqueue]
        refine ⟨hsame _, hunfenced hfence _ rfl, fun m' hm' => ?_⟩
        obtain rfl := Option.some.inj hm'
        trivial
      | absent =>
        simp only [Root.proceed, hqueue]
        refine ⟨h.kept.fence hqueue hempty ⟨rfl, rfl, rfl, rfl, rfl, rfl⟩, hunfenced hfence _ rfl,
          fun m' hm' => ?_⟩
        obtain rfl := Option.some.inj hm'
        exact ⟨hfence, hfairness, rfl⟩
      | fence =>
        simp only [Root.proceed, hqueue]
        refine ⟨h.kept.fields hqueue.symm rfl rfl rfl rfl rfl, hunfenced hfence _ rfl,
          fun m' hm' => ?_⟩
        obtain rfl := Option.some.inj hm'
        exact ⟨hfence, hfairness, rfl⟩
  | fenced =>
    obtain ⟨-, hfairness, hqueue⟩ := hphase
    refine ⟨h.kept.fields rfl rfl rfl rfl rfl rfl, fun _ => ⟨hqueue, [], hfairness, rfl⟩,
      fun m' hm' => ?_⟩
    obtain rfl := Option.some.inj hm'
    trivial
  | committed =>
    refine ⟨hsame _, h.fenced, fun m' hm' => ?_⟩
    obtain rfl := Option.some.inj hm'
    trivial
  | leaving =>
    exact ⟨h.kept.fields rfl rfl rfl rfl rfl rfl, h.fenced, fun m' hm' => by cases hm'⟩

end Root

/-- **A denial behind the fence has a sample of the load.** -/
def Measured (_ : Root τ) : MigrationAct τ → Prop
  | .deny _ _ load _ => load.isSome = true
  | _ => True

namespace Root

variable [DecidableEq τ] {a : MigrationAct τ}

/-- A queue directory is emptied further, or made: what was empty is empty. -/
theorem Empty.setQueueDir {st : Status} (h : s.Empty) (hd : s.queueDir.getD {} = d)
    {d' : QueueDir τ} (hsub : d'.tickets ⊆ d.tickets) :
    ((s.setQueueDir d').become t st).Empty := by
  refine ⟨?_, by rw [attempts_become, attempts_setQueueDir, h.2]⟩
  rw [queued_become, queued_setQueueDir]
  refine List.eq_nil_of_subset_nil fun u hu => ?_
  rw [← h.1, queued_eq_getD, hd]
  exact hsub hu

/-- **Every step keeps the invariant.** -/
theorem Inv.next (h : s.Inv) (hok : Measured s a) (hs : s.next a = some s') : s'.Inv := by
  cases a with
  | migrate pid =>
    obtain ⟨hlock, hs⟩ := Option.ite_none_right_eq_some.1 hs
    obtain rfl := Option.some.inj hs
    unfold Root.migrate
    split
    · exact h.locked hlock rfl (h.kept.fields rfl rfl rfl rfl rfl rfl) id rfl rfl
    · rename_i hfence
      split
      · exact h
      · refine ⟨h.kept.fields rfl rfl rfl rfl rfl rfl, h.fenced, fun m hm => ?_⟩
        obtain rfl := Option.some.inj hm
        exact Bool.eq_false_iff.2 hfence
  | proceed quiet =>
    obtain ⟨m, hm, rfl⟩ := Option.map_eq_some_iff.1 hs
    exact h.proceed hm quiet
  | fail =>
    obtain ⟨m, hm, rfl⟩ := Option.map_eq_some_iff.1 hs
    have hkept : (s.fails m).Kept := by
      unfold fails
      split <;> exact h.kept.fields rfl rfl rfl rfl rfl rfl
    have hfenced : (s.fails m).Fenced := by
      unfold fails
      split <;> exact h.fenced
    refine ⟨hkept, hfenced, fun m' hm' => ?_⟩
    unfold fails at hm' ⊢
    split at hm'
    · cases hm'
    · obtain rfl := Option.some.inj hm'
      trivial
  | crash =>
    obtain ⟨m, hm, rfl⟩ := Option.map_eq_some_iff.1 hs
    exact ⟨h.kept.fields rfl rfl rfl rfl rfl rfl, h.fenced, fun m' hm' => by cases hm'⟩
  | mkdir v =>
    obtain ⟨d, hd, rfl⟩ := Option.map_eq_some_iff.1 hs
    have hget := eq_of_enqueueDir hd
    refine h.unlocked migrator_setQueueDir ?_ (fun hempty => ?_) exists_queue_setQueueDir
      queue_setQueueDir_eq_fence.2 schedFence_setQueueDir fairness_setQueueDir
    · refine h.kept.same ?_ elsewhere_setQueueDir status_setQueueDir attempts_setQueueDir
        leases_setQueueDir
      rw [queueDir_setQueueDir, Option.getD_some, hget]
    · refine ⟨?_, attempts_setQueueDir.trans hempty.2⟩
      rw [queued_setQueueDir, hget, ← queued_eq_getD, hempty.1]
  | enqueue v t =>
    obtain ⟨hguard, hs⟩ := Option.ite_none_right_eq_some.1 hs
    obtain ⟨d, hd, rfl⟩ := Option.map_eq_some_iff.1 hs
    simp only [Bool.and_eq_true] at hguard
    exact h.locked hguard.1.1.1 migrator_setQueueDir
      (h.kept.enqueue (eq_of_enqueueDir hd).symm hguard.2) queue_setQueueDir_eq_fence.2
      schedFence_setQueueDir fairness_setQueueDir
  | take v t =>
    obtain ⟨hguard, hs⟩ := Option.ite_none_right_eq_some.1 hs
    obtain ⟨d, hd, rfl⟩ := Option.map_eq_some_iff.1 hs
    obtain ⟨hd, hmem⟩ := Option.filter_eq_some_iff.1 hd
    simp only [Bool.and_eq_true] at hguard
    have hkept := h.kept.leaves (queueDir_of_queueOf hd) (List.contains_iff_mem.1 hmem) (.inl rfl)
    have hlease := hkept.lease (t := t) status_become_self
    rw [leases_become, leases_setQueueDir] at hlease
    exact h.locked hguard.1 migrator_setQueueDir hlease queue_setQueueDir_eq_fence.2
      schedFence_setQueueDir fairness_setQueueDir
  | drop v t =>
    obtain ⟨d, hd, rfl⟩ := Option.map_eq_some_iff.1 hs
    obtain ⟨hd, hmem⟩ := Option.filter_eq_some_iff.1 hd
    have hget : s.queueDir.getD {} = d := by rw [queueDir_of_queueOf hd, Option.getD_some]
    exact h.unlocked migrator_setQueueDir
      (h.kept.leaves (queueDir_of_queueOf hd) (List.contains_iff_mem.1 hmem) (.inr rfl))
      (fun hempty => hempty.setQueueDir hget List.erase_subset) exists_queue_setQueueDir
      queue_setQueueDir_eq_fence.2 schedFence_setQueueDir fairness_setQueueDir
  | createAttempt t =>
    obtain ⟨hguard, hs⟩ := Option.ite_none_right_eq_some.1 hs
    obtain rfl := Option.some.inj hs
    simp only [Bool.and_eq_true, decide_eq_true_eq] at hguard
    exact h.locked hguard.1.1 rfl (h.kept.createAttempt hguard.2) id rfl rfl
  | withdrawQueued t =>
    obtain ⟨hguard, hs⟩ := Option.ite_none_right_eq_some.1 hs
    obtain ⟨d, hd, rfl⟩ := Option.map_eq_some_iff.1 hs
    obtain ⟨hd, hmem⟩ := Option.filter_eq_some_iff.1 hd
    simp only [Bool.and_eq_true, List.contains_iff_mem] at hguard
    exact h.locked hguard.1.1 migrator_setQueueDir
      (h.kept.withdraw hd (List.contains_iff_mem.1 hmem) hguard.2) queue_setQueueDir_eq_fence.2
      schedFence_setQueueDir fairness_setQueueDir
  | restoreQueued t =>
    obtain ⟨hguard, hs⟩ := Option.ite_none_right_eq_some.1 hs
    obtain ⟨d, hd, rfl⟩ := Option.map_eq_some_iff.1 hs
    obtain ⟨hd, hmem⟩ := Option.filter_eq_some_iff.1 hd
    simp only [Bool.and_eq_true, decide_eq_true_eq] at hguard
    exact h.locked hguard.1.1 migrator_setQueueDir
      (h.kept.restore hd (List.contains_iff_mem.1 hmem) hguard.2) queue_setQueueDir_eq_fence.2
      schedFence_setQueueDir fairness_setQueueDir
  | discardRebinding t =>
    obtain ⟨d, hd, rfl⟩ := Option.map_eq_some_iff.1 hs
    obtain ⟨hd, hmem⟩ := Option.filter_eq_some_iff.1 hd
    have hget : s.queueDir.getD {} = d := by rw [hd, Option.getD_some]
    exact h.unlocked migrator_setQueueDir (h.kept.discard hd (List.contains_iff_mem.1 hmem))
      (fun hempty => hempty.setQueueDir hget (List.Subset.refl _)) exists_queue_setQueueDir
      queue_setQueueDir_eq_fence.2 schedFence_setQueueDir fairness_setQueueDir
  | publishTerminal t =>
    obtain ⟨hguard, hs⟩ := Option.ite_none_right_eq_some.1 hs
    obtain rfl := Option.some.inj hs
    simp only [Bool.and_eq_true, decide_eq_true_eq] at hguard
    have hkept : Kept { s.become t .ended with attempts := s.attempts.erase t } :=
      h.kept.ends hguard.2 (fun _ _ => id) fun u hu => (List.mem_erase_of_ne hu).2
    exact h.locked hguard.1.1 rfl hkept id rfl rfl
  | finish t =>
    obtain ⟨hguard, hs⟩ := Option.ite_none_right_eq_some.1 hs
    obtain rfl := Option.some.inj hs
    have hst : s.status t ≠ .queued := by
      have := (h.kept.ticket t).leased (List.contains_iff_mem.1 hguard)
      rcases this with hst | hst <;> simp [hst]
    have hkept : Kept { s.become t .ended with leases := s.leases.erase t } :=
      h.kept.ends hst (fun u hu => (List.mem_erase_of_ne hu).1) fun _ _ => id
    exact h.unlocked rfl hkept (fun hempty => ⟨hempty.1, hempty.2⟩) id id rfl rfl
  | deny t now load why =>
    obtain ⟨hguard, hs⟩ := Option.ite_none_right_eq_some.1 hs
    obtain rfl := Option.some.inj hs
    simp only [Bool.and_eq_true] at hguard
    refine ⟨h.kept.fields rfl rfl rfl rfl rfl rfl, fun hf => ?_, fun m hm => ?_⟩
    · obtain ⟨hqueue, f, hfair, hvalid⟩ := h.fenced hf
      exact ⟨hqueue, _, by rw [hfair, Option.map_some],
        validFairness_record hvalid (valid_denialRecord hok)⟩
    · have hnone := Option.isNone_iff_eq_none.1 hguard.1.1
      rw [hnone] at hm
      cases hm
  | depart t =>
    obtain ⟨hguard, hs⟩ := Option.ite_none_right_eq_some.1 hs
    obtain rfl := Option.some.inj hs
    simp only [Bool.and_eq_true] at hguard
    refine ⟨h.kept.fields rfl rfl rfl rfl rfl rfl, fun hf => ?_, fun m hm => ?_⟩
    · obtain ⟨hqueue, f, hfair, hvalid⟩ := h.fenced hf
      exact ⟨hqueue, _, by rw [hfair, Option.map_some], validFairness_filter _ hvalid⟩
    · have hnone := Option.isNone_iff_eq_none.1 hguard.1
      rw [hnone] at hm
      cases hm
  | pause paused | live pid alive =>
    obtain rfl := Option.some.inj hs
    exact h.unlocked rfl (h.kept.fields rfl rfl rfl rfl rfl rfl) id id id rfl rfl

omit [DecidableEq τ] in
theorem inv_start : Inv ({} : Root τ) where
  kept :=
    { ticket := fun t => ⟨by simp [queued, queueDir], by simp, by simp [rebinding, queueDir],
        by simp, by simp [elsewhere]⟩
      once := by simp [queueDir, elsewhere] }
  fenced := fun h => by cases h
  phase := fun m hm => by cases hm

/-! ### A run once more -/

/-- **A run of the migration goes through**, and the tickets are as they were. -/
def Completes (s : Root τ) (pid : ℕ) : Prop :=
  ∃ n s', (machine τ).exec s (.migrate pid :: List.replicate n (.proceed true)) = some s' ∧
    s'.Migrated ∧ s'.queued = s.queued ∧ s'.status = s.status

theorem exec_proceed {n : ℕ}
    (hs : (machine τ).exec s (List.replicate (n + 1) (.proceed true)) = some s') :
    ∃ s₁, s.next (.proceed true) = some s₁ ∧
      (machine τ).exec s₁ (List.replicate n (.proceed true)) = some s' :=
  Option.bind_eq_some_iff.1 hs

theorem Inv.exec (n : ℕ) (h : s.Inv)
    (hs : (machine τ).exec s (List.replicate n (.proceed true)) = some s') : s'.Inv := by
  induction n generalizing s with
  | zero => exact Option.some.inj hs ▸ h
  | succ n ih =>
    obtain ⟨s₁, hnext, hrest⟩ := exec_proceed hs
    exact ih (h.next (a := .proceed true) trivial hnext) hrest

/-- **Behind the checks nothing stops a migrator** that is alone. -/
theorem exec_checked (s : Root τ) {pid : ℕ} (hm : s.migrator = some ⟨pid, .checked⟩) :
    ∃ n s', (machine τ).exec s (List.replicate n (.proceed true)) = some s' ∧ s'.Migrated ∧
      s'.status = s.status := by
  obtain ⟨migrating, paused, fairness, queue, queueV2, legacy, schedFence, leases, attempts, alive,
    migrator, status⟩ := s
  obtain rfl : migrator = some ⟨pid, .checked⟩ := hm
  cases queue with
  | absent => exact ⟨7, _, rfl, ⟨rfl, rfl, rfl, rfl, rfl⟩, rfl⟩
  | directory d => exact ⟨8, _, rfl, ⟨rfl, rfl, rfl, rfl, rfl⟩, rfl⟩
  | fence => exact ⟨5, _, rfl, ⟨rfl, rfl, rfl, rfl, rfl⟩, rfl⟩

/-- **When a run of the migration goes through**: it is done already, or no living process has the
pid in the marker. -/
theorem Inv.completes_iff (h : s.Inv) (hlock : s.lockFree = true)
    (hcheck : s.checkPreconditions true = true) (pid : ℕ) :
    s.Completes pid ↔ s.schedFence = true ∨ s.liveMigrator pid = none := by
  have hmigrate : (machine τ).next s (.migrate pid) = some (s.migrate pid) := if_pos hlock
  have hfirst := fun as => (machine τ).exec_cons as hmigrate
  have hmigrator : s.migrator = none := Option.isNone_iff_eq_none.1 hlock
  have hinv : (s.migrate pid).Inv := h.next (a := .migrate pid) trivial hmigrate
  have hempty : s.queued = [] := (empty_of_checkPreconditions hcheck).1
  cases hfence : s.schedFence with
  | true =>
    refine iff_of_true ?_ (.inl rfl)
    have hdone : s.migrate pid = { s with migrating := none } := by rw [Root.migrate, if_pos hfence]
    obtain ⟨hqueue, f, hf, hvalid⟩ := h.fenced hfence
    refine ⟨0, _, (hfirst _).trans rfl, ?_, ?_, ?_⟩
    · rw [hdone]
      exact ⟨hfence, by simp [resolveScheduler, hfence, hf, hvalid], hqueue, rfl, hmigrator⟩
    · rw [hdone]
      rfl
    · rw [hdone]
  | false =>
    cases hlive : s.liveMigrator pid with
    | some p =>
      refine iff_of_false ?_ (by simp)
      rintro ⟨n, s', hexec, hdone, -⟩
      have hstay : s.migrate pid = s := by simp [Root.migrate, hfence, hlive]
      rw [hfirst, hstay] at hexec
      cases n with
      | zero =>
        obtain rfl := Option.some.inj hexec
        simpa [hfence] using hdone.1
      | succ n =>
        obtain ⟨s₁, hnext, -⟩ := exec_proceed hexec
        simp [Root.next, hmigrator] at hnext
    | none =>
      refine iff_of_true ?_ (.inr rfl)
      have hgo : s.migrate pid =
          { s with migrating := some pid, migrator := some ⟨pid, .marked⟩ } := by
        simp [Root.migrate, hfence, hlive]
      have hchecks : checkPreconditions (s.migrate pid) true = true := by
        rw [hgo]
        exact hcheck
      have hnext : (machine τ).next (s.migrate pid) (.proceed true) =
          some ((s.migrate pid).goes ⟨pid, .marked⟩ .checked) := by
        have hm : (s.migrate pid).migrator = some ⟨pid, .marked⟩ := by rw [hgo]
        simp only [machine, Root.next, hm, Option.map_some, Root.proceed, hchecks, if_true]
      obtain ⟨n, s', hexec, hdone, hstatus⟩ :=
        exec_checked ((s.migrate pid).goes ⟨pid, .marked⟩ .checked) rfl
      have hchecked := hinv.next (a := .proceed true) trivial hnext
      have hkept : s'.Kept := (hchecked.exec n hexec).kept
      refine ⟨n + 1, s', ?_, hdone, ?_, ?_⟩
      · rw [hfirst]
        exact ((machine τ).exec_cons _ hnext).trans hexec
      · rw [hempty]
        refine List.eq_nil_iff_forall_not_mem.2 fun t ht => ?_
        have hst := (hkept.ticket t).queued.2 ht
        rw [hstatus, hgo] at hst
        simpa [hempty] using (h.kept.ticket t).queued.1 hst
      · rw [hstatus, hgo]
        rfl

end Root

section
variable [DecidableEq τ]

theorem inv_of_reach (h : (machine τ).Reach Measured s) : s.Inv :=
  h.invariant (P := Root.Inv) (by rintro _ rfl; exact Root.inv_start)
    fun _ _ _ hinv hok hs => hinv.next hok hs

omit [DecidableEq τ] in
theorem exclusive_of_inv (h : s.Inv) : s.Exclusive := by
  intro d hd
  have hqueue : s.queue = .directory d := by
    cases hcase : s.queue <;> simp_all [Root.oldQueueDir]
  refine ⟨?_, by simp [Root.queueDir, hqueue]⟩
  have hfence : s.schedFence = false := by
    refine Bool.eq_false_iff.2 fun hf => ?_
    have := (h.fenced hf).1
    simp [hqueue] at this
  simp [Root.resolveScheduler, hfence]

/-- **The migration, in every run whose denials are measured**: behind its fence there are a valid
fairness file and no legacy queue, old and new code never have two queues, every ticket is where
it is looked for and nowhere else, and a run once more goes through unless a living process has the
pid that the marker was left with. -/
theorem migration_stands (h : (machine τ).Reach Measured s) :
    s.Fenced ∧ s.Exclusive ∧ s.Kept ∧
      ∀ pid, s.lockFree = true → s.checkPreconditions true = true →
        (s.Completes pid ↔ s.schedFence = true ∨ s.liveMigrator pid = none) := by
  have hinv := inv_of_reach h
  exact ⟨hinv.fenced, exclusive_of_inv hinv, hinv.kept, fun pid hlock hcheck =>
    hinv.completes_iff hlock hcheck pid⟩

end

/-- A migrator dies between the two renames, old code makes its directory again, and a second
migrator finishes. -/
def migratedTwice : List (MigrationAct ℕ) :=
  [.mkdir .old, .pause true, .live 1 true, .migrate 1] ++ List.replicate 5 (.proceed true) ++
    [.crash, .live 1 false, .mkdir .old, .migrate 2] ++ List.replicate 9 (.proceed true)

theorem migration_stands_migratedTwice : ∃ s : Root ℕ, s.resolveScheduler = true ∧ s.Fenced ∧
    s.Exclusive ∧ s.Kept ∧ s.Completes 3 := by
  have halong : (machine ℕ).Along Measured {} migratedTwice :=
    Machine.along_of_check (fun _ a => match a with | .deny _ _ load _ => load.isSome | _ => true)
      (fun _ a => by cases a <;> simp [Measured]) migratedTwice (by decide +kernel)
  obtain ⟨s, hs, hend⟩ := Machine.exists_reach_of_exec (machine ℕ) {} migratedTwice
    (fun s => s.resolveScheduler && s.schedFence && s.lockFree && s.checkPreconditions true) rfl
    halong (by decide +kernel)
  simp only [Bool.and_eq_true] at hend
  obtain ⟨⟨⟨hv2, hfence⟩, hlock⟩, hcheck⟩ := hend
  obtain ⟨hfenced, hexclusive, hkept, hruns⟩ := migration_stands hs
  exact ⟨s, hv2, hfenced, hexclusive, hkept, (hruns 3 hlock hcheck).2 (.inl hfence)⟩

/-- Behind the fence, a head below its elastic floor is denied without a sample of the load. -/
def deniedUnmeasured : List (MigrationAct ℕ) :=
  [.pause true, .migrate 1] ++ List.replicate 8 (.proceed true) ++
    [.pause false, .enqueue .new 0, .deny 0 0 none .elasticBelowFloor]

theorem not_forall_migrated : ¬ ∀ s : Root ℕ, (machine ℕ).Reach (fun _ _ => True) s →
    s.Fenced ∧ s.Exclusive ∧ s.Kept ∧
      ∀ pid, s.lockFree = true → s.checkPreconditions true = true → s.Completes pid := by
  intro hall
  have halong : (machine ℕ).Along (fun _ _ => True) {} deniedUnmeasured :=
    Machine.along_of_forall (fun _ _ => trivial) deniedUnmeasured _
  obtain ⟨s, hs, hend⟩ := Machine.exists_reach_of_exec (machine ℕ) {} deniedUnmeasured
    (fun s => s.schedFence && s.fairness.all fun f => !validFairness f) rfl halong
    (by decide +kernel)
  obtain ⟨hfence, hinvalid⟩ := Bool.and_eq_true_iff.1 hend
  obtain ⟨-, f, hf, hvalid⟩ := (hall s hs).1 hfence
  simp [hf, hvalid] at hinvalid

end Migration
end Scheduler
end LaneBroker
