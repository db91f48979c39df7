/-
# The high cap of a repository

`admitTier` admits a ticket high while fewer than `maxQueuedHighPerRepo` tickets of its repository
are queued as high with a live supervisor, and `enqueue` and `retierQueued` ask it.  What they count
is in the queue at that moment; a ticket that is parked for a rebind is not, and `restoreLocked`
puts it back with the tier it had.  So a high that was away while another one was admitted makes one
too many (`not_forall_highCapped`).  What `recoverRebinding` puts back has no live supervisor.

In runs in which no restore puts back a live high where the repository is at its cap, the cap holds
in every state (`high_capped`); and a restore keeps it in no other case (`restore_keeps_iff`).
-/

import LaneBroker.Basis.Machine
import LaneBroker.Scheduler.Tickets
import Mathlib.Data.List.Nodup
import Mathlib.Data.List.Perm.Basic

namespace LaneBroker
namespace Scheduler

open LaneBroker.Basis

/-- A queue record, as far as the tier goes. -/
structure RankedTicket where
  id : TicketId
  repoId : ℕ
  supervisor : ℕ
  priorityRequested : Tier
  priorityAdmitted : Tier
  priorityDemoted : Bool := false
  schedV2 : Bool := true
  deriving DecidableEq, Repr

/-- What is known of the attempt of a ticket. -/
structure RankedAttempt where
  generation : ℕ
  /-- It is dispatched: executed on a runner, in phase `running`. -/
  dispatched : Bool
  deriving DecidableEq, Repr

/-- **The queue and the parked records**, and what the operations on them look at. -/
structure Ranks where
  queue : List RankedTicket := []
  parked : List RankedTicket := []
  /-- The record that a supervisor withdrew, in its memory. -/
  copies : TicketId → Option RankedTicket := fun _ => none
  alive : ℕ → Bool := fun _ => true
  attempts : TicketId → Option RankedAttempt := fun _ => none
  leased : TicketId → Bool := fun _ => false
  /-- There is a result. -/
  finished : TicketId → Bool := fun _ => false
  cancelled : TicketId → Bool := fun _ => false
  expired : TicketId → Bool := fun _ => false
  withdrawn : TicketId → Bool := fun _ => false
  /-- A runner-side ticket of a submitter. -/
  remoteOwned : TicketId → Bool := fun _ => false
  migrating : Bool := false
  /-- The scheduler is behind its fence. -/
  v2 : Bool := true

namespace Ranks

variable (s : Ranks)

/-- The record is that of a queued high of the repository with a live supervisor. -/
def queuedHigh (repoId : ℕ) (t : RankedTicket) : Bool :=
  t.repoId = repoId && t.priorityRequested = .high && t.priorityAdmitted = .high &&
    s.alive t.supervisor

/-- **`admitTier`.** -/
def admitTier (repoId : ℕ) (requested : Tier) (maxQueuedHighPerRepo : ℕ)
    (excludeId : Option TicketId) : Tier × Bool :=
  let demoted := requested = .high &&
    maxQueuedHighPerRepo ≤ s.queue.countP fun t => some t.id ≠ excludeId && s.queuedHigh repoId t
  (if demoted then .medium else requested, demoted)

/-- The file of a ticket is in the queue. -/
def queued (id : TicketId) : Bool := s.queue.any fun t => t.id = id

/-- **`existingTicket`.** -/
def existingTicket (id : TicketId) (ownerGeneration : Option ℕ) : Bool :=
  s.queued id || (s.parked.any fun t => t.id = id) || s.leased id || s.finished id ||
    (s.attempts id).any fun a => ownerGeneration ≠ some a.generation

/-- **`enqueue`**: `none` where it refuses. -/
def enqueue (cap : ℕ) (id : TicketId) (repoId supervisor : ℕ) (requested : Option Tier)
    (ownerGeneration : Option ℕ) : Option Ranks :=
  if s.existingTicket id ownerGeneration then some s
  else if s.migrating then none
  else
    let priorityRequested := requested.getD defaultPriority
    let admitted := s.admitTier repoId priorityRequested cap none
    some
      { s with
        queue := s.queue ++
          [{ id
             repoId
             supervisor
             priorityRequested
             priorityAdmitted := admitted.1
             priorityDemoted := admitted.2 }] }

/-- **`retierQueued`**: `none` where it refuses. -/
def retierQueued (cap : ℕ) (id : TicketId) (tier : Tier) : Option Ranks :=
  if s.migrating || !s.v2 || s.leased id || s.finished id || (s.parked.any fun t => t.id = id) then
    none
  else
    match s.queue.find? fun t => t.id = id with
    | none => none
    | some record =>
      if !record.schedV2 || s.cancelled id || s.expired id || s.withdrawn id || s.remoteOwned id ||
          !s.alive record.supervisor then none
      else
        let admitted := s.admitTier record.repoId tier cap (some id)
        some
          { s with
            queue := s.queue.map fun t =>
              if t.id = id then
                { t with
                  priorityRequested := tier
                  priorityAdmitted := admitted.1
                  priorityDemoted := admitted.2 }
              else t }

/-- **`withdrawQueued`**: the record is parked, and its supervisor has a copy. -/
def withdrawQueued (id : TicketId) : Option Ranks :=
  if s.migrating || s.cancelled id then none
  else
    (s.queue.find? fun t => t.id = id).map fun record =>
      { s with
        queue := s.queue.filter fun t => t.id ≠ id
        parked := s.parked ++ [record]
        copies := Function.update s.copies id (some record) }

/-- What a restore of the record puts back: the parked one, or the record itself. -/
def restored (record : RankedTicket) : RankedTicket :=
  (s.parked.find? fun t => t.id = record.id).getD record

/-- **`restoreLocked`.** -/
def restoreLocked (record : RankedTicket) : Ranks :=
  if s.queued record.id then s
  else
    { s with
      queue := s.queue ++ [s.restored record]
      parked := s.parked.filter fun t => t.id ≠ record.id }

/-- `discardRebinding`. -/
def discardRebinding (id : TicketId) : Ranks :=
  { s with parked := s.parked.filter fun t => t.id ≠ id }

/-- The body of the loop of `recoverRebinding`. -/
def recoverOne (s : Ranks) (record : RankedTicket) : Ranks :=
  if s.alive record.supervisor then s
  else if (s.attempts record.id).any RankedAttempt.dispatched ||
      (s.attempts record.id).isNone && s.finished record.id then s.discardRebinding record.id
  else s.restoreLocked record

/-- **`recoverRebinding`.** -/
def recoverRebinding : Ranks := s.parked.foldl recoverOne s

end Ranks

/-- **The steps.** -/
inductive RankAct
  | enqueue (id : TicketId) (repoId supervisor : ℕ) (requested : Option Tier)
      (ownerGeneration : Option ℕ)
  | retier (id : TicketId) (tier : Tier)
  | withdraw (id : TicketId)
  /-- `restoreQueued`, with the copy of the supervisor. -/
  | restore (id : TicketId)
  | discard (id : TicketId)
  | recover
  /-- The ticket starts: its lease is written and it leaves the queue. -/
  | start (id : TicketId)
  /-- The ticket is dequeued: cancelled, settled or reaped. -/
  | dequeue (id : TicketId)
  | die (supervisor : ℕ)
  /-- Markers, results, attempts, leases and the state of a migration, as others write them. -/
  | world (s : Ranks)

namespace Ranks

/-- **One step.** -/
def next (cap : ℕ) (s : Ranks) : RankAct → Option Ranks
  | .enqueue id repoId supervisor requested ownerGeneration =>
    s.enqueue cap id repoId supervisor requested ownerGeneration
  | .retier id tier => s.retierQueued cap id tier
  | .withdraw id => s.withdrawQueued id
  | .restore id => (s.copies id).map s.restoreLocked
  | .discard id => some (s.discardRebinding id)
  | .recover => some s.recoverRebinding
  | .start id =>
    if s.queued id then
      some
        { s with
          leased := Function.update s.leased id true
          queue := s.queue.filter fun t => t.id ≠ id }
    else none
  | .dequeue id => some { s with queue := s.queue.filter fun t => t.id ≠ id }
  | .die supervisor => some { s with alive := Function.update s.alive supervisor false }
  | .world s' =>
    some { s' with queue := s.queue, parked := s.parked, copies := s.copies, alive := s.alive }

/-- The record is of the repository, admitted high, with a live supervisor. -/
def liveHigh (s : Ranks) (repoId : ℕ) (t : RankedTicket) : Bool :=
  t.repoId = repoId && t.priorityAdmitted = .high && s.alive t.supervisor

/-- The queued tickets of a repository that are admitted high with a live supervisor. -/
def highs (s : Ranks) (repoId : ℕ) : ℕ := s.queue.countP (s.liveHigh repoId)

/-- **The cap**: no repository has more. -/
def HighCapped (cap : ℕ) (s : Ranks) : Prop := ∀ repoId, s.highs repoId ≤ cap

end Ranks

/-- **The scheduler and its tiers.**  At the start nothing is queued and nothing parked. -/
def ranks (cap : ℕ) : Machine Ranks RankAct where
  start s := s.queue = [] ∧ s.parked = [] ∧ ∀ id, s.copies id = none
  next := Ranks.next cap

/-- The restore puts back no live high where its repository is at the cap. -/
def Ranks.RoomFor (cap : ℕ) (s : Ranks) (record : RankedTicket) : Prop :=
  s.queued record.id = false → (s.restored record).priorityAdmitted = .high →
    s.alive (s.restored record).supervisor = true → s.highs (s.restored record).repoId < cap

/-- **The condition**, on the state before a restore. -/
def RestoresWithRoom (cap : ℕ) (s : Ranks) : RankAct → Prop
  | .restore id => ∀ record, s.copies id = some record → s.RoomFor cap record
  | _ => True

/-! ### What the steps keep -/

/-- Ids are given once, and whoever is admitted high asked for it. -/
structure Ranked (s : Ranks) : Prop where
  ids : ((s.queue ++ s.parked).map RankedTicket.id).Nodup
  asked : ∀ t ∈ s.queue ++ s.parked, t.priorityAdmitted = .high → t.priorityRequested = .high
  copies : ∀ id t, s.copies id = some t → t.priorityAdmitted = .high → t.priorityRequested = .high

section Steps

variable {cap : ℕ} {s s' : Ranks} {id : TicketId} {repoId : ℕ} {t record : RankedTicket}

/-- Whoever is counted by one of two is counted by one of them. -/
theorem countP_le_add {p q r : RankedTicket → Bool} (l : List RankedTicket)
    (h : ∀ t ∈ l, p t = true → q t = true ∨ r t = true) :
    l.countP p ≤ l.countP q + l.countP r := by
  induction l with
  | nil => exact le_rfl
  | cons t l ih =>
    have ih := ih fun t ht => h t (List.mem_cons_of_mem _ ht)
    have ht := h t (List.mem_cons_self ..)
    simp only [List.countP_cons]
    cases hp : p t with
    | false => simp only [Bool.false_eq_true, if_false]; omega
    | true =>
      rcases ht hp with hq | hr
      · simp only [hq, if_true]; omega
      · simp only [hr, if_true]; omega

theorem Ranked.queue_ids (h : Ranked s) : (s.queue.map RankedTicket.id).Nodup := by
  have := h.ids
  rw [List.map_append] at this
  exact (List.nodup_append.1 this).1

/-- The count of `admitTier` is that of the cap. -/
theorem Ranked.highs_eq (h : Ranked s) (repoId : ℕ) :
    s.highs repoId = s.queue.countP (s.queuedHigh repoId) := by
  refine List.countP_congr fun t ht => ?_
  have hasked := h.asked t (List.mem_append_left _ ht)
  simp only [Ranks.liveHigh, Ranks.queuedHigh, Bool.and_eq_true, decide_eq_true_eq]
  constructor
  · rintro ⟨⟨hrepo, hhigh⟩, halive⟩
    exact ⟨⟨⟨hrepo, hasked hhigh⟩, hhigh⟩, halive⟩
  · rintro ⟨⟨⟨hrepo, -⟩, hhigh⟩, halive⟩
    exact ⟨⟨hrepo, hhigh⟩, halive⟩

/-- **Who is admitted high asked for it, and there was room.** -/
theorem of_admitTier_high {requested : Tier} {excludeId : Option TicketId}
    (h : (s.admitTier repoId requested cap excludeId).1 = .high) :
    requested = .high ∧
      (s.queue.countP fun t => some t.id ≠ excludeId && s.queuedHigh repoId t) < cap := by
  unfold Ranks.admitTier at h
  dsimp only at h
  split_ifs at h with hdemoted
  refine ⟨h, ?_⟩
  simp only [h, decide_true, Bool.true_and, decide_eq_true_eq, not_le] at hdemoted
  exact hdemoted

/-- Fewer records and fewer living supervisors leave fewer highs. -/
theorem highs_le (hqueue : s'.queue.Sublist s.queue)
    (halive : ∀ supervisor, s'.alive supervisor = true → s.alive supervisor = true) :
    s'.highs repoId ≤ s.highs repoId := by
  refine (List.countP_mono_left fun t _ ht => ?_).trans (hqueue.countP_le)
  simp only [Ranks.liveHigh, Bool.and_eq_true] at ht ⊢
  exact ⟨ht.1, halive _ ht.2⟩

/-- One record more is one high more, if it is one. -/
theorem highs_snoc (parked : List RankedTicket) :
    Ranks.highs { s with queue := s.queue ++ [t], parked } repoId = s.highs repoId +
      if t.repoId = repoId ∧ t.priorityAdmitted = .high ∧ s.alive t.supervisor = true then 1
      else 0 := by
  unfold Ranks.highs
  rw [List.countP_append, List.countP_singleton]
  congr 1
  simp only [Ranks.liveHigh, Bool.and_eq_true, decide_eq_true_eq, and_assoc]

/-- **Where a record is appended, the cap is kept exactly when there was room for it.** -/
theorem highCapped_snoc_iff (h : s.HighCapped cap) (parked : List RankedTicket) :
    Ranks.HighCapped cap { s with queue := s.queue ++ [t], parked } ↔
      (t.priorityAdmitted = .high → s.alive t.supervisor = true → s.highs t.repoId < cap) := by
  constructor
  · intro hafter hhigh hlive
    have hcount := hafter t.repoId
    rw [highs_snoc, if_pos ⟨rfl, hhigh, hlive⟩] at hcount
    exact hcount
  · intro hroom repoId
    rw [highs_snoc]
    have hcount := h repoId
    split_ifs with ht
    · have := hroom ht.2.1 ht.2.2
      rwa [ht.1] at this
    · exact hcount

theorem not_queued_iff : s.queued id = false ↔ ∀ t ∈ s.queue, t.id ≠ id := by
  simp [Ranks.queued]

/-- A fresh id may be appended to either of two lists without a repetition. -/
theorem nodup_snoc {ids ids' : List TicketId} (h : (ids ++ ids').Nodup) (hid : id ∉ ids ++ ids') :
    (ids ++ [id] ++ ids').Nodup ∧ (ids ++ (ids' ++ [id])).Nodup := by
  have hcons : (id :: (ids ++ ids')).Nodup := List.nodup_cons.2 ⟨hid, h⟩
  constructor
  · have hperm : (ids ++ id :: ids').Perm (id :: (ids ++ ids')) := List.perm_middle
    simpa using hperm.nodup_iff.2 hcons
  · rw [← List.append_assoc]
    exact (List.perm_append_singleton id (ids ++ ids')).nodup_iff.2 hcons

theorem not_mem_filter_ids (l : List RankedTicket) :
    id ∉ (l.filter fun t => t.id ≠ id).map RankedTicket.id := by
  simp

/-- Records leave and supervisors die. -/
theorem ranked_of_sublist (h : Ranked s) (hcap : s.HighCapped cap)
    (hqueue : s'.queue.Sublist s.queue) (hparked : s'.parked.Sublist s.parked)
    (hcopies : s'.copies = s.copies)
    (halive : ∀ supervisor, s'.alive supervisor = true → s.alive supervisor = true) :
    Ranked s' ∧ s'.HighCapped cap := by
  have hsub := hqueue.append hparked
  refine ⟨⟨h.ids.sublist (hsub.map _), fun t ht => h.asked t (hsub.subset ht), ?_⟩,
    fun repoId => (highs_le hqueue halive).trans (hcap repoId)⟩
  rw [hcopies]
  exact h.copies

/-! The operations. -/

theorem ranked_enqueue {supervisor : ℕ} {requested : Option Tier} {owner : Option ℕ}
    (h : Ranked s) (hcap : s.HighCapped cap)
    (hnext : s.enqueue cap id repoId supervisor requested owner = some s') :
    Ranked s' ∧ s'.HighCapped cap := by
  unfold Ranks.enqueue at hnext
  split_ifs at hnext with hexisting
  · exact Option.some.inj hnext ▸ ⟨h, hcap⟩
  · obtain rfl := Option.some.inj hnext
    simp only [Ranks.existingTicket, Bool.or_eq_true, not_or, Bool.not_eq_true] at hexisting
    obtain ⟨⟨⟨⟨hqueued, hparked⟩, -⟩, -⟩, -⟩ := hexisting
    refine ⟨⟨?_, ?_, h.copies⟩, ?_⟩
    · have hfresh : id ∉ (s.queue ++ s.parked).map RankedTicket.id := by
        intro hmem
        obtain ⟨t, ht, hid⟩ := List.mem_map.1 hmem
        rcases List.mem_append.1 ht with ht | ht
        · exact not_queued_iff.1 hqueued t ht hid
        · simp only [List.any_eq_false, decide_eq_true_eq] at hparked
          exact hparked t ht hid
      have hids := h.ids
      rw [List.map_append] at hids hfresh
      simpa using (nodup_snoc hids hfresh).1
    · intro t ht hhigh
      simp only [List.mem_append, List.mem_singleton] at ht
      rcases ht with (ht | rfl) | ht
      · exact h.asked t (List.mem_append_left _ ht) hhigh
      · exact (of_admitTier_high hhigh).1
      · exact h.asked t (List.mem_append_right _ ht) hhigh
    · refine (highCapped_snoc_iff hcap s.parked).2 fun hhigh _ => ?_
      have hroom := (of_admitTier_high hhigh).2
      rw [h.highs_eq]
      simpa using hroom

/-- The ids stay where a record is rewritten under its own id. -/
theorem map_ids {f : RankedTicket → RankedTicket} (hf : ∀ t, (f t).id = t.id)
    (l : List RankedTicket) : (l.map f).map RankedTicket.id = l.map RankedTicket.id := by
  rw [List.map_map]
  exact List.map_congr_left fun t _ => hf t

/-- One record at most has a given id. -/
theorem Ranked.countP_id_le (h : Ranked s) (id : TicketId) :
    s.queue.countP (fun t => t.id = id) ≤ 1 := by
  have hcount := List.nodup_iff_count_le_one.1 h.queue_ids id
  rw [List.count, List.countP_map] at hcount
  exact (List.countP_mono_left fun t _ ht => by simpa using ht).trans hcount

theorem Ranked.eq_of_id (h : Ranked s) {u : RankedTicket} (ht : t ∈ s.queue) (hu : u ∈ s.queue)
    (hid : t.id = u.id) : t = u :=
  List.inj_on_of_nodup_map h.queue_ids ht hu hid

theorem ranked_retier {tier : Tier} (h : Ranked s) (hcap : s.HighCapped cap)
    (hnext : s.retierQueued cap id tier = some s') : Ranked s' ∧ s'.HighCapped cap := by
  unfold Ranks.retierQueued at hnext
  split_ifs at hnext
  split at hnext
  · cases hnext
  · rename_i record hrecord
    split_ifs at hnext
    obtain rfl := Option.some.inj hnext
    have hmem := List.mem_of_find?_eq_some hrecord
    have hid : record.id = id := by simpa using List.find?_some hrecord
    refine ⟨⟨?_, ?_, h.copies⟩, fun repoId => ?_⟩
    · have hids := h.ids
      rw [List.map_append] at hids ⊢
      rwa [map_ids fun t => by split_ifs <;> rfl]
    · intro t ht hhigh
      rcases List.mem_append.1 ht with ht | ht
      · obtain ⟨u, hu, rfl⟩ := List.mem_map.1 ht
        split_ifs at hhigh ⊢ with hid
        · exact (of_admitTier_high hhigh).1
        · exact h.asked u (List.mem_append_left _ hu) hhigh
      · exact h.asked t (List.mem_append_right _ ht) hhigh
    · simp only [Ranks.highs, List.countP_map]
      by_cases hhigh : (s.admitTier record.repoId tier cap (some id)).1 = .high ∧
          repoId = record.repoId
      · -- the others of its repository are fewer than the cap
        obtain ⟨hhigh, rfl⟩ := hhigh
        have hothers := (of_admitTier_high hhigh).2
        have hone := h.countP_id_le id
        refine le_trans (countP_le_add s.queue fun t ht hcount => ?_)
          ((Nat.add_le_add_left hone _).trans hothers)
        simp only [Function.comp_apply] at hcount
        split_ifs at hcount with htid
        · exact .inr (decide_eq_true htid)
        · have hne : some t.id ≠ some id := fun heq => htid (Option.some.inj heq)
          simp only [Ranks.liveHigh, Bool.and_eq_true, decide_eq_true_eq] at hcount
          refine .inl ?_
          simp only [Ranks.queuedHigh, Bool.and_eq_true, decide_eq_true_eq]
          exact ⟨hne, ⟨⟨hcount.1.1, h.asked t (List.mem_append_left _ ht) hcount.1.2⟩,
            hcount.1.2⟩, hcount.2⟩
      · -- it is no high of the repository, so no more are counted than before
        refine (List.countP_mono_left fun t ht hcount => ?_).trans (hcap repoId)
        simp only [Function.comp_apply] at hcount
        split_ifs at hcount with htid
        · obtain rfl := h.eq_of_id ht hmem (htid.trans hid.symm)
          simp only [Ranks.liveHigh, Bool.and_eq_true, decide_eq_true_eq] at hcount
          exact absurd ⟨hcount.1.2, hcount.1.1.symm⟩ hhigh
        · exact hcount

theorem ranked_withdraw (h : Ranked s) (hcap : s.HighCapped cap)
    (hnext : s.withdrawQueued id = some s') : Ranked s' ∧ s'.HighCapped cap := by
  unfold Ranks.withdrawQueued at hnext
  split_ifs at hnext
  obtain ⟨record, hrecord, rfl⟩ := Option.map_eq_some_iff.1 hnext
  have hmem := List.mem_of_find?_eq_some hrecord
  have hid : record.id = id := by simpa using List.find?_some hrecord
  have hasked := h.asked record (List.mem_append_left _ hmem)
  have hsub : (s.queue.filter fun t => t.id ≠ id).Sublist s.queue := List.filter_sublist
  refine ⟨⟨?_, ?_, ?_⟩, fun repoId => le_trans ?_ (hcap repoId)⟩
  · have hids := h.ids
    rw [List.map_append] at hids
    have hfresh : record.id ∉ (s.queue.filter fun t => t.id ≠ id).map RankedTicket.id ++
        s.parked.map RankedTicket.id := by
      intro hin
      rcases List.mem_append.1 hin with hin | hin
      · exact not_mem_filter_ids s.queue (hid ▸ hin)
      · exact (List.nodup_append.1 hids).2.2 _ (List.mem_map_of_mem hmem) _ hin rfl
    simpa using (nodup_snoc (hids.sublist ((hsub.map _).append_right _)) hfresh).2
  · intro t ht
    simp only [List.mem_append, List.mem_singleton] at ht
    rcases ht with ht | ht | rfl
    · exact h.asked t (List.mem_append_left _ (hsub.subset ht))
    · exact h.asked t (List.mem_append_right _ ht)
    · exact hasked
  · intro i t ht
    dsimp only at ht
    by_cases hi : i = id
    · subst hi
      rw [Function.update_self] at ht
      exact Option.some.inj ht ▸ hasked
    · rw [Function.update_of_ne hi] at ht
      exact h.copies i t ht
  · exact highs_le hsub fun _ h => h

theorem restored_id : (s.restored record).id = record.id := by
  unfold Ranks.restored
  cases hfind : s.parked.find? fun t => t.id = record.id with
  | none => rfl
  | some t => simpa using List.find?_some hfind

/-- **A restore keeps the cap exactly when there is room for what it puts back.** -/
theorem restore_keeps_iff (hcap : s.HighCapped cap) :
    (s.restoreLocked record).HighCapped cap ↔ s.RoomFor cap record := by
  unfold Ranks.restoreLocked Ranks.RoomFor
  cases hqueued : s.queued record.id with
  | true => simp [hcap]
  | false => simpa using highCapped_snoc_iff hcap _

theorem ranked_restore (h : Ranked s)
    (hrecord : record.priorityAdmitted = .high → record.priorityRequested = .high) :
    Ranked (s.restoreLocked record) := by
  unfold Ranks.restoreLocked
  cases hqueued : s.queued record.id with
  | true => simpa using h
  | false =>
    have hsub : (s.parked.filter fun t => t.id ≠ record.id).Sublist s.parked :=
      List.filter_sublist
    simp only [Bool.false_eq_true, if_false]
    refine ⟨?_, ?_, h.copies⟩
    · have hids := h.ids
      rw [List.map_append] at hids
      have hfresh : (s.restored record).id ∉ s.queue.map RankedTicket.id ++
          (s.parked.filter fun t => t.id ≠ record.id).map RankedTicket.id := by
        rw [restored_id]
        intro hin
        rcases List.mem_append.1 hin with hin | hin
        · obtain ⟨t, ht, hid⟩ := List.mem_map.1 hin
          exact not_queued_iff.1 hqueued t ht hid
        · exact not_mem_filter_ids s.parked hin
      simpa using (nodup_snoc (hids.sublist ((hsub.map _).append_left _)) hfresh).1
    · intro t ht
      simp only [List.mem_append, List.mem_singleton] at ht
      rcases ht with (ht | rfl) | ht
      · exact h.asked t (List.mem_append_left _ ht)
      · unfold Ranks.restored
        cases hfind : s.parked.find? fun t => t.id = record.id with
        | none => exact hrecord
        | some t => exact h.asked t (List.mem_append_right _ (List.mem_of_find?_eq_some hfind))
      · exact h.asked t (List.mem_append_right _ (hsub.subset ht))

/-- Who is parked is known to the list, so it is the record of the list. -/
theorem restored_eq (hparked : ∀ t ∈ s.parked, t.id = record.id → t = record) :
    s.restored record = record := by
  unfold Ranks.restored
  cases hfind : s.parked.find? fun t => t.id = record.id with
  | none => rfl
  | some t =>
    exact hparked t (List.mem_of_find?_eq_some hfind) (by simpa using List.find?_some hfind)

/-- One record of the loop: nothing with a live supervisor is put back. -/
theorem ranked_recoverOne (h : Ranked s) (hcap : s.HighCapped cap)
    (hrecord : record.priorityAdmitted = .high → record.priorityRequested = .high)
    (hparked : ∀ t ∈ s.parked, t.id = record.id → t = record) :
    (Ranked (s.recoverOne record) ∧ (s.recoverOne record).HighCapped cap) ∧
      (s.recoverOne record).parked ⊆ s.parked := by
  unfold Ranks.recoverOne
  split_ifs with halive
  · exact ⟨⟨h, hcap⟩, fun _ => id⟩
  · refine ⟨ranked_of_sublist h hcap (List.Sublist.refl _) List.filter_sublist rfl fun _ h => h,
      ?_⟩
    exact List.filter_sublist.subset
  · refine ⟨⟨ranked_restore h hrecord, (restore_keeps_iff hcap).2 fun _ _ hlive => ?_⟩, ?_⟩
    · rw [restored_eq hparked] at hlive
      exact absurd hlive halive
    · unfold Ranks.restoreLocked
      split_ifs
      · exact fun _ => id
      · exact List.filter_sublist.subset

theorem ranked_recover (records : List RankedTicket) (h : Ranked s) (hcap : s.HighCapped cap)
    (hrecords : ∀ record ∈ records,
      record.priorityAdmitted = .high → record.priorityRequested = .high)
    (hparked : ∀ record ∈ records, ∀ t ∈ s.parked, t.id = record.id → t = record) :
    Ranked (records.foldl Ranks.recoverOne s) ∧
      (records.foldl Ranks.recoverOne s).HighCapped cap := by
  induction records generalizing s with
  | nil => exact ⟨h, hcap⟩
  | cons record records ih =>
    obtain ⟨⟨hone, hcapped⟩, hsub⟩ := ranked_recoverOne h hcap
      (hrecords record (List.mem_cons_self ..)) (hparked record (List.mem_cons_self ..))
    exact ih hone hcapped (fun r hr => hrecords r (List.mem_cons_of_mem _ hr))
      fun r hr t ht => hparked r (List.mem_cons_of_mem _ hr) t (hsub ht)

/-- **Every step keeps the cap**, a restore where there is room. -/
theorem ranked_next (h : Ranked s) (hcap : s.HighCapped cap) {a : RankAct}
    (hok : RestoresWithRoom cap s a) (hnext : s.next cap a = some s') :
    Ranked s' ∧ s'.HighCapped cap := by
  cases a with
  | enqueue id repoId supervisor requested owner => exact ranked_enqueue h hcap hnext
  | retier id tier => exact ranked_retier h hcap hnext
  | withdraw id => exact ranked_withdraw h hcap hnext
  | restore id =>
    obtain ⟨record, hrecord, rfl⟩ := Option.map_eq_some_iff.1 hnext
    exact ⟨ranked_restore h (h.copies id record hrecord),
      (restore_keeps_iff hcap).2 (hok record hrecord)⟩
  | discard id =>
    obtain rfl := Option.some.inj hnext
    exact ranked_of_sublist h hcap (List.Sublist.refl _) List.filter_sublist rfl fun _ h => h
  | recover =>
    obtain rfl := Option.some.inj hnext
    refine ranked_recover s.parked h hcap
      (fun record hrecord => h.asked record (List.mem_append_right _ hrecord))
      fun record hrecord t ht hid => ?_
    have hids := h.ids
    rw [List.map_append] at hids
    exact List.inj_on_of_nodup_map (List.nodup_append.1 hids).2.1 ht hrecord hid
  | start id =>
    simp only [Ranks.next] at hnext
    split_ifs at hnext
    obtain rfl := Option.some.inj hnext
    exact ranked_of_sublist h hcap List.filter_sublist (List.Sublist.refl _) rfl fun _ h => h
  | dequeue id =>
    obtain rfl := Option.some.inj hnext
    exact ranked_of_sublist h hcap List.filter_sublist (List.Sublist.refl _) rfl fun _ h => h
  | die supervisor =>
    obtain rfl := Option.some.inj hnext
    refine ranked_of_sublist h hcap (List.Sublist.refl _) (List.Sublist.refl _) rfl
      fun i hi => ?_
    by_cases hsame : i = supervisor
    · simp [hsame] at hi
    · simpa [Function.update_of_ne hsame] using hi
  | world w =>
    obtain rfl := Option.some.inj hnext
    exact ranked_of_sublist h hcap (List.Sublist.refl _) (List.Sublist.refl _) rfl fun _ h => h

end Steps

/-- **In every run in which no restore puts back a live high where its repository is at the cap,
the cap holds in every state.** -/
theorem high_capped (cap : ℕ) (s : Ranks) (h : (ranks cap).Reach (RestoresWithRoom cap) s) :
    s.HighCapped cap := by
  refine (h.invariant (P := fun s => Ranked s ∧ s.HighCapped cap) ?_
    fun s a s' hs hok hnext => ranked_next hs.1 hs.2 hok hnext).2
  rintro s ⟨hqueue, hparked, hcopies⟩
  refine ⟨⟨by simp [hqueue, hparked], by simp [hqueue, hparked], by simp [hcopies]⟩, ?_⟩
  simp [Ranks.HighCapped, Ranks.highs, hqueue]

/-- A parked high comes back before another one is admitted, and that one is demoted. -/
def backInTime : List RankAct :=
  [.enqueue 1 0 10 (some .high) none, .withdraw 1, .restore 1,
    .enqueue 2 0 20 (some .high) none]

/-- The condition along it, as a check. -/
def roomCheck (cap : ℕ) (s : Ranks) : RankAct → Bool
  | .restore id => (s.copies id).all fun record => decide (s.highs (s.restored record).repoId < cap)
  | _ => true

theorem high_capped_backInTime : ∃ s, (ranks 1).Reach (RestoresWithRoom 1) s ∧
    s.queue.map RankedTicket.priorityAdmitted = [.high, .medium] ∧ s.HighCapped 1 := by
  have hroom : (ranks 1).Along (RestoresWithRoom 1) {} backInTime := by
    refine Machine.along_of_check (roomCheck 1) (fun s a ha => ?_) backInTime (by decide)
    cases a with
    | restore id =>
      intro record hrecord _ _ _
      simpa [roomCheck, hrecord] using ha
    | _ => trivial
  obtain ⟨s, hs, hp⟩ := (ranks 1).exists_reach_of_exec {} backInTime
    (fun s => s.queue.map RankedTicket.priorityAdmitted = [.high, .medium])
    ⟨rfl, rfl, fun _ => rfl⟩ hroom (by decide)
  exact ⟨s, hs, of_decide_eq_true hp, high_capped 1 s hs⟩

/-- A parked high comes back after another one was admitted. -/
def backTooLate : List RankAct :=
  [.enqueue 1 0 10 (some .high) none, .withdraw 1, .enqueue 2 0 20 (some .high) none, .restore 1]

/-- **Two highs with a cap of one.** -/
theorem not_forall_highCapped :
    ¬ ∀ (cap : ℕ) (s : Ranks), (ranks cap).Reach (fun _ _ => True) s → s.HighCapped cap := by
  intro hall
  have hany : (ranks 1).Along (fun _ _ => True) {} backTooLate :=
    Machine.along_of_forall (fun _ _ => trivial) backTooLate _
  obtain ⟨s, hs, hp⟩ := (ranks 1).exists_reach_of_exec {} backTooLate (fun s => s.highs 0 = 2)
    ⟨rfl, rfl, fun _ => rfl⟩ hany (by decide)
  have hcap := hall 1 s hs 0
  rw [of_decide_eq_true hp] at hcap
  exact absurd hcap (by decide)

end Scheduler
end LaneBroker
