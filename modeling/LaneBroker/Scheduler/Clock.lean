/-
# Aging on the priority clock

`priority-clock.js`, the checks of `validatePriorityConfig` and what they are for: with the weights
and periods that the checks let through, a ticket that is not high stays below every high until the
starvation horizon, no score goes down as long as the tier stays, and at the horizon only an earlier
ticket is ahead.

The clock is a mark in a file.  The queue over time is a machine (`lineMachine`): tickets are
enqueued, leave, are parked for a rebind and restored, are given another tier; a record becomes
unreadable and readable again; and any reading of the wall clock may come next.  The names of the
queue directory start with `seq` in twelve digits, so their order is the order of `seq`.
-/

import LaneBroker.Basis.Machine
import LaneBroker.Scheduler.Priority

namespace LaneBroker
namespace Scheduler

open LaneBroker.Basis LaneBroker.Basis.Barrier

/-! ### The checks -/

/-- **`validatePriorityConfig`**, as far as the score goes. -/
structure PriorityConfigValid (cfg : Config) : Prop where
  aging_min : 60000 ≤ cfg.priorityAgingMs
  aging_max : cfg.priorityAgingMs ≤ 3600000
  ageMax_min : cfg.priorityAgingMs ≤ cfg.priorityAgeMaxMs
  ageMax_max : cfg.priorityAgeMaxMs ≤ 86400000
  tier_min : 1 / 100 ≤ cfg.priorityWeights.tier
  tier_max : cfg.priorityWeights.tier ≤ 100
  age_min : 1 / 100 ≤ cfg.priorityWeights.age
  age_max : cfg.priorityWeights.age ≤ 100
  /-- The weights are numbers of the program. -/
  tier_double : double.round cfg.priorityWeights.tier = cfg.priorityWeights.tier
  age_double : double.round cfg.priorityWeights.age = cfg.priorityWeights.age
  tier_le_age : cfg.priorityWeights.tier ≤ cfg.priorityWeights.age

/-! ### What a score is worth -/

section Score

variable {cfg : Config} {t u : Ticket} {now now' nowEff : ℤ}

theorem PriorityConfigValid.tier_pos (h : PriorityConfigValid cfg) :
    0 < cfg.priorityWeights.tier := by
  have := h.tier_min
  linarith

theorem PriorityConfigValid.age_pos (h : PriorityConfigValid cfg) :
    0 < cfg.priorityWeights.age := by
  have := h.age_min
  linarith

theorem PriorityConfigValid.ageMax_pos (h : PriorityConfigValid cfg) :
    0 < cfg.priorityAgeMaxMs := by
  have := h.aging_min
  have := h.ageMax_min
  omega

theorem waitedMs_nonneg (t : Ticket) (nowEff : ℤ) : 0 ≤ waitedMs t nowEff := le_max_left _ _

theorem creditedWaitMs_nonneg (t : Ticket) (nowEff : ℤ) : 0 ≤ creditedWaitMs t nowEff := by
  unfold creditedWaitMs
  split_ifs
  · exact le_rfl
  · exact waitedMs_nonneg t nowEff

theorem creditedWaitMs_le_waitedMs (t : Ticket) (nowEff : ℤ) :
    creditedWaitMs t nowEff ≤ waitedMs t nowEff := by
  unfold creditedWaitMs
  split_ifs
  · exact waitedMs_nonneg t nowEff
  · exact le_rfl

/-- Time waited only grows on a clock that does not go back. -/
theorem waitedMs_mono (h : now ≤ now') : waitedMs t now ≤ waitedMs t now' := by
  unfold waitedMs originOrNow
  cases t.prioOriginAt with
  | none => simp
  | some origin => grind

theorem creditedWaitMs_mono (h : now ≤ now') : creditedWaitMs t now ≤ creditedWaitMs t now' := by
  unfold creditedWaitMs
  split_ifs
  · exact le_rfl
  · exact waitedMs_mono h

theorem double_round_mono {p q : ℚ} (h : p ≤ q) : double.round p ≤ double.round q :=
  Format.round_mono (by decide) h

/-- What is left of the full score where a ticket is held below it. -/
theorem aged_share : 0 ≤ double.round (1 - agedCeilingEpsilon) ∧
    double.round (1 - agedCeilingEpsilon) ≤ 991 / 1000 := by
  decide +kernel

/-- **A ticket that is held below the full score stays below it**: the rounding is much smaller
than what is taken away. -/
theorem aged_ceiling_lt (h : PriorityConfigValid cfg) :
    double.round (cfg.priorityWeights.tier * double.round (1 - agedCeilingEpsilon)) <
      cfg.priorityWeights.tier := by
  have hmin := h.tier_min
  have hpos := h.tier_pos
  obtain ⟨hshare, hle⟩ := aged_share
  have hoff := (abs_le.1 (Format.abs_round_sub_le (f := double)
    (cfg.priorityWeights.tier * double.round (1 - agedCeilingEpsilon)))).2
  rw [abs_of_nonneg (mul_nonneg hpos.le hshare)] at hoff
  have hproduct := mul_le_mul_of_nonneg_left hle hpos.le
  have hbits : (2 : ℚ) ^ (-double.bits : ℤ) ≤ 1 / 1000 := by
    decide +kernel
  have hleast : (2 : ℚ) ^ (double.least - 1) ≤ 1 / 1000000 := by
    refine (zpow_le_zpow_right₀ (by norm_num) (show double.least - 1 ≤ -20 by decide)).trans ?_
    norm_num
  have hlast := mul_le_mul hproduct hbits (by positivity) (by positivity)
  linarith

theorem scoreCeiling_le_tier (h : PriorityConfigValid cfg) :
    scoreCeiling t nowEff cfg ≤ cfg.priorityWeights.tier := by
  unfold scoreCeiling
  split_ifs
  · exact le_rfl
  · exact (aged_ceiling_lt h).le

theorem score_le_tier (h : PriorityConfigValid cfg) :
    score t nowEff cfg ≤ cfg.priorityWeights.tier :=
  (min_le_left _ _).trans (scoreCeiling_le_tier h)

theorem ageFactor_nonneg (h : PriorityConfigValid cfg) (t : Ticket) (nowEff : ℤ) :
    (0 : ℚ) ≤
      min 1 (double.round ((creditedWaitMs t nowEff : ℚ) / cfg.priorityAgeMaxMs)) := by
  have hwait : (0 : ℚ) ≤ creditedWaitMs t nowEff := by exact_mod_cast creditedWaitMs_nonneg t nowEff
  have hmax : (0 : ℚ) < cfg.priorityAgeMaxMs := by exact_mod_cast h.ageMax_pos
  exact le_min zero_le_one (Format.round_nonneg (div_nonneg hwait hmax.le))

/-- **An admitted high has the full score**, whenever it came. -/
theorem score_of_high (h : PriorityConfigValid cfg)
    (hhigh : priorityOf u.priorityAdmitted = .high) :
    score u nowEff cfg = cfg.priorityWeights.tier := by
  have hage := mul_nonneg h.age_pos.le (ageFactor_nonneg h u nowEff)
  have hfull : (tierBase Tier.high / maxBase : ℚ) = 1 := by
    norm_num [tierBase, maxBase]
  unfold score scoreCeiling scoreEarned
  rw [if_pos (.inl hhigh), hhigh]
  refine min_eq_left ?_
  simp only [hfull, mul_one, h.tier_double]
  conv_lhs => rw [← h.tier_double]
  refine double_round_mono ?_
  have := Format.round_nonneg (f := double) hage
  linarith

/-- **Below the horizon a ticket that is not high stays below the full score.** -/
theorem score_lt_of_not_high (h : PriorityConfigValid cfg)
    (hnot : priorityOf t.priorityAdmitted ≠ .high)
    (hwait : creditedWaitMs t nowEff < starvationHorizonMs cfg) :
    score t nowEff cfg < cfg.priorityWeights.tier := by
  refine (min_le_left _ _).trans_lt ?_
  unfold scoreCeiling
  rw [if_neg (not_or.2 ⟨hnot, not_le.2 hwait⟩)]
  exact aged_ceiling_lt h

/-- **A ticket at the horizon has the full score**, whatever its tier: age weighs as much as the
tier. -/
theorem score_at_horizon (h : PriorityConfigValid cfg)
    (hwait : starvationHorizonMs cfg ≤ creditedWaitMs t nowEff) :
    score t nowEff cfg = cfg.priorityWeights.tier := by
  have hmax : (0 : ℚ) < cfg.priorityAgeMaxMs := by exact_mod_cast h.ageMax_pos
  have hfull : (cfg.priorityAgeMaxMs : ℚ) ≤ creditedWaitMs t nowEff := by
    have hmaxInt := h.ageMax_pos
    unfold starvationHorizonMs at hwait
    have hle : cfg.priorityAgeMaxMs ≤ creditedWaitMs t nowEff := by omega
    exact_mod_cast hle
  have hone : double.round 1 = 1 := by
    decide +kernel
  have hfactor :
      min (1 : ℚ) (double.round ((creditedWaitMs t nowEff : ℚ) / cfg.priorityAgeMaxMs)) = 1 := by
    refine min_eq_left ?_
    rw [← hone]
    exact double_round_mono ((one_le_div hmax).2 hfull)
  have htier : (0 : ℚ) ≤ tierBase (priorityOf t.priorityAdmitted) / maxBase := by positivity
  have htierPart := Format.round_nonneg (f := double) (mul_nonneg h.tier_pos.le htier)
  have hle := h.tier_le_age
  unfold score scoreCeiling scoreEarned
  rw [if_pos (.inr hwait)]
  refine min_eq_left ?_
  simp only [hfactor, mul_one, h.age_double]
  conv_lhs => rw [← h.tier_double]
  refine double_round_mono ?_
  linarith

/-- A ticket at the horizon has waited long enough to go by `seq` among the tests. -/
theorem simRank_at_horizon (h : PriorityConfigValid cfg) (simsAfterTests : Bool)
    (hwait : starvationHorizonMs cfg ≤ creditedWaitMs t nowEff) :
    simRank nowEff cfg simsAfterTests t = 0 := by
  have hmax := h.ageMax_pos
  have hle := creditedWaitMs_le_waitedMs t nowEff
  unfold starvationHorizonMs at hwait
  unfold simRank
  rw [if_neg]
  rintro ⟨-, -, hlt⟩
  omega

/-- **No score goes down** on a clock that does not go back, while the tier stays. -/
theorem score_mono (h : PriorityConfigValid cfg) (hnow : now ≤ now') (hage : t.aging = u.aging)
    (hexclusive : t.exclusive = u.exclusive) (horigin : t.prioOriginAt = u.prioOriginAt)
    (htier : priorityOf t.priorityAdmitted = priorityOf u.priorityAdmitted) :
    score t now cfg ≤ score u now' cfg := by
  have hcredit : creditedWaitMs t now ≤ creditedWaitMs u now' := by
    have hsame : creditedWaitMs u now' = creditedWaitMs t now' := by
      unfold creditedWaitMs waitedMs
      rw [hage, hexclusive, horigin]
    rw [hsame]
    exact creditedWaitMs_mono hnow
  have hmax : (0 : ℚ) < cfg.priorityAgeMaxMs := by exact_mod_cast h.ageMax_pos
  refine min_le_min ?_ ?_
  · unfold scoreCeiling
    rw [htier]
    by_cases hu : priorityOf u.priorityAdmitted = .high ∨
        starvationHorizonMs cfg ≤ creditedWaitMs u now'
    · rw [if_pos hu]
      split_ifs
      · exact le_rfl
      · exact (aged_ceiling_lt h).le
    · rw [if_neg hu, if_neg]
      rintro (hhigh | hwait)
      · exact hu (.inl hhigh)
      · exact hu (.inr (hwait.trans hcredit))
  · unfold scoreEarned
    rw [htier]
    have hcast : (creditedWaitMs t now : ℚ) ≤ creditedWaitMs u now' := by exact_mod_cast hcredit
    have hfactor := min_le_min_left (1 : ℚ)
      (double_round_mono (div_le_div_of_nonneg_right hcast hmax.le))
    have hagePart := double_round_mono (mul_le_mul_of_nonneg_left hfactor h.age_pos.le)
    refine double_round_mono ?_
    linarith

end Score

/-! ### The clock and the queue over time -/

/-- **`advanceHwm`**: what it returns. -/
def advanceHwm (stored wallNow : ℤ) : ℤ := if wallNow ≤ stored then stored else wallNow

/-- What is in the file behind `advanceHwm`: a write that fails leaves the mark where it was. -/
def markAfter (stored wallNow : ℤ) (writes : Bool) : ℤ :=
  if wallNow ≤ stored then stored else if writes then wallNow else stored

theorem le_advanceHwm (stored wallNow : ℤ) : stored ≤ advanceHwm stored wallNow := by
  unfold advanceHwm
  split_ifs <;> omega

theorem le_markAfter (stored wallNow : ℤ) (writes : Bool) :
    stored ≤ markAfter stored wallNow writes := by
  unfold markAfter
  split_ifs <;> omega

/-- The mark is what was returned, unless its write failed. -/
theorem markAfter_true (stored wallNow : ℤ) :
    markAfter stored wallNow true = advanceHwm stored wallNow := rfl

/-- **The queue over time**: the mark, the counter, the queue in the order of its names, and what
is parked for a rebind. -/
structure Line where
  hwm : ℤ := 0
  seq : ℕ := 0
  queue : List QueueRecord := []
  parked : List QueueRecord := []

/-- What `listQueue` returns. -/
def Line.rawQueue (s : Line) : List (Option Ticket) :=
  s.queue.map QueueRecord.read

/-- What happens to the queue. -/
inductive LineEvent
  /-- An evaluation reads the clock, and the mark is written or its write fails. -/
  | reads (wallNow : ℤ) (writes : Bool)
  | enqueues (ticket : Ticket) (wallNow : ℤ) (writes : Bool)
  /-- A ticket starts, or is cancelled, expired or reaped. -/
  | leaves (seq : ℕ)
  | parks (seq : ℕ)
  | restores (seq : ℕ)
  /-- `retierQueued`. -/
  | retiers (seq : ℕ) (requested admitted : Tier)
  /-- A record becomes unreadable, or readable again. -/
  | turns (seq : ℕ) (readable : Bool)

/-- The order of the names. -/
def QueueRecord.before (a b : QueueRecord) : Prop := a.ticket.seq ≤ b.ticket.seq

instance : DecidableRel QueueRecord.before := fun _ _ => inferInstanceAs (Decidable (_ ≤ _))

/-- The record that `enqueue` writes. -/
def enqueued (s : Line) (ticket : Ticket) (wallNow : ℤ) : Ticket :=
  { ticket with
    seq := s.seq + 1
    prioOriginAt := some (originOrNow ticket.prioOriginAt (advanceHwm s.hwm wallNow)) }

/-- A change of one record. -/
def changeAt (seq : ℕ) (f : QueueRecord → QueueRecord) (queue : List QueueRecord) :
    List QueueRecord :=
  queue.map fun r => if r.ticket.seq = seq then f r else r

/-- **One step of the queue.** -/
def Line.next (s : Line) : LineEvent → Line
  | .reads wallNow writes => { s with hwm := markAfter s.hwm wallNow writes }
  | .enqueues ticket wallNow writes =>
    { s with
      hwm := markAfter s.hwm wallNow writes
      seq := s.seq + 1
      queue := s.queue ++ [{ ticket := enqueued s ticket wallNow }] }
  | .leaves seq =>
    { s with
      queue := s.queue.filter fun r => r.ticket.seq != seq
      parked := s.parked.filter fun r => r.ticket.seq != seq }
  | .parks seq =>
    { s with
      queue := s.queue.filter fun r => r.ticket.seq != seq
      parked := s.parked ++ s.queue.filter fun r => r.ticket.seq == seq }
  | .restores seq =>
    match s.parked.find? fun r => r.ticket.seq == seq with
    | none => s
    | some r =>
      { s with
        queue := s.queue.orderedInsert QueueRecord.before r
        parked := s.parked.filter fun r => r.ticket.seq != seq }
  | .retiers seq requested admitted =>
    { s with
      queue := changeAt seq (fun r =>
        { r with
          ticket :=
            { r.ticket with
              priorityRequested := some requested
              priorityAdmitted := some admitted } }) s.queue }
  | .turns seq readable =>
    { s with queue := changeAt seq (fun r => { r with readable }) s.queue }

/-- **The machine of the queue**, from an empty queue and any mark. -/
def lineMachine : Machine Line LineEvent where
  start s := s.queue = [] ∧ s.parked = []
  next s e := some (s.next e)

/-- The runs that go on from a state. -/
def lineFrom (s : Line) : Machine Line LineEvent := { lineMachine with start := (· = s) }

/-! ### The queue stays in order -/

/-- **Order in the queue**: every seq once, none above the counter, the queue upward. -/
structure Line.Orderly (s : Line) : Prop where
  sorted : s.queue.Pairwise fun a b => a.ticket.seq < b.ticket.seq
  parked_once : s.parked.Pairwise fun a b => a.ticket.seq ≠ b.ticket.seq
  apart : ∀ a ∈ s.queue, ∀ b ∈ s.parked, a.ticket.seq ≠ b.ticket.seq
  queue_le : ∀ r ∈ s.queue, r.ticket.seq ≤ s.seq
  parked_le : ∀ r ∈ s.parked, r.ticket.seq ≤ s.seq

/-- A change of a record that keeps its seq keeps the order. -/
theorem pairwise_changeAt {seq : ℕ} {f : QueueRecord → QueueRecord}
    (hf : ∀ r, (f r).ticket.seq = r.ticket.seq) {R : ℕ → ℕ → Prop} {queue : List QueueRecord}
    (h : queue.Pairwise fun a b => R a.ticket.seq b.ticket.seq) :
    (changeAt seq f queue).Pairwise fun a b => R a.ticket.seq b.ticket.seq := by
  refine h.map _ fun a b hab => ?_
  split_ifs <;> simpa only [hf] using hab

theorem mem_changeAt {seq : ℕ} {f : QueueRecord → QueueRecord} {queue : List QueueRecord}
    {r : QueueRecord} (h : r ∈ changeAt seq f queue) :
    ∃ r₀ ∈ queue, r = r₀ ∨ r = f r₀ := by
  obtain ⟨r₀, hr₀, rfl⟩ := List.mem_map.1 h
  refine ⟨r₀, hr₀, ?_⟩
  split_ifs
  · exact .inr rfl
  · exact .inl rfl

theorem Line.Orderly.changeAt {s : Line} (h : s.Orderly) (seq : ℕ) {f : QueueRecord → QueueRecord}
    (hf : ∀ r, (f r).ticket.seq = r.ticket.seq) :
    ({ s with queue := Scheduler.changeAt seq f s.queue } : Line).Orderly where
  sorted := pairwise_changeAt hf h.sorted
  parked_once := h.parked_once
  apart := by
    intro a ha b hb
    obtain ⟨a₀, ha₀, rfl | rfl⟩ := mem_changeAt ha
    · exact h.apart _ ha₀ b hb
    · rw [hf]
      exact h.apart _ ha₀ b hb
  queue_le := by
    intro r hr
    obtain ⟨r₀, hr₀, rfl | rfl⟩ := mem_changeAt hr
    · exact h.queue_le _ hr₀
    · rw [hf]
      exact h.queue_le _ hr₀
  parked_le := h.parked_le

instance : Std.Total QueueRecord.before := ⟨fun _ _ => le_total _ _⟩

instance : IsTrans QueueRecord QueueRecord.before := ⟨fun _ _ _ => le_trans⟩

/-- A record of another seq finds its place. -/
theorem sorted_orderedInsert {queue : List QueueRecord} {r : QueueRecord}
    (h : queue.Pairwise fun a b => a.ticket.seq < b.ticket.seq)
    (hr : ∀ a ∈ queue, a.ticket.seq ≠ r.ticket.seq) :
    (queue.orderedInsert QueueRecord.before r).Pairwise
      fun a b => a.ticket.seq < b.ticket.seq := by
  have hle : (queue.orderedInsert QueueRecord.before r).Pairwise QueueRecord.before :=
    List.Pairwise.orderedInsert r queue (h.imp fun hlt => Nat.le_of_lt hlt)
  have hne : (r :: queue).Pairwise fun a b => a.ticket.seq ≠ b.ticket.seq :=
    List.pairwise_cons.2 ⟨fun a ha => (hr a ha).symm, h.imp Nat.ne_of_lt⟩
  have hne' := hne.perm (List.perm_orderedInsert QueueRecord.before r queue).symm Ne.symm
  exact (hle.and hne').imp fun hab => lt_of_le_of_ne hab.1 hab.2

theorem Line.Orderly.next {s : Line} (h : s.Orderly) (e : LineEvent) : (s.next e).Orderly := by
  cases e with
  | reads wallNow writes => exact ⟨h.sorted, h.parked_once, h.apart, h.queue_le, h.parked_le⟩
  | enqueues ticket wallNow writes =>
    refine ⟨?_, h.parked_once, ?_, ?_, fun r hr => (h.parked_le r hr).trans (Nat.le_succ _)⟩
    · refine List.pairwise_append.2 ⟨h.sorted, List.pairwise_singleton _ _, fun a ha b hb => ?_⟩
      rw [List.mem_singleton.1 hb]
      exact Nat.lt_succ_of_le (h.queue_le a ha)
    · intro a ha b hb
      rcases List.mem_append.1 ha with ha | ha
      · exact h.apart a ha b hb
      · rw [List.mem_singleton.1 ha]
        exact Nat.ne_of_gt (Nat.lt_succ_of_le (h.parked_le b hb))
    · intro r hr
      rcases List.mem_append.1 hr with hr | hr
      · exact (h.queue_le r hr).trans (Nat.le_succ _)
      · rw [List.mem_singleton.1 hr]
        exact le_rfl
  | leaves seq =>
    exact ⟨h.sorted.filter _, h.parked_once.filter _,
      fun a ha b hb => h.apart a (List.mem_of_mem_filter ha) b (List.mem_of_mem_filter hb),
      fun r hr => h.queue_le r (List.mem_of_mem_filter hr),
      fun r hr => h.parked_le r (List.mem_of_mem_filter hr)⟩
  | parks seq =>
    refine ⟨h.sorted.filter _, ?_, ?_, fun r hr => h.queue_le r (List.mem_of_mem_filter hr), ?_⟩
    · refine List.pairwise_append.2 ⟨h.parked_once, (h.sorted.filter _).imp Nat.ne_of_lt,
        fun a ha b hb => ?_⟩
      exact (h.apart b (List.mem_of_mem_filter hb) a ha).symm
    · intro a ha b hb
      obtain ⟨ha, hne⟩ := List.mem_filter.1 ha
      rcases List.mem_append.1 hb with hb | hb
      · exact h.apart a ha b hb
      · obtain ⟨-, heq⟩ := List.mem_filter.1 hb
        rw [beq_iff_eq] at heq
        rw [bne_iff_ne] at hne
        rw [heq]
        exact hne
    · intro r hr
      rcases List.mem_append.1 hr with hr | hr
      · exact h.parked_le r hr
      · exact h.queue_le r (List.mem_of_mem_filter hr)
  | restores seq =>
    cases hfind : s.parked.find? fun r => r.ticket.seq == seq with
    | none =>
      simp only [Line.next, hfind]
      exact h
    | some r =>
      have hr : r ∈ s.parked := List.mem_of_find?_eq_some hfind
      have hseq : r.ticket.seq = seq := by simpa using List.find?_some hfind
      simp only [Line.next, hfind]
      refine ⟨sorted_orderedInsert h.sorted fun a ha => h.apart a ha r hr,
        h.parked_once.filter _, ?_, ?_, fun r' hr' => h.parked_le r' (List.mem_of_mem_filter hr')⟩
      · intro a ha b hb
        obtain ⟨hb, hne⟩ := List.mem_filter.1 hb
        rcases (List.mem_orderedInsert _).1 ha with rfl | ha
        · rw [bne_iff_ne] at hne
          rw [hseq]
          exact hne.symm
        · exact h.apart a ha b hb
      · intro a ha
        rcases (List.mem_orderedInsert _).1 ha with rfl | ha
        · exact h.parked_le _ hr
        · exact h.queue_le a ha
  | retiers seq requested admitted => exact h.changeAt seq fun _ => rfl
  | turns seq readable => exact h.changeAt seq fun _ => rfl

theorem orderly_of_reach {s : Line} (h : lineMachine.Reach (fun _ _ => True) s) : s.Orderly := by
  refine h.invariant ?_ fun s e s' hs _ hnext => Option.some.inj hnext ▸ hs.next e
  rintro s ⟨hqueue, hparked⟩
  constructor <;> simp [hqueue, hparked]

/-! ### What a later evaluation sees -/

/-- The same ticket as far as aging goes. -/
structure SameAging (t u : Ticket) : Prop where
  seq : t.seq = u.seq
  aging : t.aging = u.aging
  exclusive : t.exclusive = u.exclusive
  prioOriginAt : t.prioOriginAt = u.prioOriginAt

theorem SameAging.refl (t : Ticket) : SameAging t t := ⟨rfl, rfl, rfl, rfl⟩

theorem SameAging.trans {t u v : Ticket} (h : SameAging t u) (h' : SameAging u v) :
    SameAging t v :=
  ⟨h.seq.trans h'.seq, h.aging.trans h'.aging, h.exclusive.trans h'.exclusive,
    h.prioOriginAt.trans h'.prioOriginAt⟩

/-- Every record of the queue or parked. -/
def Line.records (s : Line) : List QueueRecord := s.queue ++ s.parked

/-- **Later**: neither the mark nor the counter went back, and a ticket that was there before has
the aging it had. -/
structure Later (s s' : Line) : Prop where
  hwm : s.hwm ≤ s'.hwm
  seq : s.seq ≤ s'.seq
  aging : ∀ r' ∈ s'.records, r'.ticket.seq ≤ s.seq → ∃ r ∈ s.records, SameAging r.ticket r'.ticket

theorem Later.refl (s : Line) : Later s s :=
  ⟨le_rfl, le_rfl, fun r hr _ => ⟨r, hr, .refl _⟩⟩

theorem Later.trans {s s' s'' : Line} (h : Later s s') (h' : Later s' s'') : Later s s'' := by
  refine ⟨h.hwm.trans h'.hwm, h.seq.trans h'.seq, fun r'' hr'' hle => ?_⟩
  obtain ⟨r', hr', hsame'⟩ := h'.aging r'' hr'' (hle.trans h.seq)
  obtain ⟨r, hr, hsame⟩ := h.aging r' hr' (hsame'.seq ▸ hle)
  exact ⟨r, hr, hsame.trans hsame'⟩

/-- A step that adds no record of an earlier seq leads later. -/
theorem Later.of_records {s s' : Line} (hhwm : s.hwm ≤ s'.hwm) (hseq : s.seq ≤ s'.seq)
    (h : ∀ r' ∈ s'.records, (∃ r ∈ s.records, SameAging r.ticket r'.ticket) ∨
      s.seq < r'.ticket.seq) : Later s s' := by
  refine ⟨hhwm, hseq, fun r' hr' hle => ?_⟩
  rcases h r' hr' with hold | hlt
  · exact hold
  · exact absurd hle (not_le.2 hlt)

theorem later_changeAt (s : Line) (seq : ℕ) {f : QueueRecord → QueueRecord}
    (hf : ∀ r, SameAging r.ticket (f r).ticket) :
    Later s { s with queue := changeAt seq f s.queue } := by
  refine .of_records le_rfl le_rfl fun r' hr' => .inl ?_
  rcases List.mem_append.1 hr' with hr' | hr'
  · obtain ⟨r, hr, rfl | rfl⟩ := mem_changeAt hr'
    · exact ⟨r', List.mem_append_left _ hr, .refl _⟩
    · exact ⟨r, List.mem_append_left _ hr, hf r⟩
  · exact ⟨r', List.mem_append_right _ hr', .refl _⟩

theorem later_next (s : Line) (e : LineEvent) : Later s (s.next e) := by
  have hsub : ∀ s' : Line, s'.hwm = s.hwm → s'.seq = s.seq →
      (∀ r' ∈ s'.records, r' ∈ s.records) → Later s s' := fun s' hhwm hseq h =>
    .of_records hhwm.ge hseq.ge fun r' hr' => .inl ⟨r', h r' hr', .refl _⟩
  cases e with
  | reads wallNow writes =>
    exact .of_records (le_markAfter s.hwm wallNow writes) le_rfl
      fun r' hr' => .inl ⟨r', hr', .refl _⟩
  | enqueues ticket wallNow writes =>
    refine .of_records (le_markAfter s.hwm wallNow writes) (Nat.le_succ _) fun r' hr' => ?_
    simp only [Line.next, Line.records, List.mem_append, List.mem_singleton] at hr'
    rcases hr' with (hr' | rfl) | hr'
    · exact .inl ⟨r', List.mem_append_left _ hr', .refl _⟩
    · exact .inr (Nat.lt_succ_self _)
    · exact .inl ⟨r', List.mem_append_right _ hr', .refl _⟩
  | leaves seq =>
    refine hsub _ rfl rfl fun r' hr' => ?_
    simp only [Line.next, Line.records, List.mem_append, List.mem_filter] at hr'
    exact List.mem_append.2 (hr'.imp And.left And.left)
  | parks seq =>
    refine hsub _ rfl rfl fun r' hr' => ?_
    simp only [Line.next, Line.records, List.mem_append, List.mem_filter] at hr'
    rcases hr' with hr' | hr' | hr'
    · exact List.mem_append_left _ hr'.1
    · exact List.mem_append_right _ hr'
    · exact List.mem_append_left _ hr'.1
  | restores seq =>
    cases hfind : s.parked.find? fun r => r.ticket.seq == seq with
    | none =>
      simp only [Line.next, hfind]
      exact .refl s
    | some r =>
      simp only [Line.next, hfind]
      refine hsub _ rfl rfl fun r' hr' => ?_
      simp only [Line.records, List.mem_append, List.mem_orderedInsert, List.mem_filter] at hr'
      rcases hr' with (rfl | hr') | hr'
      · exact List.mem_append_right _ (List.mem_of_find?_eq_some hfind)
      · exact List.mem_append_left _ hr'
      · exact List.mem_append_right _ hr'.1
  | retiers seq requested admitted => exact later_changeAt s seq fun r => ⟨rfl, rfl, rfl, rfl⟩
  | turns seq readable => exact later_changeAt s seq fun r => .refl _

theorem later_of_reach {s s' : Line} (h : (lineFrom s).Reach (fun _ _ => True) s') :
    Later s s' := by
  refine h.invariant (fun s₀ h₀ => ?_) fun a e b ha _ hnext => ?_
  · obtain rfl : s₀ = s := h₀
    exact .refl _
  · exact ha.trans (Option.some.inj hnext ▸ later_next a e)

theorem rawQueue_reduceOption (s : Line) :
    s.rawQueue.reduceOption = (s.queue.filter QueueRecord.readable).map QueueRecord.ticket := by
  unfold Line.rawQueue
  induction s.queue with
  | nil => rfl
  | cons r queue ih =>
    cases hr : r.readable with
    | false =>
      have hread : r.read = none := by simp [QueueRecord.read, hr]
      simp [hr, hread, List.reduceOption_cons_of_none, ih]
    | true =>
      have hread : r.read = some r.ticket := by simp [QueueRecord.read, hr]
      simp [hr, hread, List.reduceOption_cons_of_some, ih]

/-- The readable tickets of the queue, seq upward. -/
theorem Line.Orderly.rawQueue {s : Line} (h : s.Orderly) :
    s.rawQueue.reduceOption.Pairwise fun t u => t.seq < u.seq := by
  rw [rawQueue_reduceOption]
  exact (h.sorted.filter _).map _ fun _ _ hlt => hlt

/-- **At the horizon only earlier tickets are ahead**: no ticket of a greater seq has a higher
score, a lower rank or the same score and rank. -/
theorem seq_lt_of_ahead {cfg : Config} {nowEff : ℤ} {simsAfterTests : Bool}
    {raw pre post : List (Option Ticket)} {t u : Ticket} (hcfg : PriorityConfigValid cfg)
    (hraw : raw.reduceOption.Pairwise fun t u => t.seq < u.seq)
    (hordered : orderQueue nowEff cfg simsAfterTests raw = pre ++ some t :: post)
    (hwait : starvationHorizonMs cfg ≤ creditedWaitMs t nowEff) (hu : some u ∈ pre) :
    u.seq < t.seq := by
  have hraw' : ([] ++ raw.reduceOption).Pairwise fun t u : Ticket => t.seq < u.seq := hraw
  have hpairs := pairwise_mapRuns (f := flush nowEff cfg simsAfterTests)
    (R := RunOrder nowEff cfg simsAfterTests) flush_perm flush_sorted hraw'
  have hdistinct : (orderQueue nowEff cfg simsAfterTests raw).reduceOption.Pairwise
      fun t u => t.seq ≠ u.seq :=
    (hraw.imp Nat.ne_of_lt).perm ((sameRuns_orderQueue raw).perm.filterMap id) Ne.symm
  rw [hordered, List.reduceOption_append, List.reduceOption_cons_of_some] at hdistinct
  have hmem : u ∈ pre.reduceOption := List.reduceOption_mem_iff.2 hu
  have hne : u.seq ≠ t.seq :=
    (List.pairwise_append.1 hdistinct).2.2 u hmem t List.mem_cons_self
  change (orderQueue nowEff cfg simsAfterTests raw).reduceOption.Pairwise _ at hpairs
  rw [hordered, List.reduceOption_append, List.reduceOption_cons_of_some] at hpairs
  rcases (List.pairwise_append.1 hpairs).2.2 u hmem t List.mem_cons_self with
    (hscore | ⟨-, hrank | ⟨-, hle⟩⟩) | hlt
  · rw [score_at_horizon hcfg hwait] at hscore
    exact absurd hscore (not_lt.2 (score_le_tier hcfg))
  · rw [simRank_at_horizon hcfg simsAfterTests hwait] at hrank
    exact absurd hrank (Nat.not_lt_zero _)
  · exact lt_of_le_of_ne hle hne
  · exact hlt

/-- A seq names one record, queued or parked. -/
theorem Line.Orderly.eq_of_seq_eq {s : Line} (h : s.Orderly) {r r' : QueueRecord}
    (hr : r ∈ s.records) (hr' : r' ∈ s.records) (heq : r.ticket.seq = r'.ticket.seq) : r = r' := by
  have hnodup : (s.records.map fun r => r.ticket.seq).Nodup := by
    refine List.Pairwise.map _ (fun a b hab => hab) (List.pairwise_append.2
      ⟨h.sorted.imp Nat.ne_of_lt, h.parked_once, fun a ha b hb => h.apart a ha b hb⟩)
  exact List.inj_on_of_nodup_map hnodup hr hr' heq

theorem priorityConfigValid_default : PriorityConfigValid {} := by
  constructor <;> decide +kernel

/-- A low ticket enqueued at 5. -/
def lowEnqueued : Line := Line.next {} (.enqueues { id := 1, priorityAdmitted := some .low } 5 true)

theorem lowEnqueued_reached : lineMachine.Reach (fun _ _ => True) lowEnqueued :=
  .step (.start ⟨rfl, rfl⟩) trivial rfl

end Scheduler
end LaneBroker
