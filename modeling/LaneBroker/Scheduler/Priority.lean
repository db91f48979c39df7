/-
# Scores and the effective view

`priority.js` and `effectiveView` of `fairness.js`: the score of a ticket, the order of the queue
within each run of readable records, and the reservation owner that goes to the front.  An
unreadable record (`none`) is a barrier of `Basis.Barrier`.  `effectiveView_spec` says what the
view is: a permutation in which nothing crosses a barrier, each run in the order of the score, and
at most one ticket out of that order.

The score is computed in doubles, each operation rounded; times in milliseconds and the factors of
the tiers are doubles as they are.
-/

import LaneBroker.Basis.Barrier
import LaneBroker.Scheduler.Tickets
import Mathlib.Data.List.Sort
import Mathlib.Data.Prod.Lex
import Mathlib.Order.OrderDual

namespace LaneBroker
namespace Scheduler

open LaneBroker.Basis LaneBroker.Basis.Barrier

/-! ### The score -/

/-- `originOrNow`. -/
def originOrNow (prioOriginAt : Option ℤ) (nowEff : ℤ) : ℤ :=
  match prioOriginAt with
  | some origin => if 0 ≤ origin ∧ origin ≤ nowEff then origin else nowEff
  | none => nowEff

/-- `waitedMs`. -/
def waitedMs (ticket : Ticket) (nowEff : ℤ) : ℤ :=
  max 0 (nowEff - originOrNow ticket.prioOriginAt nowEff)

/-- `creditedWaitMs`. -/
def creditedWaitMs (ticket : Ticket) (nowEff : ℤ) : ℤ :=
  if !ticket.aging || ticket.exclusive then 0 else waitedMs ticket nowEff

/-- `AGED_CEILING_EPSILON`. -/
def agedCeilingEpsilon : ℚ := double.round (1 / 100)

/-- `starvationHorizonMs`. -/
def starvationHorizonMs (cfg : Config) : ℤ := 3 * cfg.priorityAgeMaxMs

/-- The most a ticket can score: `ceiling` in `score`. -/
def scoreCeiling (ticket : Ticket) (nowEff : ℤ) (cfg : Config) : ℚ :=
  if priorityOf ticket.priorityAdmitted = .high ∨
      starvationHorizonMs cfg ≤ creditedWaitMs ticket nowEff then cfg.priorityWeights.tier
  else double.round (cfg.priorityWeights.tier * double.round (1 - agedCeilingEpsilon))

/-- What a ticket has earned, before the ceiling. -/
def scoreEarned (ticket : Ticket) (nowEff : ℤ) (cfg : Config) : ℚ :=
  let tierFactor : ℚ := tierBase (priorityOf ticket.priorityAdmitted) / maxBase
  let ageFactor : ℚ :=
    min 1 (double.round (creditedWaitMs ticket nowEff / cfg.priorityAgeMaxMs))
  double.round (double.round (cfg.priorityWeights.tier * tierFactor) +
    double.round (cfg.priorityWeights.age * ageFactor))

/-- **`score`.** -/
def score (ticket : Ticket) (nowEff : ℤ) (cfg : Config) : ℚ :=
  min (scoreCeiling ticket nowEff cfg) (scoreEarned ticket nowEff cfg)

/-! ### The order of the queue -/

/-- `simRank`. -/
def simRank (nowEff : ℤ) (cfg : Config) (simsAfterTests : Bool) (ticket : Ticket) : ℕ :=
  if simsAfterTests ∧ ticket.laneClass = .sim ∧ waitedMs ticket nowEff < cfg.priorityAgeMaxMs then 1
  else 0

section Order

variable (nowEff : ℤ) (cfg : Config) (simsAfterTests : Bool)

/-- What a run is ordered by: the score downward, `simRank`, `seq`. -/
def orderKey (ticket : Ticket) : ℚᵒᵈ ×ₗ ℕ ×ₗ ℕ :=
  toLex (OrderDual.toDual (score ticket nowEff cfg),
    toLex (simRank nowEff cfg simsAfterTests ticket, ticket.seq))

/-- The comparison of `scored.sort`: what a run is ordered by, and then the place in the run. -/
def scoredBefore (a b : Ticket × ℕ) : Prop :=
  toLex (orderKey nowEff cfg simsAfterTests a.1, a.2) ≤
    toLex (orderKey nowEff cfg simsAfterTests b.1, b.2)

instance : DecidableRel (scoredBefore nowEff cfg simsAfterTests) := fun _ _ =>
  inferInstanceAs (Decidable (_ ≤ _))

instance : Std.Total (scoredBefore nowEff cfg simsAfterTests) := ⟨fun _ _ => le_total _ _⟩

instance : IsTrans (Ticket × ℕ) (scoredBefore nowEff cfg simsAfterTests) :=
  ⟨fun _ _ _ => le_trans⟩

/-- `flush`: the run by score. -/
def flush (run : List Ticket) : List Ticket :=
  (run.zipIdx.insertionSort (scoredBefore nowEff cfg simsAfterTests)).map Prod.fst

/-- **`orderQueue`.** -/
def orderQueue (raw : List (Option Ticket)) : List (Option Ticket) :=
  mapRuns (flush nowEff cfg simsAfterTests) [] raw

/-- **The order of a run**, in words: the score downward, then `simRank`, then `seq`. -/
def RunOrder (a b : Ticket) : Prop :=
  score b nowEff cfg < score a nowEff cfg ∨
    score a nowEff cfg = score b nowEff cfg ∧
      (simRank nowEff cfg simsAfterTests a < simRank nowEff cfg simsAfterTests b ∨
        simRank nowEff cfg simsAfterTests a = simRank nowEff cfg simsAfterTests b ∧ a.seq ≤ b.seq)

variable {nowEff cfg simsAfterTests}

theorem runOrder_iff {a b : Ticket} : RunOrder nowEff cfg simsAfterTests a b ↔
    orderKey nowEff cfg simsAfterTests a ≤ orderKey nowEff cfg simsAfterTests b := by
  simp only [RunOrder, orderKey, Prod.Lex.toLex_le_toLex, OrderDual.toDual_lt_toDual,
    OrderDual.toDual_inj]

theorem runOrder_of_scoredBefore {a b : Ticket × ℕ}
    (h : scoredBefore nowEff cfg simsAfterTests a b) :
    RunOrder nowEff cfg simsAfterTests a.1 b.1 := by
  rw [runOrder_iff]
  rcases Prod.Lex.toLex_le_toLex.1 h with hlt | ⟨heq, -⟩
  · exact hlt.le
  · exact heq.le

theorem flush_perm (run : List Ticket) : (flush nowEff cfg simsAfterTests run).Perm run := by
  have hsort := (List.perm_insertionSort (scoredBefore nowEff cfg simsAfterTests) run.zipIdx).map
    Prod.fst
  rwa [List.zipIdx_map_fst] at hsort

theorem flush_sorted (run : List Ticket) :
    (flush nowEff cfg simsAfterTests run).Pairwise (RunOrder nowEff cfg simsAfterTests) :=
  (List.pairwise_insertionSort (scoredBefore nowEff cfg simsAfterTests) run.zipIdx).map Prod.fst
    fun _ _ => runOrder_of_scoredBefore

theorem sameRuns_orderQueue (raw : List (Option Ticket)) :
    SameRuns raw (orderQueue nowEff cfg simsAfterTests raw) :=
  sameRuns_mapRuns flush_perm raw

theorem orderQueue_sorted {raw : List (Option Ticket)} {run : List Ticket}
    (h : run ∈ runs (orderQueue nowEff cfg simsAfterTests raw)) :
    run.Pairwise (RunOrder nowEff cfg simsAfterTests) := by
  rw [orderQueue, runs_mapRuns, List.mem_map] at h
  obtain ⟨run, -, rfl⟩ := h
  exact flush_sorted run

end Order

/-! ### The reservation owner -/

/-- A reservation: who holds it, and its `reservationSeq`. -/
structure Reservation where
  id : TicketId
  seq : ℕ
  deriving DecidableEq, Repr

/-- The order of `byAge`. -/
def Reservation.NotAfter (a b : Reservation) : Prop := toLex (a.seq, a.id) ≤ toLex (b.seq, b.id)

instance : DecidableRel Reservation.NotAfter := fun _ _ => inferInstanceAs (Decidable (_ ≤ _))

instance : Std.Total Reservation.NotAfter := ⟨fun _ _ => le_total _ _⟩

instance : IsTrans Reservation Reservation.NotAfter := ⟨fun _ _ _ => le_trans⟩

/-- A record of this id. -/
def hasId (id : TicketId) (record : Option Ticket) : Bool := record.any fun t => t.id == id

/-- A readable record that is not a sim. -/
def isTest (record : Option Ticket) : Bool := record.any fun t => t.laneClass != .sim

/-- The place the owner is promoted from, if it may be. -/
def promotable (ordered : List (Option Ticket)) (id : TicketId) : Option ℕ :=
  let reach := (ordered.idxOf? none).getD ordered.length
  match ordered.findIdx? (hasId id) with
  | none => none
  | some index =>
    if reach ≤ index then none
    else if (ordered[index]?.join.any fun t => t.laneClass == .sim) &&
        (ordered.take index).any isTest then none
    else some index

/-- The loop over `byAge`. -/
def promoteFirst (ordered : List (Option Ticket)) :
    List Reservation → List (Option Ticket) × Option TicketId
  | [] => (ordered, none)
  | r :: rest =>
    match promotable ordered r.id with
    | none => promoteFirst ordered rest
    | some index =>
      (if index = 0 then ordered
        else ordered[index]?.toList ++ ordered.take index ++ ordered.drop (index + 1), some r.id)

/-- **`promoteReservationOwner`.** -/
def promoteReservationOwner (ordered : List (Option Ticket)) (reservations : List Reservation) :
    List (Option Ticket) × Option TicketId :=
  promoteFirst ordered (reservations.insertionSort Reservation.NotAfter)

/-- `live` of `effectiveView`: the reservations that a promotion is chosen from. -/
def liveReservations (rawQueue : List (Option Ticket)) (cfg : Config)
    (reservations : List Reservation) (eligible : Ticket → Bool) : List Reservation :=
  if cfg.schedulerMode = .active ∧ 0 < cfg.resourceSkipLimit then
    reservations.filter fun r => rawQueue.any fun t => t.any fun t => t.id == r.id && eligible t
  else []

/-- **`effectiveView`**: the queue, and the owner of the active reservation. -/
def effectiveView (rawQueue : List (Option Ticket)) (nowEff : ℤ) (cfg : Config)
    (reservations : List Reservation) (eligible : Ticket → Bool) (simsAfterTests : Bool) :
    List (Option Ticket) × Option TicketId :=
  promoteReservationOwner (orderQueue nowEff cfg simsAfterTests rawQueue)
    (liveReservations rawQueue cfg reservations eligible)

/-! ### What the view is -/

/-- **The record of an id**, the first of it if there are several, between what stands ahead of it
and what stands behind it. -/
structure Stands (queue : List (Option Ticket)) (id : TicketId) (pre : List (Option Ticket))
    (t : Ticket) (post : List (Option Ticket)) : Prop where
  split : queue = pre ++ some t :: post
  id_eq : t.id = id
  first : ∀ u, some u ∈ pre → u.id ≠ id

/-- **A ticket that may be promoted**: no unreadable record is ahead of it, and if it is a sim
then only sims are. -/
structure MayLead (ordered : List (Option Ticket)) (id : TicketId) (pre : List (Option Ticket))
    (t : Ticket) (post : List (Option Ticket)) : Prop extends Stands ordered id pre t post where
  reach : none ∉ pre
  ranked : t.laneClass = .sim → ∀ u, some u ∈ pre → u.laneClass = .sim

theorem hasId_iff {id : TicketId} {record : Option Ticket} :
    hasId id record = true ↔ ∃ t, record = some t ∧ t.id = id := by
  cases record with
  | none => simp [hasId]
  | some t => simp [hasId]

theorem findIdx?_hasId_iff {queue : List (Option Ticket)} {id : TicketId} {index : ℕ} :
    queue.findIdx? (hasId id) = some index ↔
      ∃ pre t post, Stands queue id pre t post ∧ index = pre.length := by
  rw [List.findIdx?_eq_some_iff_getElem]
  constructor
  · rintro ⟨hlt, hat, hbefore⟩
    obtain ⟨t, ht, hid⟩ := hasId_iff.1 hat
    refine ⟨queue.take index, t, queue.drop (index + 1), ⟨?_, hid, fun u hu hne => ?_⟩, ?_⟩
    · rw [← ht, List.cons_getElem_drop_succ, List.take_append_drop]
    · obtain ⟨j, hj, hju⟩ := List.mem_take_iff_getElem.1 hu
      exact hbefore j (by omega) (hasId_iff.2 ⟨u, hju, hne⟩)
    · exact (List.length_take_of_le hlt.le).symm
  · rintro ⟨pre, t, post, hstands, rfl⟩
    obtain rfl := hstands.split
    refine ⟨by simp, hasId_iff.2 ⟨t, by simp, hstands.id_eq⟩, fun j hj hat => ?_⟩
    obtain ⟨u, hu, hid⟩ := hasId_iff.1 hat
    rw [List.getElem_append_left hj] at hu
    exact hstands.first u (hu ▸ List.getElem_mem hj) hid

/-- Where the first unreadable record is ahead of a ticket. -/
theorem reach_le_iff {pre post : List (Option Ticket)} {t : Ticket} :
    ((pre ++ some t :: post).idxOf? none).getD (pre ++ some t :: post).length ≤ pre.length ↔
      none ∈ pre := by
  unfold List.idxOf?
  rw [List.findIdx?_append]
  cases hpre : pre.findIdx? (· == none) with
  | some index =>
    obtain ⟨hlt, hat, -⟩ := List.findIdx?_eq_some_iff_getElem.1 hpre
    have hmem : none ∈ pre := (eq_of_beq hat) ▸ List.getElem_mem hlt
    simp only [Option.some_or, Option.getD_some, hmem, iff_true]
    exact hlt.le
  | none =>
    have hmem : none ∉ pre := fun h => by
      have hbeq := List.findIdx?_eq_none_iff.1 hpre none h
      exact absurd hbeq (by decide)
    rw [iff_false_right hmem, Option.none_or, List.findIdx?_cons]
    cases post.findIdx? (· == none) with
    | none => simp
    | some index =>
      simp only [beq_iff_eq, reduceCtorEq, if_false, Option.map_some, Option.getD_some]
      omega

theorem any_isTest_eq_false_iff {pre : List (Option Ticket)} :
    pre.any isTest = false ↔ ∀ u, some u ∈ pre → u.laneClass = .sim := by
  rw [List.any_eq_false]
  constructor
  · intro h u hu
    simpa [isTest] using h (some u) hu
  · intro h record hrecord
    cases record with
    | none => simp [isTest]
    | some u => simpa [isTest] using h u hrecord

theorem promotable_eq_some_iff {ordered : List (Option Ticket)} {id : TicketId} {index : ℕ} :
    promotable ordered id = some index ↔
      ∃ pre t post, MayLead ordered id pre t post ∧ index = pre.length := by
  unfold promotable
  cases hfind : ordered.findIdx? (hasId id) with
  | none =>
    simp only [reduceCtorEq, false_iff]
    rintro ⟨pre, t, post, hlead, -⟩
    have hsome := findIdx?_hasId_iff.2 ⟨pre, t, post, hlead.toStands, rfl⟩
    rw [hfind] at hsome
    cases hsome
  | some k =>
    obtain ⟨pre, t, post, hstands, rfl⟩ := findIdx?_hasId_iff.1 hfind
    have hsplit := hstands.split
    have hat : ordered[pre.length]?.join = some t := by simp [hsplit]
    have htake : ordered.take pre.length = pre := by simp [hsplit]
    have hunique : ∀ pre' t' post', MayLead ordered id pre' t' post' →
        pre' = pre ∧ t' = t ∧ post' = post := by
      intro pre' t' post' hlead
      have hsome := findIdx?_hasId_iff.2 ⟨pre', t', post', hlead.toStands, rfl⟩
      have hlength : pre.length = pre'.length := Option.some.inj (hfind.symm.trans hsome)
      obtain ⟨h₁, h₂⟩ := List.append_inj (hsplit.symm.trans hlead.split) hlength
      cases h₂
      exact ⟨h₁.symm, rfl, rfl⟩
    have hreach := @reach_le_iff pre post t
    rw [← hsplit] at hreach
    simp only [hat, htake, Option.any_some, hreach]
    split_ifs with hbarrier hsim
    · simp only [false_iff]
      rintro ⟨pre', t', post', hlead, -⟩
      obtain ⟨rfl, -, -⟩ := hunique _ _ _ hlead
      exact hlead.reach hbarrier
    · simp only [false_iff]
      rintro ⟨pre', t', post', hlead, -⟩
      obtain ⟨rfl, rfl, -⟩ := hunique _ _ _ hlead
      rw [Bool.and_eq_true, beq_iff_eq] at hsim
      rw [any_isTest_eq_false_iff.2 (hlead.ranked hsim.1)] at hsim
      exact absurd hsim.2 Bool.false_ne_true
    · constructor
      · intro h
        refine ⟨pre, t, post, ⟨hstands, hbarrier, fun hclass => ?_⟩, (Option.some.inj h).symm⟩
        rw [hclass, beq_self_eq_true, Bool.true_and, Bool.not_eq_true] at hsim
        exact any_isTest_eq_false_iff.1 hsim
      · rintro ⟨pre', t', post', hlead, rfl⟩
        obtain ⟨rfl, -, -⟩ := hunique _ _ _ hlead
        rfl

/-- **What the loop over the reservations does**: it promotes the first owner that may be. -/
theorem promoteFirst_cases (ordered : List (Option Ticket)) (byAge : List Reservation) :
    (promoteFirst ordered byAge = (ordered, none) ∧
        ∀ r ∈ byAge, ¬∃ pre t post, MayLead ordered r.id pre t post) ∨
      ∃ older r younger pre t post, byAge = older ++ r :: younger ∧
        (∀ r' ∈ older, ¬∃ pre t post, MayLead ordered r'.id pre t post) ∧
        MayLead ordered r.id pre t post ∧
        promoteFirst ordered byAge = (some t :: (pre ++ post), some r.id) := by
  induction byAge with
  | nil => exact .inl ⟨rfl, fun r hr => absurd hr List.not_mem_nil⟩
  | cons r rest ih =>
    cases hpromotable : promotable ordered r.id with
    | none =>
      have hnot : ¬∃ pre t post, MayLead ordered r.id pre t post := by
        rintro ⟨pre, t, post, hlead⟩
        have hsome := promotable_eq_some_iff.2 ⟨pre, t, post, hlead, rfl⟩
        rw [hpromotable] at hsome
        cases hsome
      have hstep : promoteFirst ordered (r :: rest) = promoteFirst ordered rest := by
        simp only [promoteFirst, hpromotable]
      rw [hstep]
      rcases ih with ⟨heq, hnone⟩ | ⟨older, r', younger, pre, t, post, rfl, holder, hlead, heq⟩
      · exact .inl ⟨heq, List.forall_mem_cons.2 ⟨hnot, hnone⟩⟩
      · exact .inr ⟨r :: older, r', younger, pre, t, post, rfl,
          List.forall_mem_cons.2 ⟨hnot, holder⟩, hlead, heq⟩
    | some index =>
      obtain ⟨pre, t, post, hlead, rfl⟩ := promotable_eq_some_iff.1 hpromotable
      refine .inr ⟨[], r, rest, pre, t, post, rfl, fun r hr => absurd hr List.not_mem_nil, hlead,
        ?_⟩
      simp only [promoteFirst, hpromotable]
      rw [hlead.split]
      cases pre with
      | nil => rfl
      | cons x pre => simp

/-- **A reservation that could be the active one**: its owner is queued and eligible, and may be
promoted in this order. -/
structure Claimant (rawQueue ordered : List (Option Ticket)) (eligible : Ticket → Bool)
    (r : Reservation) : Prop where
  queued : ∃ t, some t ∈ rawQueue ∧ t.id = r.id ∧ eligible t = true
  leads : ∃ pre t post, MayLead ordered r.id pre t post

theorem mem_liveReservations {rawQueue : List (Option Ticket)} {cfg : Config}
    {reservations : List Reservation} {eligible : Ticket → Bool} {r : Reservation} :
    r ∈ liveReservations rawQueue cfg reservations eligible ↔
      (cfg.schedulerMode = .active ∧ 0 < cfg.resourceSkipLimit) ∧ r ∈ reservations ∧
        ∃ t, some t ∈ rawQueue ∧ t.id = r.id ∧ eligible t = true := by
  unfold liveReservations
  split_ifs with hreservable
  · simp only [List.mem_filter, List.any_eq_true, hreservable, and_self, true_and]
    refine and_congr_right fun _ => ⟨?_, ?_⟩
    · rintro ⟨record, hrecord, hany⟩
      cases record with
      | none => cases hany
      | some t => simpa using ⟨t, hrecord, by simpa using hany⟩
    · rintro ⟨t, ht, hid, heligible⟩
      exact ⟨some t, ht, by simp [hid, heligible]⟩
  · simp [hreservable]

/-- **What the effective view is.**  It is a permutation of the queue in which no ticket crosses an
unreadable record.  It comes from an order of the queue in which each run goes by score, then
`simRank`, then `seq`; either as it is, where no reservation could be the active one, or with one
ticket moved to the front and all others as they were: the owner of the reservation of the lowest
`reservationSeq` among those that could be. -/
theorem effectiveView_spec (rawQueue : List (Option Ticket)) (nowEff : ℤ) (cfg : Config)
    (reservations : List Reservation) (eligible : Ticket → Bool) (simsAfterTests : Bool) :
    ∃ ordered, SameRuns rawQueue ordered ∧
      (∀ run ∈ runs ordered, run.Pairwise (RunOrder nowEff cfg simsAfterTests)) ∧
      SameRuns rawQueue
        (effectiveView rawQueue nowEff cfg reservations eligible simsAfterTests).1 ∧
      (effectiveView rawQueue nowEff cfg reservations eligible simsAfterTests).1.Perm rawQueue ∧
      (effectiveView rawQueue nowEff cfg reservations eligible simsAfterTests = (ordered, none) ∧
          (cfg.schedulerMode = .active ∧ 0 < cfg.resourceSkipLimit →
            ∀ r ∈ reservations, ¬Claimant rawQueue ordered eligible r) ∨
        ∃ r ∈ reservations, ∃ pre t post, MayLead ordered r.id pre t post ∧
          effectiveView rawQueue nowEff cfg reservations eligible simsAfterTests =
            (some t :: (pre ++ post), some r.id) ∧
          (cfg.schedulerMode = .active ∧ 0 < cfg.resourceSkipLimit) ∧
          Claimant rawQueue ordered eligible r ∧
          ∀ r' ∈ reservations, Claimant rawQueue ordered eligible r' →
            r.seq < r'.seq ∨ r.seq = r'.seq ∧ r.id ≤ r'.id) := by
  set ordered := orderQueue nowEff cfg simsAfterTests rawQueue with hordered
  set live := liveReservations rawQueue cfg reservations eligible
  set byAge := live.insertionSort Reservation.NotAfter
  have hview : effectiveView rawQueue nowEff cfg reservations eligible simsAfterTests =
      promoteFirst ordered byAge := rfl
  have hsame : SameRuns rawQueue ordered := sameRuns_orderQueue rawQueue
  have hbyAge : ∀ r, Claimant rawQueue ordered eligible r → r ∈ reservations →
      cfg.schedulerMode = .active ∧ 0 < cfg.resourceSkipLimit → r ∈ byAge := by
    intro r hclaim hr hreservable
    exact (List.mem_insertionSort _).2
      (mem_liveReservations.2 ⟨hreservable, hr, hclaim.queued⟩)
  refine ⟨ordered, hsame, fun run hrun => orderQueue_sorted hrun, ?_⟩
  rw [hview]
  rcases promoteFirst_cases ordered byAge with
    ⟨heq, hnone⟩ | ⟨older, r, younger, pre, t, post, hsplit, holder, hlead, heq⟩
  · rw [heq]
    exact ⟨hsame, hsame.perm.symm, .inl ⟨rfl, fun hreservable r hr hclaim =>
      hnone r (hbyAge r hclaim hr hreservable) hclaim.leads⟩⟩
  · have hfront : SameRuns rawQueue (some t :: (pre ++ post)) := by
      have hmoved : SameRuns (pre ++ some t :: post) (some t :: (pre ++ post)) :=
        sameRuns_front hlead.reach
      rw [← hlead.split] at hmoved
      exact hsame.trans hmoved
    have hr : r ∈ live := by
      have hmem : r ∈ byAge := hsplit ▸ List.mem_append_right _ List.mem_cons_self
      exact (List.mem_insertionSort _).1 hmem
    obtain ⟨hreservable, hr, hqueued⟩ := mem_liveReservations.1 hr
    have hsorted : byAge.Pairwise Reservation.NotAfter := List.pairwise_insertionSort _ _
    rw [hsplit, List.pairwise_append, List.pairwise_cons] at hsorted
    rw [heq]
    refine ⟨hfront, hfront.perm.symm, .inr ⟨r, hr, pre, t, post, hlead, rfl, hreservable,
      ⟨hqueued, pre, t, post, hlead⟩, fun r' hr' hclaim => ?_⟩⟩
    have hmem := hbyAge r' hclaim hr' hreservable
    rw [hsplit, List.mem_append, List.mem_cons] at hmem
    rcases hmem with hmem | rfl | hmem
    · exact absurd hclaim.leads (holder r' hmem)
    · exact .inr ⟨rfl, le_rfl⟩
    · exact Prod.Lex.toLex_le_toLex.1 (hsorted.2.1.1 r' hmem)

end Scheduler
end LaneBroker
