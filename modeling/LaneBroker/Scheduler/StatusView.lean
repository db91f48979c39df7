/-
# The queue as `lane status` shows it

`collectStatus` of `status.js` builds the queue view once more: it lists the records, asks the class
policy, takes the effective view and puts the denied tickets at the end.  The scheduler has three
filters besides: a record of the old format is set aside or a barrier, a weight is clamped, and a
push that waits for another of its caller leaves the selection.  Where none of the three has
anything to do, and every record can be read, the two views are one.
-/

import LaneBroker.Scheduler.Starts
import Mathlib.Data.List.Count

namespace LaneBroker
namespace Scheduler

open LaneBroker.Basis.Barrier

/-! ### The view -/

/-- One queued entry of the status. -/
structure QueueEntry where
  id : TicketId
  key : Key
  position : ℕ
  priority : Tier
  reservationOwner : Bool
  classDenied : Option CapReason
  deriving DecidableEq, Repr

/-- **The queue part of the status**: the entries, and the owner of the reservation. -/
structure QueueView where
  queued : List QueueEntry
  reservationOwnerId : Option TicketId
  deriving DecidableEq, Repr

/-- The startable tickets that are reported, in their order. -/
def QueueView.startable (v : QueueView) : List TicketId :=
  (v.queued.filter fun e => e.classDenied.isNone).map QueueEntry.id

namespace Poll

variable (p : Poll)

/-- `classPolicy.capEnforced`. -/
def statusDenied : List (TicketId × CapReason) :=
  capEnforcedOf p.listQueueCapped p.classes p.held p.host p.cfg

/-- `classPolicy.capEnforced.get(id)`. -/
def statusReason (id : TicketId) : Option CapReason :=
  (p.statusDenied.reverse.find? fun entry => entry.1 == id).map Prod.snd

/-- `classPolicy.eligible`. -/
def statusEligible (t : Ticket) : Bool := !p.statusDenied.any fun entry => entry.1 == t.id

/-- The view, and the owner of the active reservation. -/
def statusFullView : List (Option Ticket) × Option TicketId :=
  if p.v2 then
    effectiveView p.listQueueCapped p.nowEff p.cfg p.disk.store.reservations p.statusEligible
      (simsAfterTestsOf p.classes)
  else (p.listQueueCapped, none)

/-- The queue, the denied tickets behind the others. -/
def statusQueue : List (Option Ticket) :=
  (p.statusFullView.1.filter fun t => t.all p.statusEligible) ++
    p.statusFullView.1.filter fun t => t.any fun t => !p.statusEligible t

/-- An entry of the list. -/
def queueEntry (t : Ticket) (i : ℕ) : QueueEntry :=
  { id := t.id
    key := t.key
    position := i + 1
    priority := priorityOf t.priorityAdmitted
    reservationOwner := p.statusFullView.2 = some t.id
    classDenied := p.statusReason t.id }

/-- **`collectStatus`**, the queue part of it: none where it throws, at a record that reads as
`null`. -/
def collectStatus : Option QueueView :=
  if p.statusQueue.all Option.isSome then
    some
      { queued := p.statusQueue.reduceOption.zipIdx.map fun entry => p.queueEntry entry.1 entry.2
        reservationOwnerId := p.statusFullView.2 }
  else none

/-! ### The state the scheduler works on -/

/-- `quarantineLegacyRecords`: a readable record of the old format is moved away, unless its rename
fails. -/
def quarantined (stuck : QueueRecord → Bool) (queue : List QueueRecord) : List QueueRecord :=
  queue.filter fun r => !r.readable || r.ticket.schedV2 || stuck r

/-- **An evaluation on the same state**, behind the fence. -/
def behindFence (stuck : QueueRecord → Bool) : Poll :=
  { p with disk := { p.disk with queue := quarantined stuck p.disk.queue } }

/-- **The status agrees with the scheduler**: it is built, and its head, its reservation owner and
the order of its startable tickets are those that `tryStart` works with. -/
structure StatusAgrees (stuck : QueueRecord → Bool) (v : QueueView) : Prop where
  built : p.collectStatus = some v
  head : v.startable.head? = (p.behindFence stuck).queue.head?.join.map Ticket.id
  owner : v.reservationOwnerId = (p.behindFence stuck).reservationOwnerId
  order : v.startable.map some = (p.behindFence stuck).queue.map (Option.map Ticket.id)

/-- **Every record is shown as the scheduler sees it**: it can be read and is of the new format, and
the class policy and the push holds of the scheduler let it start just where the class policy of the
status does. -/
structure ShownAsSeen (stuck : QueueRecord → Bool) : Prop where
  readable : ∀ r ∈ p.disk.queue, r.readable = true
  newFormat : ∀ r ∈ p.disk.queue, r.ticket.schedV2 = true
  verdicts : ∀ r ∈ p.disk.queue,
    p.statusEligible r.ticket = (p.behindFence stuck).selectable r.ticket

/-- **The same of the tickets that somebody lets start**: what is left open is a record of the old
format that the class policy denies. -/
structure StartableAsSeen (stuck : QueueRecord → Bool) : Prop where
  readable : ∀ r ∈ p.disk.queue, r.readable = true
  eligible : ∀ r ∈ p.disk.queue, p.statusEligible r.ticket = true →
    r.ticket.schedV2 = true ∧ (p.behindFence stuck).selectable r.ticket = true
  selectable : ∀ r ∈ p.disk.queue, r.ticket.schedV2 = true →
    (p.behindFence stuck).selectable r.ticket = true → p.statusEligible r.ticket = true

end Poll

/-! ### A view of changed tickets -/

section Changed

/-- **A change that no order reads**: the id, the class, the place and the score stay. -/
structure KeepsPlace (f : Ticket → Ticket) (nowEff : ℤ) (cfg : Config) : Prop where
  ticketId : ∀ t, (f t).id = t.id
  laneClass : ∀ t, (f t).laneClass = t.laneClass
  orderKey : ∀ sims t, orderKey nowEff cfg sims (f t) = orderKey nowEff cfg sims t

variable {f : Ticket → Ticket} {nowEff : ℤ} {cfg : Config}

theorem keepsPlace_clampQueuedWeight (nowEff : ℤ) (cfg cfg' : Config) (capacity : ℚ) :
    KeepsPlace (fun t => clampQueuedWeight t cfg' capacity) nowEff cfg := by
  refine ⟨fun t => ?_, fun t => ?_, fun sims t => ?_⟩
  all_goals
    obtain ⟨weight, h⟩ := Poll.clampQueuedWeight_eq t cfg' capacity
    simp only [h]
  rfl

theorem KeepsPlace.flush (h : KeepsPlace f nowEff cfg) (sims : Bool) (run : List Ticket) :
    flush nowEff cfg sims (run.map f) = (flush nowEff cfg sims run).map f := by
  have hsort : (run.zipIdx.insertionSort (scoredBefore nowEff cfg sims)).map (Prod.map f id) =
      (run.zipIdx.map (Prod.map f id)).insertionSort (scoredBefore nowEff cfg sims) := by
    refine List.map_insertionSort _ _ _ _ fun a _ b _ => ?_
    simp only [scoredBefore, Prod.map_fst, Prod.map_snd, h.orderKey, id_eq]
  unfold Scheduler.flush
  rw [List.zipIdx_map, ← hsort, List.map_map, List.map_map]
  rfl

theorem KeepsPlace.orderQueue (h : KeepsPlace f nowEff cfg) (sims : Bool)
    (raw : List (Option Ticket)) :
    orderQueue nowEff cfg sims (raw.map (Option.map f)) =
      (orderQueue nowEff cfg sims raw).map (Option.map f) :=
  mapRuns_map (h.flush sims) [] raw

theorem KeepsPlace.hasId_map (h : KeepsPlace f nowEff cfg) (id : TicketId) (t : Option Ticket) :
    hasId id (t.map f) = hasId id t := by
  cases t with
  | none => rfl
  | some t => simp [hasId, h.ticketId]

theorem KeepsPlace.promotable (h : KeepsPlace f nowEff cfg) (ordered : List (Option Ticket))
    (id : TicketId) : promotable (ordered.map (Option.map f)) id = promotable ordered id := by
  have hnone : (ordered.map (Option.map f)).idxOf? none = ordered.idxOf? none := by
    simp only [List.idxOf?, List.findIdx?_map]
    congr 1
    funext t
    cases t <;> rfl
  have hfind : (ordered.map (Option.map f)).findIdx? (hasId id) = ordered.findIdx? (hasId id) := by
    rw [List.findIdx?_map]
    congr 1
    funext t
    exact h.hasId_map id t
  have htest : ∀ index, ((ordered.map (Option.map f)).take index).any isTest =
      (ordered.take index).any isTest := by
    intro index
    rw [← List.map_take, List.any_map]
    congr 1
    funext t
    cases t with
    | none => rfl
    | some t => simp [isTest, h.laneClass]
  have hclass : ∀ index : ℕ, ((ordered.map (Option.map f))[index]?.join.any
      fun t => t.laneClass == .sim) = ordered[index]?.join.any fun t => t.laneClass == .sim := by
    intro index
    rw [List.getElem?_map]
    rcases ordered[index]? with _ | _ | t
    · rfl
    · rfl
    · simp [h.laneClass]
  unfold Scheduler.promotable
  simp only [hnone, hfind, htest, hclass, List.length_map]

theorem KeepsPlace.promoteFirst (h : KeepsPlace f nowEff cfg) (ordered : List (Option Ticket))
    (byAge : List Reservation) :
    promoteFirst (ordered.map (Option.map f)) byAge =
      ((promoteFirst ordered byAge).1.map (Option.map f), (promoteFirst ordered byAge).2) := by
  induction byAge with
  | nil => rfl
  | cons r rest ih =>
    unfold Scheduler.promoteFirst
    rw [h.promotable]
    cases Scheduler.promotable ordered r.id with
    | none => exact ih
    | some index =>
      simp only [List.getElem?_map]
      split_ifs
      · rfl
      · cases ordered[index]? <;> simp

/-- **The view of changed tickets is the changed view.** -/
theorem KeepsPlace.effectiveView (h : KeepsPlace f nowEff cfg) {raw : List (Option Ticket)}
    {reservations reservations' : List Reservation} {eligible eligible' : Ticket → Bool}
    (sims : Bool)
    (hlive : liveReservations (raw.map (Option.map f)) cfg reservations' eligible' =
      liveReservations raw cfg reservations eligible) :
    effectiveView (raw.map (Option.map f)) nowEff cfg reservations' eligible' sims =
      ((effectiveView raw nowEff cfg reservations eligible sims).1.map (Option.map f),
        (effectiveView raw nowEff cfg reservations eligible sims).2) := by
  unfold Scheduler.effectiveView promoteReservationOwner
  rw [hlive, h.orderQueue, h.promoteFirst]

end Changed

/-! ### Where the two views are one -/

/-- A record that is pruned has no reservation that is looked for. -/
theorem filter_reservations_prune {rawQueue : List (Option Ticket)} {provisional : List TicketId}
    {g : Reservation → Bool} (h : ∀ r, g r = true → rawQueue.any (hasId r.id) = true)
    (store : Store) :
    (store.prune rawQueue provisional).reservations.filter g = store.reservations.filter g := by
  cases store with
  | legacy conflict capacity resource => rfl
  | perTicket tickets =>
    unfold Store.prune
    split_ifs
    · rfl
    · simp only [Store.reservations]
      induction tickets with
      | nil => rfl
      | cons entry rest ih =>
        by_cases hkeep : (rawQueue.any (hasId entry.1) || provisional.contains entry.1) = true
        · simp only [List.filter_cons, hkeep, if_true, List.filterMap_cons]
          cases (entry.2.resource.filter fun rec => rec.reserved).bind fun rec =>
              rec.reservationSeq.map fun seq => ({ id := entry.1, seq } : Reservation) with
          | none => exact ih
          | some r => simp only [List.filter_cons, ih]
        · simp only [List.filter_cons, hkeep, Bool.false_eq_true, if_false, List.filterMap_cons]
          rw [ih]
          cases hres : (entry.2.resource.filter fun rec => rec.reserved).bind fun rec =>
              rec.reservationSeq.map fun seq => ({ id := entry.1, seq } : Reservation) with
          | none => rfl
          | some r =>
            obtain ⟨rec, -, hrec⟩ := Option.bind_eq_some_iff.1 hres
            obtain ⟨seq, -, rfl⟩ := Option.map_eq_some_iff.1 hrec
            rw [List.filter_cons_of_neg]
            intro hg
            exact hkeep (by rw [h _ hg, Bool.true_or])

/-- What is told by the id is the same of tickets of one id. -/
theorem Poll.statusEligible_congr (p : Poll) {t u : Ticket} (h : t.id = u.id) :
    p.statusEligible t = p.statusEligible u := by
  unfold statusEligible
  rw [h]

theorem Poll.selectable_congr (p : Poll) {t u : Ticket} (h : t.id = u.id) :
    p.selectable t = p.selectable u := by
  unfold selectable
  rw [h]

theorem capElasticClaim_id (t : Ticket) (cfg : Config) (host : Host) :
    (capElasticClaim t cfg host).id = t.id := by
  obtain ⟨g, hg⟩ := onResources_capElasticClaim cfg host
  have hcap : capElasticClaim t cfg host = { t with resources := g t.resources } := hg t
  rw [hcap]

namespace Poll

variable {p : Poll} {stuck : QueueRecord → Bool}

theorem mem_listQueueCapped {record : Option Ticket} : record ∈ p.listQueueCapped ↔
    ∃ r ∈ p.disk.queue, r.read.map (fun t => capElasticClaim t p.cfg p.host) = record :=
  List.mem_map

/-- What is shown is a permutation of the records. -/
theorem statusFullView_perm (p : Poll) : p.statusFullView.1.Perm p.listQueueCapped := by
  unfold statusFullView
  split_ifs
  · obtain ⟨ordered, -, -, -, hperm, -⟩ := effectiveView_spec p.listQueueCapped p.nowEff p.cfg
      p.disk.store.reservations p.statusEligible (simsAfterTestsOf p.classes)
    exact hperm
  · exact .refl _

theorem fullQueue_perm (p : Poll) : p.fullQueue.Perm p.rawQueue := by
  unfold fullQueue fullView
  split_ifs
  · obtain ⟨ordered, -, -, -, hperm, -⟩ := effectiveView_spec p.rawQueue p.nowEff p.cfg
      p.store.reservations p.selectable (simsAfterTestsOf p.classes)
    exact hperm
  · exact .refl _

/-- Behind the fence nothing is moved away where every record is of the new format. -/
theorem behindFence_eq (h : ∀ r ∈ p.disk.queue, r.ticket.schedV2 = true) :
    p.behindFence stuck = p := by
  have hsame : quarantined stuck p.disk.queue = p.disk.queue :=
    List.filter_eq_self.2 fun r hr => by simp [h r hr]
  unfold behindFence
  rw [hsame]

/-- The queue is listed, and the weights are clamped. -/
theorem rawQueue_of_newFormat (h : ∀ r ∈ p.disk.queue, r.ticket.schedV2 = true) :
    p.rawQueue = p.listQueueCapped.map (Option.map fun t =>
      clampQueuedWeight t p.cfg p.weightCapacity) := by
  have hfence : fenceLegacy p.listQueueCapped = p.listQueueCapped := by
    unfold fenceLegacy
    refine (List.map_congr_left fun record hrecord => ?_).trans (List.map_id _)
    obtain ⟨r, hr, rfl⟩ := mem_listQueueCapped.1 hrecord
    cases hread : r.read with
    | none => rfl
    | some t =>
      have ht : t = r.ticket := by
        unfold QueueRecord.read at hread
        split_ifs at hread
        exact (Option.some.inj hread).symm
      simp [Option.filter_some, capElasticClaim_schedV2, ht, h r hr]
  unfold rawQueue
  rw [hfence, ite_self]

/-- **The scheduler's view is the view of the status**, with the weights clamped. -/
theorem fullView_of_shown (hv2 : p.v2 = true)
    (hnew : ∀ r ∈ p.disk.queue, r.ticket.schedV2 = true)
    (hverdict : ∀ r ∈ p.disk.queue, p.statusEligible r.ticket = p.selectable r.ticket) :
    p.fullView = (p.statusFullView.1.map (Option.map fun t =>
      clampQueuedWeight t p.cfg p.weightCapacity), p.statusFullView.2) := by
  have hkeeps := keepsPlace_clampQueuedWeight p.nowEff p.cfg p.cfg p.weightCapacity
  have hraw := rawQueue_of_newFormat hnew
  unfold fullView statusFullView
  rw [if_pos hv2, if_pos hv2, hraw]
  refine hkeeps.effectiveView _ ?_
  unfold liveReservations
  split_ifs with hreservable
  · -- a reservation is live on both sides for the same owners, and what is pruned has none
    have hlive : ∀ r : Reservation, ((p.listQueueCapped.map (Option.map fun t =>
          clampQueuedWeight t p.cfg p.weightCapacity)).any fun t =>
            t.any fun t => t.id == r.id && p.selectable t) =
        p.listQueueCapped.any fun t => t.any fun t => t.id == r.id && p.statusEligible t := by
      intro r
      rw [List.any_map, Bool.eq_iff_iff, List.any_eq_true, List.any_eq_true]
      refine exists_congr fun record => and_congr_right fun hrecord => ?_
      obtain ⟨q, hq, rfl⟩ := mem_listQueueCapped.1 hrecord
      cases hread : q.read with
      | none => rfl
      | some t =>
        have ht : t = q.ticket := by
          unfold QueueRecord.read at hread
          split_ifs at hread
          exact (Option.some.inj hread).symm
        have hid : (capElasticClaim t p.cfg p.host).id = q.ticket.id := by
          rw [capElasticClaim_id, ht]
        simp only [Function.comp_apply, Option.map_some, Option.any_some, hkeeps.ticketId,
          p.selectable_congr ((hkeeps.ticketId _).trans hid), p.statusEligible_congr hid,
          hverdict q hq]
    have hstore : p.store = .landed (p.fails .prune) (p.disk.store.prune p.rawQueue
        p.rebindingIds) p.disk.store := by
      unfold store releasedStore
      rw [if_pos hreservable]
    simp only [hlive]
    rw [hstore, Store.landed]
    split_ifs
    · rfl
    · refine filter_reservations_prune (fun r hr => ?_) _
      rw [hraw, List.any_map, List.any_eq_true]
      obtain ⟨record, hrecord, hany⟩ := List.any_eq_true.1 hr
      refine ⟨record, hrecord, ?_⟩
      rw [Function.comp_apply, hkeeps.hasId_map]
      cases record with
      | none => cases hany
      | some t =>
        rw [Option.any_some, Bool.and_eq_true] at hany
        exact hany.1
  · rfl

/-! ### What is reported -/

theorem statusReason_isNone (p : Poll) (t : Ticket) :
    (p.statusReason t.id).isNone = p.statusEligible t := by
  unfold statusReason statusEligible
  rw [Option.isNone_map, ← List.any_reverse, Bool.eq_iff_iff, Option.isNone_iff_eq_none,
    List.find?_eq_none, Bool.not_eq_true', List.any_eq_false]

theorem startable_entries (p : Poll) (tickets : List Ticket) (k : ℕ) :
    (((tickets.zipIdx k).map fun entry => p.queueEntry entry.1 entry.2).filter fun e =>
      e.classDenied.isNone).map QueueEntry.id =
      (tickets.filter p.statusEligible).map Ticket.id := by
  induction tickets generalizing k with
  | nil => rfl
  | cons t tickets ih =>
    rw [List.zipIdx_cons, List.map_cons, List.filter_cons, List.filter_cons]
    have hreason : (p.queueEntry t k).classDenied.isNone = p.statusEligible t :=
      p.statusReason_isNone t
    rw [hreason]
    split_ifs
    · rw [List.map_cons, List.map_cons, ih]
      rfl
    · exact ih (k + 1)

theorem reduceOption_filter_all {α : Type} (g : α → Bool) (l : List (Option α)) :
    (l.filter fun t => t.all g).reduceOption = l.reduceOption.filter g := by
  induction l with
  | nil => rfl
  | cons t l ih =>
    cases t with
    | none => simpa using ih
    | some a => by_cases h : g a = true <;> simp [h, ih]

theorem reduceOption_filter_any {α : Type} (g : α → Bool) (l : List (Option α)) :
    (l.filter fun t => t.any g).reduceOption = l.reduceOption.filter g := by
  induction l with
  | nil => rfl
  | cons t l ih =>
    cases t with
    | none => simpa using ih
    | some a => by_cases h : g a = true <;> simp [h, ih]

/-- **What is reported as startable**: the eligible tickets, in the order of the view. -/
theorem startable_of_collectStatus {v : QueueView} (h : p.collectStatus = some v) :
    v.startable = (p.statusFullView.1.reduceOption.filter p.statusEligible).map Ticket.id := by
  unfold collectStatus at h
  split_ifs at h
  obtain rfl := Option.some.inj h
  have hdenied : ((p.statusFullView.1.reduceOption.filter fun t => !p.statusEligible t).filter
      p.statusEligible) = [] := by
    rw [List.filter_filter, List.filter_eq_nil_iff]
    intro t _
    cases p.statusEligible t <;> simp
  rw [QueueView.startable, startable_entries, statusQueue, List.reduceOption_append,
    List.filter_append, reduceOption_filter_all, reduceOption_filter_any, hdenied,
    List.append_nil, List.filter_filter]
  simp

/-- **The status is built** just where every record can be read. -/
theorem collectStatus_isSome_iff :
    p.collectStatus.isSome = true ↔ ∀ r ∈ p.disk.queue, r.readable = true := by
  have hsome : p.collectStatus.isSome = true ↔ none ∉ p.statusQueue := by
    unfold collectStatus
    split_ifs with hall
    · rw [Option.isSome_some, List.all_eq_true] at *
      exact ⟨fun _ hnone => absurd (hall none hnone) (by simp), fun _ => rfl⟩
    · rw [List.all_eq_true] at hall
      refine ⟨nofun, fun hnone => absurd (fun record hrecord => ?_) hall⟩
      cases record with
      | none => exact absurd hrecord hnone
      | some t => rfl
  have hnone : none ∈ p.statusQueue ↔ none ∈ p.listQueueCapped := by
    rw [statusQueue, List.mem_append, List.mem_filter, List.mem_filter,
      p.statusFullView_perm.mem_iff]
    simp
  rw [hsome, hnone, mem_listQueueCapped]
  constructor
  · intro h r hr
    by_contra hread
    exact h ⟨r, hr, by simp [QueueRecord.read, hread]⟩
  · rintro h ⟨r, hr, hnone⟩
    simp [QueueRecord.read, h r hr] at hnone

/-- The order settles the head. -/
theorem head_of_order {ids : List TicketId} {queue : List (Option Ticket)}
    (h : ids.map some = queue.map (Option.map Ticket.id)) :
    ids.head? = queue.head?.join.map Ticket.id := by
  cases ids with
  | nil =>
    cases queue with
    | nil => rfl
    | cons t queue => cases h
  | cons id ids =>
    cases queue with
    | nil => cases h
    | cons t queue =>
      obtain ⟨hid, -⟩ := List.cons.inj h
      simpa using hid

/-! ### The two views -/

/-- The eligible tickets of the status are those the scheduler keeps. -/
theorem map_startable {f : Ticket → Ticket} {eligible selectable : Ticket → Bool}
    {view : List (Option Ticket)} (hf : ∀ t, (f t).id = t.id) (hnone : none ∉ view)
    (heligible : ∀ t, some t ∈ view → selectable (f t) = eligible t) :
    ((view.reduceOption.filter eligible).map Ticket.id).map some =
      ((view.map (Option.map f)).filter fun t => t.all selectable).map (Option.map Ticket.id) := by
  induction view with
  | nil => rfl
  | cons t view ih =>
    have htail := ih (fun h => hnone (List.mem_cons_of_mem _ h)) fun u hu =>
      heligible u (List.mem_cons_of_mem _ hu)
    cases t with
    | none => exact absurd List.mem_cons_self hnone
    | some t =>
      have ht := heligible t List.mem_cons_self
      rw [List.reduceOption_cons_of_some, List.filter_cons, List.map_cons, List.filter_cons,
        Option.map_some, Option.all_some, ht]
      split_ifs
      · simp only [List.map_cons, htail, Option.map_some, hf]
      · exact htail

theorem exists_of_listed {t : Ticket} (h : some t ∈ p.listQueueCapped) :
    ∃ r ∈ p.disk.queue, r.readable = true ∧ t.id = r.ticket.id := by
  obtain ⟨r, hr, hread⟩ := mem_listQueueCapped.1 h
  unfold QueueRecord.read at hread
  split_ifs at hread with hreadable
  · obtain rfl := Option.some.inj hread
    exact ⟨r, hr, hreadable, capElasticClaim_id _ _ _⟩
  · cases hread

/-- **Where every record is shown as it is seen, the status agrees.** -/
theorem ShownAsSeen.agrees (h : p.ShownAsSeen stuck) (hv2 : p.v2 = true) :
    ∃ v, p.StatusAgrees stuck v := by
  obtain ⟨hread, hnew, hverdict⟩ := h
  obtain ⟨v, hv⟩ := Option.isSome_iff_exists.1 (collectStatus_isSome_iff.2 hread)
  have hsame : p.behindFence stuck = p := behindFence_eq hnew
  rw [hsame] at hverdict
  have hview := fullView_of_shown hv2 hnew hverdict
  have hkeeps := keepsPlace_clampQueuedWeight p.nowEff p.cfg p.cfg p.weightCapacity
  have hnone : none ∉ p.statusFullView.1 := by
    intro hmem
    obtain ⟨r, hr, hnone⟩ := mem_listQueueCapped.1 (p.statusFullView_perm.mem_iff.1 hmem)
    simp [QueueRecord.read, hread r hr] at hnone
  have heligible : ∀ t, some t ∈ p.statusFullView.1 →
      p.selectable (clampQueuedWeight t p.cfg p.weightCapacity) = p.statusEligible t := by
    intro t ht
    obtain ⟨r, hr, -, hid⟩ := exists_of_listed (p.statusFullView_perm.mem_iff.1 ht)
    rw [p.selectable_congr ((hkeeps.ticketId t).trans hid), p.statusEligible_congr hid,
      hverdict r hr]
  have horder : v.startable.map some = p.queue.map (Option.map Ticket.id) := by
    rw [startable_of_collectStatus hv, queue, fullQueue, hview]
    exact map_startable hkeeps.ticketId hnone heligible
  refine ⟨v, hv, ?_, ?_, ?_⟩
  · rw [hsame]
    exact head_of_order horder
  · rw [hsame, reservationOwnerId, hview]
    unfold collectStatus at hv
    split_ifs at hv
    obtain rfl := Option.some.inj hv
    rfl
  · rw [hsame]
    exact horder

theorem forall_of_countP_le {α : Type} {g h : α → Bool} {l : List α}
    (hle : l.countP g ≤ l.countP fun a => g a && h a) : ∀ a ∈ l, g a = true → h a = true := by
  induction l with
  | nil => nofun
  | cons a l ih =>
    have hmono : (l.countP fun a => g a && h a) ≤ l.countP g :=
      List.countP_mono_left fun a _ ha => by simp_all
    rw [List.countP_cons, List.countP_cons] at hle
    rw [List.forall_mem_cons]
    by_cases hg : g a = true <;> by_cases hh : h a = true
    · simp only [hg, hh, Bool.and_self, if_true] at hle
      exact ⟨fun _ => hh, ih (by omega)⟩
    · simp only [hg, hh, Bool.and_false, Bool.false_eq_true, if_true, if_false] at hle
      omega
    · simp only [hg, Bool.false_and, Bool.false_eq_true, if_false] at hle
      exact ⟨fun h => absurd h hg, ih (by omega)⟩
    · simp only [hg, Bool.false_and, Bool.false_eq_true, if_false] at hle
      exact ⟨fun h => absurd h hg, ih (by omega)⟩

/-- How often an eligible ticket is reported: once for each record of it. -/
theorem count_startable {v : QueueView} (hv : p.collectStatus = some v) {t : Ticket}
    (ht : p.statusEligible t = true) :
    v.startable.count t.id = p.disk.queue.countP fun r => r.ticket.id == t.id := by
  have hread := collectStatus_isSome_iff.1 (Option.isSome_iff_exists.2 ⟨v, hv⟩)
  have hcount : ∀ view : List (Option Ticket),
      ((view.reduceOption.filter p.statusEligible).map Ticket.id).count t.id =
        view.countP (hasId t.id) := by
    intro view
    induction view with
    | nil => rfl
    | cons u view ih =>
      cases u with
      | none => simpa [hasId] using ih
      | some u =>
        rw [List.reduceOption_cons_of_some, List.filter_cons, List.countP_cons, ← ih]
        by_cases hid : u.id = t.id
        · rw [p.statusEligible_congr hid, ht]
          simp [hasId, hid]
        · have hnot : hasId t.id (some u) = false := by simp [hasId, hid]
          simp only [hnot, Bool.false_eq_true, if_false]
          split_ifs <;> simp [hid]
  rw [startable_of_collectStatus hv, hcount, p.statusFullView_perm.countP_eq]
  unfold listQueueCapped
  rw [List.countP_map]
  refine List.countP_congr fun r hr => ?_
  simp [QueueRecord.read, hread r hr, hasId, capElasticClaim_id]

/-- A record of the scheduler's queue is a readable one of the new format, and selectable. -/
theorem exists_of_mem_queue (hv2 : p.v2 = true) {t : Ticket}
    (h : some t ∈ (p.behindFence stuck).queue) :
    (p.behindFence stuck).selectable t = true ∧
      ∃ r ∈ p.disk.queue, r.ticket.schedV2 = true ∧ t.id = r.ticket.id := by
  obtain ⟨hmem, hselectable⟩ := List.mem_filter.1 h
  rw [(p.behindFence stuck).fullQueue_perm.mem_iff, rawQueue_eq, List.mem_map] at hmem
  obtain ⟨r, hr, hseen⟩ := hmem
  exact ⟨hselectable, r, List.mem_of_mem_filter hr, (seen_eq_some hseen).1.2 hv2, seen_id hseen⟩

/-- How often a ticket stands in the scheduler's queue: at most once for each record of the new
format. -/
theorem count_queue_le (hv2 : p.v2 = true) (id : TicketId) :
    ((p.behindFence stuck).queue.map (Option.map Ticket.id)).count (some id) ≤
      p.disk.queue.countP fun r => r.ticket.id == id && r.ticket.schedV2 := by
  set q := p.behindFence stuck with hq
  have hhas : ∀ t : Option Ticket, (t.map Ticket.id == some id) = hasId id t := by
    intro t
    cases t <;> simp [hasId]
  calc (q.queue.map (Option.map Ticket.id)).count (some id)
      = q.queue.countP (hasId id) := by
        rw [List.count, List.countP_map]
        exact List.countP_congr fun t _ => by rw [Function.comp_apply, hhas]
    _ ≤ q.fullQueue.countP (hasId id) := List.filter_sublist.countP_le
    _ = q.disk.queue.countP (hasId id ∘ q.seen) := by
        rw [q.fullQueue_perm.countP_eq, rawQueue_eq, List.countP_map]
    _ ≤ p.disk.queue.countP (hasId id ∘ q.seen) := List.filter_sublist.countP_le
    _ ≤ p.disk.queue.countP fun r => r.ticket.id == id && r.ticket.schedV2 := by
        refine List.countP_mono_left fun r _ hr => ?_
        obtain ⟨u, hu, hid⟩ := hasId_iff.1 hr
        rw [Bool.and_eq_true, beq_iff_eq]
        exact ⟨(seen_id hu).symm.trans hid, (seen_eq_some hu).1.2 hv2⟩

/-- **What agreement takes.** -/
theorem StatusAgrees.startableAsSeen {v : QueueView} (h : p.StatusAgrees stuck v)
    (hv2 : p.v2 = true) : p.StartableAsSeen stuck := by
  have hread := collectStatus_isSome_iff.1 (Option.isSome_iff_exists.2 ⟨v, h.built⟩)
  refine ⟨hread, fun r hr heligible => ?_, fun r hr hnew hselectable => ?_⟩
  · have hcount := count_startable h.built heligible
    have hsome : v.startable.count r.ticket.id =
        ((p.behindFence stuck).queue.map (Option.map Ticket.id)).count (some r.ticket.id) := by
      rw [← h.order, List.count_map_of_injective _ some (Option.some_injective _)]
    rw [hsome] at hcount
    have hnew := forall_of_countP_le (hcount.symm.le.trans (count_queue_le hv2 r.ticket.id)) r hr
      (beq_self_eq_true _)
    have hpos : 0 < v.startable.count r.ticket.id := by
      rw [hsome, hcount]
      exact List.countP_pos_iff.2 ⟨r, hr, beq_self_eq_true _⟩
    have hmem : some r.ticket.id ∈ v.startable.map some :=
      List.mem_map_of_mem (List.count_pos_iff.1 hpos)
    rw [h.order, List.mem_map] at hmem
    obtain ⟨t, ht, hid⟩ := hmem
    obtain ⟨u, rfl, hsame⟩ := Option.map_eq_some_iff.1 hid
    exact ⟨hnew, ((p.behindFence stuck).selectable_congr hsame).symm.trans
      (exists_of_mem_queue hv2 ht).1⟩
  · -- its record is in the queue, so its id is reported, and only eligible tickets are
    have hseen : (p.behindFence stuck).seen r = some (clampQueuedWeight
        (capElasticClaim r.ticket p.cfg p.host) p.cfg p.weightCapacity) := by
      have hv2' : (p.behindFence stuck).v2 = true := hv2
      simp only [seen, hv2', if_true, QueueRecord.read, hread r hr, Option.filter_some, hnew,
        Option.map_some]
      rfl
    have hraw : some (clampQueuedWeight (capElasticClaim r.ticket p.cfg p.host) p.cfg
        p.weightCapacity) ∈ (p.behindFence stuck).rawQueue := by
      rw [rawQueue_eq, ← hseen]
      exact List.mem_map_of_mem (List.mem_filter.2 ⟨hr, by simp [hnew]⟩)
    have hid := seen_id hseen
    have hqueue : _ ∈ (p.behindFence stuck).queue :=
      List.mem_filter.2 ⟨(p.behindFence stuck).fullQueue_perm.mem_iff.2 hraw,
        ((p.behindFence stuck).selectable_congr hid).trans hselectable⟩
    have hmem : some r.ticket.id ∈ v.startable.map some := by
      rw [h.order, ← hid]
      exact List.mem_map_of_mem hqueue
    rw [List.mem_map_of_injective (Option.some_injective _),
      startable_of_collectStatus h.built, List.mem_map] at hmem
    obtain ⟨t, ht, hsame⟩ := hmem
    rw [← p.statusEligible_congr hsame]
    exact (List.mem_filter.1 ht).2

/-- **The status agrees with the scheduler** where every record is shown as it is seen, and only
where the tickets that somebody lets start are. -/
theorem collectStatus_agrees (p : Poll) (stuck : QueueRecord → Bool) (hv2 : p.v2 = true) :
    (p.ShownAsSeen stuck → ∃ v, p.StatusAgrees stuck v) ∧
      ((∃ v, p.StatusAgrees stuck v) → p.StartableAsSeen stuck) :=
  ⟨fun h => h.agrees hv2, fun ⟨_, h⟩ => h.startableAsSeen hv2⟩

/-- A root with a ticket in its queue, and a record behind it. -/
def twoRecords (readable : Bool) : Poll where
  cfg := {}
  host := { cpuCores := 8, memoryBytes := 17179869184 }
  disk := { queue := [{ ticket := { id := 1 } }, { ticket := { id := 2, seq := 1 }, readable }] }
  submitted := { id := 1 }
  now := 0

theorem collectStatus_agrees_twoRecords :
    ((twoRecords true).ShownAsSeen (fun _ => false) →
        ∃ v, (twoRecords true).StatusAgrees (fun _ => false) v) ∧
      ((∃ v, (twoRecords true).StatusAgrees (fun _ => false) v) →
        (twoRecords true).StartableAsSeen fun _ => false) :=
  collectStatus_agrees (twoRecords true) (fun _ => false) rfl

/-- **A record that cannot be read takes the status down**, whatever else is queued. -/
theorem collectStatus_throws_at_a_damaged_record : (twoRecords false).v2 = true ∧
    (twoRecords false).collectStatus = none ∧
      ¬ ∃ v, (twoRecords false).StatusAgrees (fun _ => false) v := by
  have hnone : (twoRecords false).collectStatus = none := by decide +kernel
  refine ⟨rfl, hnone, ?_⟩
  rintro ⟨v, h⟩
  have hbuilt := h.built
  rw [hnone] at hbuilt
  cases hbuilt

end Poll

end Scheduler
end LaneBroker
