/-
# What every start has passed

The guards of `tryStart` stand before, inside and behind the ways a ticket can be picked.  `Starts`
says once what a start has passed (`starts_of_selection`), and `way` that there are two kinds of it:
a walk over the queue has found the record of the ticket, or the ticket itself passed the tests of a
safe backfill, an express start, a yield or a bypass.  The claims about starts follow from these.

The supervisor decides with its own copy of the ticket; `Coherent` says that the record in the queue
is that copy, but for what `enqueue` and a retier write.
-/

import LaneBroker.Scheduler.Commit

namespace LaneBroker
namespace Scheduler

open LaneBroker.Basis LaneBroker.Basis.Barrier

/-! ### The ticket and its record -/

/-- A ticket without what `enqueue` and a retier write. -/
def Ticket.declared (t : Ticket) : Ticket :=
  { t with
    seq := 0
    priorityRequested := none
    priorityAdmitted := none
    prioOriginAt := none
    schedV2 := true }

/-- **The same ticket**, but for its place and its tier. -/
def SameTicket (t u : Ticket) : Prop := t.declared = u.declared

section SameTicket

variable {t u v : Ticket}

theorem SameTicket.refl (t : Ticket) : SameTicket t t := rfl

theorem SameTicket.trans (h : SameTicket t u) (h' : SameTicket u v) : SameTicket t v :=
  Eq.trans h h'

/-- What is read of the declaration is the same. -/
theorem SameTicket.eq {α : Type} (h : SameTicket t u) (f : Ticket → α)
    (hf : ∀ t, f t.declared = f t) : f t = f u := by
  rw [← hf t, ← hf u, h]

theorem SameTicket.key (h : SameTicket t u) : t.key = u.key := h.eq _ fun _ => rfl

theorem SameTicket.maxConcurrent (h : SameTicket t u) : t.maxConcurrent = u.maxConcurrent :=
  h.eq _ fun _ => rfl

theorem SameTicket.conflicts (h : SameTicket t u) : t.conflicts = u.conflicts :=
  h.eq _ fun _ => rfl

theorem SameTicket.laneClass (h : SameTicket t u) : t.laneClass = u.laneClass :=
  h.eq _ fun _ => rfl

theorem SameTicket.exclusive (h : SameTicket t u) : t.exclusive = u.exclusive :=
  h.eq _ fun _ => rfl

theorem SameTicket.pushGate (h : SameTicket t u) : t.pushGate = u.pushGate := h.eq _ fun _ => rfl

theorem SameTicket.id_eq (h : SameTicket t u) : t.id = u.id := h.eq _ fun _ => rfl

theorem SameTicket.blockedBy_eq (h : SameTicket t u) (held : List Lease) :
    blockedBy held t = blockedBy held u :=
  blockedBy_congr held h.key h.conflicts h.maxConcurrent

end SameTicket

/-! ### What a cap changes -/

/-- A change of the resources that reads nothing else of a ticket. -/
def OnResources (f : Ticket → Ticket) : Prop :=
  ∃ g : Resources → Resources, ∀ t, f t = { t with resources := g t.resources }

theorem onResources_capElasticClaim (cfg : Config) (host : Host) :
    OnResources fun t => capElasticClaim t cfg host := by
  refine ⟨fun resources => (capElasticClaim { id := 0, resources } cfg host).resources, fun t => ?_⟩
  unfold capElasticClaim
  cases hleast : t.resources.minCpuCores with
  | none => simp [hleast]
  | some least =>
    simp only [hleast]
    split_ifs <;> rfl

theorem SameTicket.onResources {t u : Ticket} {f : Ticket → Ticket} (hf : OnResources f)
    (h : SameTicket t u) : SameTicket (f t) (f u) := by
  obtain ⟨g, hg⟩ := hf
  have hresources : t.resources = u.resources := h.eq _ fun _ => rfl
  have hdeclared : ∀ t, (f t).declared = { t.declared with resources := g t.resources } :=
    fun t => by
    rw [hg]
    rfl
  unfold SameTicket
  rw [hdeclared, hdeclared, h, hresources]

theorem SameTicket.clampQueuedWeight {t u : Ticket} (h : SameTicket t u) (cfg : Config)
    (capacity : ℚ) :
    SameTicket (clampQueuedWeight t cfg capacity) (clampQueuedWeight u cfg capacity) := by
  have hexclusive : t.exclusive = u.exclusive := h.exclusive
  have hweight : t.weight = u.weight := h.eq _ fun _ => rfl
  unfold Scheduler.clampQueuedWeight
  rw [hexclusive, hweight]
  simp only
  split_ifs
  · unfold SameTicket Ticket.declared at h ⊢
    simp only [Ticket.mk.injEq] at h ⊢
    simp only [h, and_self]
  · exact h

/-! ### The queue as it is walked -/

namespace Poll

variable {p : Poll}

theorem capSimClaim_eq (t : Ticket) (classes : ClassPolicy) (booked : Booking) (host : Host)
    (cfg : Config) :
    ∃ resources, capSimClaim t classes booked host cfg = { t with resources } := by
  unfold capSimClaim
  cases t.resources.minCpuCores with
  | none => exact ⟨t.resources, rfl⟩
  | some least =>
    simp only
    split_ifs
    · exact ⟨t.resources, rfl⟩
    · exact ⟨t.resources, rfl⟩
    · exact ⟨t.resources, rfl⟩
    · exact ⟨_, rfl⟩

theorem clampQueuedWeight_eq (t : Ticket) (cfg : Config) (capacity : ℚ) :
    ∃ weight, clampQueuedWeight t cfg capacity = { t with weight } := by
  unfold clampQueuedWeight
  simp only
  split_ifs
  · exact ⟨_, rfl⟩
  · exact ⟨t.weight, rfl⟩

theorem budgetCapped_eq (p : Poll) :
    ∃ resources weight, p.budgetCapped = { p.submitted with resources, weight } := by
  obtain ⟨g, hg⟩ := onResources_capElasticClaim p.cfg p.host
  obtain ⟨weight, hweight⟩ := clampQueuedWeight_eq (capElasticClaim p.submitted p.cfg p.host) p.cfg
    p.weightCapacity
  have hcap : capElasticClaim p.submitted p.cfg p.host =
      { p.submitted with resources := g p.submitted.resources } := hg p.submitted
  exact ⟨g p.submitted.resources, weight, by rw [budgetCapped, hweight, hcap]⟩

/-- The ticket that is judged is the ticket but for its claim. -/
theorem ticket_eq (p : Poll) :
    ∃ resources, p.ticket = { p.budgetCapped with resources } := by
  unfold ticket
  split_ifs
  · exact capSimClaim_eq _ _ _ _ _
  · exact ⟨_, rfl⟩

@[simp] theorem ticket_id (p : Poll) : p.ticket.id = p.submitted.id := by
  obtain ⟨resources, h⟩ := p.ticket_eq
  obtain ⟨resources', weight, h'⟩ := p.budgetCapped_eq
  rw [h, h']

/-- **The copy of the supervisor is the record in the queue**, but for its place and its tier. -/
def Coherent (p : Poll) : Prop :=
  ∀ r ∈ p.disk.queue, r.ticket.id = p.submitted.id → SameTicket r.ticket p.submitted

/-- A record of the disk as it is walked. -/
def seen (p : Poll) (r : QueueRecord) : Option Ticket :=
  ((if p.v2 then r.read.filter Ticket.schedV2 else r.read).map fun t =>
    capElasticClaim t p.cfg p.host).map fun t => clampQueuedWeight t p.cfg p.weightCapacity

/-- **A record that can be read and walked**: behind the fence it has to be of the new kind. -/
def Readable (p : Poll) (r : QueueRecord) : Prop :=
  r.readable = true ∧ (p.v2 = true → r.ticket.schedV2 = true)

theorem capElasticClaim_schedV2 (t : Ticket) (cfg : Config) (host : Host) :
    (capElasticClaim t cfg host).schedV2 = t.schedV2 := by
  obtain ⟨g, hg⟩ := onResources_capElasticClaim cfg host
  have hcap : capElasticClaim t cfg host = { t with resources := g t.resources } := hg t
  rw [hcap]

theorem rawQueue_eq (p : Poll) : p.rawQueue = p.disk.queue.map p.seen := by
  unfold rawQueue listQueueCapped fenceLegacy seen
  cases p.v2 with
  | false => simp [Function.comp_def]
  | true =>
    simp only [if_true, List.map_map, List.map_inj_left, Function.comp_apply]
    intro r _
    cases hread : r.read with
    | none => rfl
    | some t =>
      by_cases hsched : t.schedV2 = true
      · simp [Option.filter_some, hsched, capElasticClaim_schedV2]
      · simp [Option.filter_some, hsched, capElasticClaim_schedV2]

/-- What is walked of a record, if anything: the ticket with its claim capped. -/
theorem seen_eq_some {r : QueueRecord} {u : Ticket} (h : p.seen r = some u) :
    p.Readable r ∧
      u = clampQueuedWeight (capElasticClaim r.ticket p.cfg p.host) p.cfg p.weightCapacity := by
  unfold seen QueueRecord.read at h
  cases hreadable : r.readable with
  | false => cases hv2 : p.v2 <;> simp [hreadable, hv2] at h
  | true =>
    cases hv2 : p.v2 with
    | false =>
      simp only [hreadable, hv2, if_true, Bool.false_eq_true, if_false, Option.map_some,
        Option.some.injEq] at h
      exact ⟨⟨hreadable, fun hv2' => absurd (hv2.symm.trans hv2') Bool.false_ne_true⟩, h.symm⟩
    | true =>
      cases hsched : r.ticket.schedV2 with
      | false => simp [hreadable, hv2, hsched] at h
      | true =>
        simp only [hreadable, hv2, if_true, Option.filter_some, hsched, Option.map_some,
          Option.some.injEq] at h
        exact ⟨⟨hreadable, fun _ => hsched⟩, h.symm⟩

theorem seen_isSome_of {r : QueueRecord} (h : p.seen r ≠ none) : p.Readable r := by
  obtain ⟨u, hu⟩ := Option.ne_none_iff_exists'.1 h
  exact (seen_eq_some hu).1

theorem seen_id {r : QueueRecord} {u : Ticket} (h : p.seen r = some u) : u.id = r.ticket.id := by
  obtain ⟨-, rfl⟩ := seen_eq_some h
  obtain ⟨weight, hweight⟩ := clampQueuedWeight_eq (capElasticClaim r.ticket p.cfg p.host) p.cfg
    p.weightCapacity
  obtain ⟨g, hg⟩ := onResources_capElasticClaim p.cfg p.host
  have hcap : capElasticClaim r.ticket p.cfg p.host =
      { r.ticket with resources := g r.ticket.resources } := hg r.ticket
  rw [hweight, hcap]

/-- **What is walked of the ticket's record is the ticket.** -/
theorem Coherent.sameTicket (h : p.Coherent) {u : Ticket} (hu : some u ∈ p.rawQueue)
    (hid : u.id = p.submitted.id) : SameTicket u p.budgetCapped := by
  rw [rawQueue_eq, List.mem_map] at hu
  obtain ⟨r, hr, hseen⟩ := hu
  have hsame := h r hr ((seen_id hseen).symm.trans hid)
  obtain ⟨-, rfl⟩ := seen_eq_some hseen
  exact (hsame.onResources (onResources_capElasticClaim p.cfg p.host)).clampQueuedWeight _ _

/-- **What is walked ahead of every barrier stands on the disk behind readable records only.** -/
theorem exists_of_mem_firstRun {u : Ticket} (h : u ∈ firstRun p.rawQueue) :
    ∃ pre r post, p.disk.queue = pre ++ r :: post ∧ p.seen r = some u ∧
      ∀ r' ∈ pre, p.Readable r' := by
  obtain ⟨pre, post, hsplit, hnone⟩ := mem_firstRun_iff.1 h
  rw [rawQueue_eq, List.map_eq_append_iff] at hsplit
  obtain ⟨pre', tail, hqueue, rfl, htail⟩ := hsplit
  obtain ⟨r, post', rfl, hseen, rfl⟩ := List.map_eq_cons_iff.1 htail
  refine ⟨pre', r, post', hqueue, hseen, fun r' hr' => seen_isSome_of fun hnone' => hnone ?_⟩
  exact List.mem_map.2 ⟨r', hr', hnone'⟩

/-- The filters keep the barriers. -/
theorem mem_firstRun_queue {u : Ticket} (h : u ∈ firstRun p.queue) : u ∈ firstRun p.rawQueue := by
  unfold queue at h
  rw [firstRun_filter _ rfl, List.mem_filter] at h
  have hview : SameRuns p.rawQueue p.fullQueue := by
    unfold fullQueue fullView
    split_ifs
    · obtain ⟨ordered, -, -, hsame, -⟩ := effectiveView_spec p.rawQueue p.nowEff p.cfg
        p.store.reservations p.selectable (simsAfterTestsOf p.classes)
      exact hsame
    · exact .refl _
  exact hview.firstRun_perm.mem_iff.2 h.1

end Poll

/-! ### The turn -/

/-- **Where the head and the ticket stand**, once neither a cap nor another push keeps it out. -/
structure Turn.Placed (s : Turn) : Prop where
  notHeld : holdsHas s.pushHeld s.submitted.id = false
  notWithdrawn : s.withdrawn = false
  notExpired : s.expired = false
  notCapped : s.capReasonOf s.ticket.id = none
  head : s.queue.head? = some (some s.headTicket)
  found : s.queue.findIdx? (hasId s.ticket.id) = some s.position
  recordAt : s.queue[s.position]? = some (some s.record)

theorem Poll.turn_eq_ok {p : Poll} {s : Turn} (h : p.turn = .ok s) : s.toPoll = p ∧ s.Placed := by
  unfold Poll.turn at h
  split_ifs at h with hheld hqueued hwithdrawn hexpired
  rw [Bool.not_eq_true] at hheld hwithdrawn hexpired
  split at h
  · cases h
  · rename_i hcap
    split at h
    · rename_i headTicket position hhead hfound
      split at h
      · rename_i record hrecord
        obtain rfl := Except.ok.inj h
        refine ⟨rfl, hheld, hwithdrawn, hexpired, hcap, ?_, hfound, ?_⟩
        · exact Option.join_eq_some_iff.1 hhead
        · exact Option.join_eq_some_iff.1 hrecord
      · cases h
    · cases h

namespace Turn

variable {s : Turn}

theorem Placed.split (h : s.Placed) :
    s.queue = s.queueAhead ++ some s.record :: s.queue.drop (s.position + 1) := by
  obtain ⟨hlt, hat⟩ := List.getElem?_eq_some_iff.1 h.recordAt
  unfold queueAhead
  rw [← hat, List.cons_getElem_drop_succ, List.take_append_drop]

theorem Placed.record_id (h : s.Placed) : s.record.id = s.ticket.id := by
  obtain ⟨hlt, hat, -⟩ := List.findIdx?_eq_some_iff_getElem.1 h.found
  obtain ⟨_, hrecord⟩ := List.getElem?_eq_some_iff.1 h.recordAt
  rw [hrecord] at hat
  obtain ⟨t, ht, hid⟩ := hasId_iff.1 hat
  rw [Option.some.inj ht]
  exact hid

theorem Placed.headTicket_mem (h : s.Placed) : s.headTicket ∈ firstRun s.queue := by
  obtain ⟨rest, hrest⟩ := List.head?_eq_some_iff.1 h.head
  rw [hrest]
  exact List.mem_cons_self

theorem readableAhead_iff : s.readableAhead = true ↔ none ∉ s.queueAhead := by
  unfold readableAhead
  rw [List.all_eq_true]
  constructor
  · intro h hnone
    cases h none hnone
  · intro h record hrecord
    cases record with
    | none => exact absurd hrecord h
    | some t => rfl

/-- A ticket that a walk finds has only readable records ahead. -/
theorem Placed.readableAhead_of_mem (h : s.Placed) {u : Ticket} (hu : u ∈ firstRun s.queue)
    (hid : u.id = s.ticket.id) : s.readableAhead = true := by
  rw [readableAhead_iff]
  intro hnone
  obtain ⟨pre, post, hsplit, hpre⟩ := mem_firstRun_iff.1 hu
  obtain ⟨hlt, -, hbefore⟩ := List.findIdx?_eq_some_iff_getElem.1 h.found
  have hle : s.position ≤ pre.length := by
    by_contra hgt
    refine hbefore pre.length (by omega) ?_
    simp only [hsplit]
    rw [List.getElem_append_right le_rfl]
    simpa using hasId_iff.2 ⟨u, rfl, hid⟩
  have hmem : none ∈ s.queue.take pre.length := (List.take_subset_take_left _ hle) hnone
  rw [hsplit, List.take_left'] at hmem
  · exact hpre hmem
  · rfl

/-- **The record of a ticket with only readable ones ahead stands ahead of every barrier.** -/
theorem Placed.record_mem_firstRun (h : s.Placed) (hahead : s.readableAhead = true) :
    s.record ∈ firstRun s.queue :=
  mem_firstRun_iff.2 ⟨s.queueAhead, _, h.split, readableAhead_iff.1 hahead⟩

/-- What is walked of the ticket's record is the ticket. -/
theorem Placed.sameTicket (_ : s.Placed) (hcoherent : s.Coherent) {u : Ticket}
    (hu : u ∈ firstRun s.queue) (hid : u.id = s.ticket.id) : SameTicket u s.budgetCapped :=
  hcoherent.sameTicket (mem_of_mem_firstRun (Poll.mem_firstRun_queue hu))
    (hid.trans s.toPoll.ticket_id)

/-! ### What a start has passed -/

/-- **What a start has passed.** -/
structure Starts (s : Turn) : Prop where
  exclusive : exclusiveDeny s.headTicket s.ticket s.held = none
  up : s.selected = true ∨ s.lifted = true ∨ s.headPolling = true ∧ s.headConflicted = false
  notPaused : s.paused = false
  aboveFloor : s.exclusiveHolder = true ∨ elasticBelowFloor s.ticket s.cfg s.host = false
  caps : s.classes.mode = .active → s.grantCapReason = none
  fits : s.exclusiveHolder = true ∨
    double.add s.runningWeight s.ticket.weight ≤ s.weightCapacity
  memory : s.memInfo.any MemInfo.critical = false
  admitted : s.cfg.schedulerMode = .active → s.cpuDecision.admits = true ∨ s.idleExempt = true ∨
    s.lifted = true ∨ s.exclusiveHolder = true

/-- What the gates let through. -/
theorem starts_of_gates {g : Grant} (h : s.gates = .ok g)
    (hexclusive : exclusiveDeny s.headTicket s.ticket s.held = none)
    (hup : s.selected = true ∨ s.liftTrial = true ∨
      s.headPolling = true ∧ s.headConflicted = false) : s.Starts ∧ g = s.grant := by
  unfold gates at h
  cases hcaps : s.grantCapReason.filter fun _ => s.classes.mode = .active with
  | some reason =>
    simp only [hcaps] at h
    split_ifs at h
  | none =>
    simp only [hcaps] at h
    split_ifs at h with hpaused htrial hfloor hload hcapacity hmemory hadmission
    simp only [Bool.and_eq_true, Bool.not_eq_true', not_and, Bool.not_eq_true, Bool.not_eq_false,
      decide_eq_true_eq, not_lt] at hpaused htrial hfloor hcapacity hmemory hadmission
    refine ⟨⟨hexclusive, ?_, hpaused, ?_, ?_, ?_, hmemory, ?_⟩, (Except.ok.inj h).symm⟩
    · cases hlifted : s.lifted with
      | true => exact .inr (.inl rfl)
      | false =>
        rcases hup with hselected | hlift | hhead
        · exact .inl hselected
        · exact .inl (htrial ⟨hlift, hlifted⟩)
        · exact .inr (.inr hhead)
    · cases hholder : s.exclusiveHolder with
      | true => exact .inl rfl
      | false => exact .inr (hfloor hholder)
    · intro hmode
      cases hreason : s.grantCapReason with
      | none => rfl
      | some reason => simp [hreason, hmode, Option.filter_some] at hcaps
    · cases hholder : s.exclusiveHolder with
      | true => exact .inl rfl
      | false => exact .inr (hcapacity hholder)
    · intro hmode
      cases hadmitted : s.cpuDecision.admits with
      | true => exact .inl rfl
      | false =>
        cases hidle : s.idleExempt with
        | true => exact .inr (.inl rfl)
        | false =>
          cases hlifted : s.lifted with
          | true => exact .inr (.inr (.inl rfl))
          | false => exact .inr (.inr (.inr (hadmission ⟨⟨⟨hmode, hadmitted⟩, hidle⟩, hlifted⟩)))

/-- **A ticket that is granted has passed all of it.** -/
theorem starts_of_selection {g : Grant} (h : s.selection = .ok g) : s.Starts ∧ g = s.grant := by
  unfold selection at h
  cases hexclusive : exclusiveDeny s.headTicket s.ticket s.held with
  | some reason => simp [hexclusive] at h
  | none =>
    simp only [hexclusive] at h
    cases hcandidate : s.candidate with
    | none =>
      simp only [hcandidate] at h
      split_ifs at h with hhead hconflict
      refine starts_of_gates h hexclusive ?_
      simp only [Bool.and_eq_true, Bool.not_eq_true', not_and, Bool.not_eq_false,
        Bool.and_eq_false_iff, Bool.not_eq_false'] at hhead hconflict
      cases hlift : s.liftTrial with
      | true => exact .inr (.inl rfl)
      | false =>
        have hpolling : s.headPolling = true := by
          by_contra hnot
          rw [Bool.not_eq_true] at hnot
          rw [hhead hnot] at hlift
          cases hlift
        refine .inr (.inr ⟨hpolling, ?_⟩)
        cases hconflicted : s.headConflicted with
        | false => rfl
        | true =>
          rw [hlift] at hconflict
          exact (hconflict hconflicted (.inl rfl)).elim
    | some candidate =>
      simp only [hcandidate] at h
      split_ifs at h with hother
      refine starts_of_gates h hexclusive ?_
      rw [not_and_or, not_not, Bool.not_eq_true', Bool.not_eq_false] at hother
      rcases hother with hid | hlift
      · exact .inl (by simp [selected, hcandidate, hid])
      · exact .inr (.inl hlift)

/-! ### The two kinds of starts -/

/-- **How a start came about**: a walk found the record of the ticket, which is the head, or is
neither exclusive nor a sim behind a test; or the ticket itself passed the tests of a start past
the head. -/
inductive Way (s : Turn) : Prop
  | walk {u : Ticket} : u ∈ firstRun s.queue → u.id = s.ticket.id → blockedBy s.held u = none →
    (s.queue.head? = some (some u) ∨
      u.exclusive = false ∧ (s.simHoldsBack = true → u.laneClass ≠ .sim)) → Way s
  | direct : s.readableAhead = true → blockedBy s.held s.ticket = none →
    s.ticket.exclusive = false → (s.safeBackfill = true ∨ s.simBehindTest = false) → Way s

theorem keepBehindHead_head? (keep : Ticket → Bool) (queue : List (Option Ticket)) :
    (keepBehindHead keep queue).head? = queue.head? := by
  cases queue <;> rfl

/-- What the walks see. -/
theorem mem_walkQueue {u : Ticket} (h : u ∈ firstRun s.walkQueue) :
    u ∈ firstRun s.queue ∧ (s.queue.head? = some (some u) ∨
      u.exclusive = false ∧ (s.simHoldsBack = true → u.laneClass ≠ .sim)) := by
  unfold walkQueue withoutBackfillExclusives at h
  obtain ⟨hmem, hkind⟩ := mem_firstRun_keepBehindHead h
  cases hsim : s.simHoldsBack with
  | false =>
    simp only [hsim, Bool.false_eq_true, if_false, Bool.not_eq_true'] at hmem hkind
    exact ⟨hmem, hkind.imp_right fun hexclusive => ⟨hexclusive, fun h => absurd h (by simp)⟩⟩
  | true =>
    simp only [hsim, if_true, Bool.not_eq_true', keepBehindHead_head?] at hmem hkind
    obtain ⟨hmem, hkind'⟩ := mem_firstRun_keepBehindHead hmem
    refine ⟨hmem, ?_⟩
    rcases hkind with hhead | hexclusive
    · exact .inl hhead
    · exact hkind'.imp_right fun hclass => ⟨hexclusive, fun _ => by simpa using hclass⟩

theorem safeBackfill_iff : s.safeBackfill = true ↔
    (s.safeBackfillEnabled = true ∨ s.simEligibleForSafeBackfill s.ticket = true) ∧
      s.headPolling = false ∧ s.readableAhead = true ∧ s.cannotDelayHead s.ticket = true := by
  simp [safeBackfill, and_assoc]

theorem cannotDelayHead_iff {t : Ticket} : s.cannotDelayHead t = true ↔
    t.exclusive = false ∧ blockedBy s.held t = none ∧ apart s.headTicket t = true ∧
      double.add (double.add s.runningWeight s.headTicket.weight) t.weight ≤
        s.weightCapacity := by
  simp [cannotDelayHead, and_assoc]

theorem way_of_safeBackfill (h : s.safeBackfill = true) : s.Way := by
  obtain ⟨-, -, hahead, hdelay⟩ := safeBackfill_iff.1 h
  obtain ⟨hexclusive, hblocked, -, -⟩ := cannotDelayHead_iff.1 hdelay
  exact .direct hahead hblocked hexclusive (.inl h)

theorem way_of_headBypass (h : s.headBypass = true) : s.Way := by
  rw [headBypass, Bool.or_eq_true] at h
  rcases h with hexpress | hyield
  · rw [expressAdmit, Bool.and_eq_true, Bool.and_eq_true] at hexpress
    have heligible := hexpress.1.1
    simp only [expressEligible, Bool.and_eq_true, Bool.not_eq_true', Option.isNone_iff_eq_none]
      at heligible
    obtain ⟨⟨⟨⟨⟨⟨⟨-, hexclusive⟩, hsim⟩, hahead⟩, hblocked⟩, -⟩, -⟩, -⟩ := heligible
    exact .direct hahead hblocked hexclusive (.inr hsim)
  · rw [priorityYield, Bool.and_eq_true] at hyield
    have heligible := hyield.1
    simp only [priorityYieldEligible, Bool.and_eq_true, Bool.not_eq_true'] at heligible
    obtain ⟨⟨⟨⟨⟨-, hexclusive⟩, hsim⟩, hahead⟩, hdelay⟩, -⟩ := heligible
    exact .direct hahead (cannotDelayHead_iff.1 hdelay).2.1 hexclusive (.inr hsim)

/-- **The candidate** is found by a walk, or is the head, or the ticket itself. -/
theorem way_of_selected (hplaced : s.Placed) (h : s.selected = true) : s.Way := by
  obtain ⟨c, hc, hid⟩ := (Option.any_eq_true _ _).1 h
  rw [beq_iff_eq] at hid
  have hwalk : c ∈ firstRun s.walkQueue → blockedBy s.held c = none → s.Way := fun hmem hblocked =>
    .walk (mem_walkQueue hmem).1 hid hblocked (mem_walkQueue hmem).2
  unfold candidate at hc
  split_ifs at hc with hsafe hconflicted hexhausted hcapacity hstop hresource
  · rw [Bool.or_eq_true] at hsafe
    exact hsafe.elim way_of_safeBackfill way_of_headBypass
  · rcases Option.or_eq_some_iff.1 hc with hpick | ⟨-, hselect⟩
    · obtain ⟨record, -, hpick⟩ := Option.bind_eq_some_iff.1 hpick
      exact hwalk (selectResourceCandidate_spec hpick).1 (selectResourceCandidate_spec hpick).2
    · rw [selectCandidate_eq] at hselect
      exact hwalk (List.mem_of_find?_eq_some hselect) (by simpa using List.find?_some hselect)
  · rw [selectCapacityCandidate_eq] at hc
    have hfits := List.find?_some hc
    rw [Bool.and_eq_true, Option.isNone_iff_eq_none] at hfits
    exact hwalk (List.mem_of_find?_eq_some hc) hfits.1
  · obtain ⟨record, -, hpick⟩ := Option.bind_eq_some_iff.1 hc
    exact hwalk (selectResourceCandidate_spec hpick).1 (selectResourceCandidate_spec hpick).2
  · obtain rfl := Option.some.inj hc
    refine .walk hplaced.headTicket_mem hid ?_ (.inl hplaced.head)
    rw [headConflicted, blocker, Bool.not_eq_true, Option.isSome_eq_false_iff,
      Option.isNone_iff_eq_none] at hconflicted
    exact hconflicted

theorem noExclusiveAhead_readable (h : s.noExclusiveAhead = true) : s.readableAhead = true := by
  rw [readableAhead_iff]
  intro hnone
  have := List.all_eq_true.1 h none hnone
  cases this

theorem isFloorTicket_iff {t : Ticket} (h : isFloorTicket t = true) :
    t.exclusive = false ∧ t.laneClass ≠ .sim := by
  simp only [isFloorTicket, Bool.and_eq_true, Bool.not_eq_true', decide_eq_true_eq] at h
  exact ⟨h.2, h.1.2⟩

theorem way_of_lifted (h : s.lifted = true) : s.Way := by
  rw [lifted, Bool.or_eq_true] at h
  rcases h with hfloor | hbypass
  · rw [floorAdmit, Bool.and_eq_true] at hfloor
    obtain ⟨u, hu, hid⟩ := (Option.any_eq_true _ _).1 hfloor.2
    obtain ⟨hmem, hticket, hrunnable⟩ := floorWinner_spec hu
    obtain ⟨hexclusive, hclass⟩ := isFloorTicket_iff hticket
    simp only [runnable, Bool.and_eq_true, Option.isNone_iff_eq_none] at hrunnable
    exact .walk hmem (beq_iff_eq.1 hid) hrunnable.1.1 (.inr ⟨hexclusive, fun _ => hclass⟩)
  · simp only [bypassAdmit, Bool.and_eq_true] at hbypass
    have htrial := hbypass.1.1.1.1.1
    simp only [bypassTrial, Bool.and_eq_true, Bool.not_eq_true', Option.isNone_iff_eq_none,
      decide_eq_true_eq] at htrial
    obtain ⟨⟨⟨⟨⟨⟨⟨⟨-, hexclusive⟩, -⟩, hclass⟩, hahead⟩, hblocked⟩, -⟩, -⟩, -⟩ := htrial
    refine .direct (noExclusiveAhead_readable hahead) hblocked hexclusive (.inr ?_)
    simp [simBehindTest, hclass]

/-- **Every start came about in one of the two ways.** -/
theorem Starts.way (h : s.Starts) (hplaced : s.Placed) : s.Way := by
  rcases h.up with hselected | hlifted | ⟨hpolling, hconflicted⟩
  · exact way_of_selected hplaced hselected
  · exact way_of_lifted hlifted
  · rw [headConflicted, blocker, Option.isSome_eq_false_iff,
      Option.isNone_iff_eq_none] at hconflicted
    exact .walk hplaced.headTicket_mem (beq_iff_eq.1 hpolling).symm hconflicted (.inl hplaced.head)

/-! ### What follows for every start -/

/-- **Only readable records are ahead.** -/
theorem Starts.readableAhead (h : s.Starts) (hplaced : s.Placed) : s.readableAhead = true := by
  rcases h.way hplaced with ⟨hu, hid, -, -⟩ | ⟨hahead, -, -, -⟩
  · exact hplaced.readableAhead_of_mem hu hid
  · exact hahead

theorem ticket_eq_submitted (s : Turn) : ∃ resources weight,
    s.ticket = { s.submitted with resources, weight } := by
  obtain ⟨resources, h⟩ := s.toPoll.ticket_eq
  obtain ⟨resources', weight, h'⟩ := s.toPoll.budgetCapped_eq
  exact ⟨resources, weight, by rw [h, h']⟩

theorem lease_id (s : Turn) : s.lease.id = s.ticket.id := by
  unfold lease
  split_ifs <;> rfl

end Turn

/-! ### What `tryStart` starts -/

namespace Poll

variable {p : Poll}

theorem tryStart_of_error {denial : Denial} {store : Store}
    (h : p.decideTicket = .error (denial, store)) (io : CommitCall → Answer) (d : Disk) :
    p.tryStart io d = (.returned (.denied denial), { d with store }) := by
  unfold tryStart
  rw [h]
  rfl

/-- Only a grant leads to a start. -/
theorem decideTicket_of_started {io : CommitCall → Answer} {d d' : Disk} {lease : Lease}
    (h : p.tryStart io d = (.returned (.started lease), d')) :
    ∃ grant, p.decideTicket = .ok grant := by
  cases hdecide : p.decideTicket with
  | ok grant => exact ⟨grant, rfl⟩
  | error denial =>
    rw [tryStart_of_error hdecide] at h
    cases h

/-- What a grant has passed. -/
theorem starts_of_decideTicket {grant : Grant} (h : p.decideTicket = .ok grant) :
    ∃ s : Turn, p.turn = .ok s ∧ s.toPoll = p ∧ s.Placed ∧ s.Starts ∧ grant = s.grant := by
  unfold decideTicket at h
  cases hturn : p.turn with
  | error denial => simp [hturn] at h
  | ok s =>
    simp only [hturn] at h
    obtain ⟨hpoll, hplaced⟩ := turn_eq_ok hturn
    obtain ⟨hstarts, hgrant⟩ := Turn.starts_of_selection h
    exact ⟨s, rfl, hpoll, hplaced, hstarts, hgrant⟩

/-- **Whoever is granted a start stands behind readable records only.** -/
theorem readable_of_decideTicket {grant : Grant} (h : p.decideTicket = .ok grant) :
    ∃ pre r post, p.disk.queue = pre ++ r :: post ∧ r.ticket.id = p.submitted.id ∧ p.Readable r ∧
      ∀ r' ∈ pre, p.Readable r' := by
  obtain ⟨s, -, rfl, hplaced, hstarts, -⟩ := starts_of_decideTicket h
  have hmem := hplaced.record_mem_firstRun (hstarts.readableAhead hplaced)
  obtain ⟨pre, r, post, hqueue, hseen, hpre⟩ := exists_of_mem_firstRun (mem_firstRun_queue hmem)
  refine ⟨pre, r, post, hqueue, ?_, (seen_eq_some hseen).1, hpre⟩
  rw [← seen_id hseen, hplaced.record_id, ticket_id]

end Poll

end Scheduler
end LaneBroker
