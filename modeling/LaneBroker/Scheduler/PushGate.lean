/-
# Pushes of one caller

`push-gate.js`: gates that run under a `git push`.  The pushes of one caller run one at a time:
`pushHolds` says which queued gate waits behind which other push, in one pass over the gates in the
order of their pushes.  The pass keeps two gates of those it has passed, the first and the first of
another push, and that is enough to find one of another push whenever there is one
(`FirstTwo.pick_eq_none_iff`).
-/

import LaneBroker.Scheduler.Tickets
import Mathlib.Data.List.Sort

namespace LaneBroker
namespace Scheduler

/-! ### The first of a list, and the first of another key -/

section FirstTwo

variable {α κ : Type} [DecidableEq κ]

/-- The value has another key than `k`. -/
def differs (key : α → κ) (k : κ) (x : Option α) : Bool := x.any fun x => key x != k

/-- **What two values keep of a list**: its first, and the first whose key is not that one's. -/
structure FirstTwo (key : α → κ) (l : List α) (first other : Option α) : Prop where
  first_eq : first = l.head?
  other_eq : other = l.find? fun x => differs key (key x) first

variable {key : α → κ} {l : List α} {first other : Option α}

/-- The one of the two that is not of key `k`. -/
def pick (key : α → κ) (k : κ) (first other : Option α) : Option α :=
  if differs key k first then first else other

theorem firstTwo_nil : FirstTwo key [] none none := ⟨rfl, rfl⟩

theorem FirstTwo.pick_eq_some (h : FirstTwo key l first other) {k : κ} {x : α}
    (hx : pick key k first other = some x) : x ∈ l ∧ key x ≠ k := by
  unfold pick at hx
  split_ifs at hx with hfirst
  · rw [hx] at hfirst
    exact ⟨List.mem_of_head? (h.first_eq ▸ hx), by simpa [differs] using hfirst⟩
  · rw [h.other_eq] at hx
    have hmem := List.mem_of_find?_eq_some hx
    have hdiffers := List.find?_some hx
    cases hf : first with
    | none => simp [hf, differs] at hdiffers
    | some f =>
      simp only [hf, differs, Option.any_some, bne_iff_ne, ne_eq, not_not] at hfirst hdiffers
      exact ⟨hmem, fun hxk => hdiffers (hfirst.trans hxk.symm)⟩

/-- **Two values are enough**: they miss a value of another key only if there is none. -/
theorem FirstTwo.pick_eq_none_iff (h : FirstTwo key l first other) {k : κ} :
    pick key k first other = none ↔ ∀ x ∈ l, key x = k := by
  constructor
  · intro hnone x hx
    by_contra hne
    unfold pick at hnone
    split_ifs at hnone with hfirst
    · simp [hnone, differs] at hfirst
    · have hnot := List.find?_eq_none.1 (h.other_eq.symm.trans hnone) x hx
      cases hf : first with
      | none =>
        rw [h.first_eq, List.head?_eq_none_iff] at hf
        rw [hf] at hx
        exact List.not_mem_nil hx
      | some f =>
        simp only [hf, differs, Option.any_some, bne_iff_ne, ne_eq, not_not] at hfirst hnot
        exact hne (hnot.symm.trans hfirst)
  · intro hall
    cases hpick : pick key k first other with
    | none => rfl
    | some x =>
      obtain ⟨hmem, hne⟩ := h.pick_eq_some hpick
      exact absurd (hall x hmem) hne

/-- **One value more.** -/
theorem FirstTwo.snoc (h : FirstTwo key l first other) (x : α) :
    FirstTwo key (l ++ [x]) (first.or (some x))
      (if first.isNone then other
        else other.or (if differs key (key x) first then some x else none)) := by
  have hfirst := h.first_eq
  have hother := h.other_eq
  cases l with
  | nil =>
    obtain rfl : first = none := hfirst
    refine ⟨rfl, ?_⟩
    rw [hother]
    simp [differs]
  | cons a l =>
    obtain rfl : first = some a := hfirst
    refine ⟨rfl, ?_⟩
    change (other.or _) = (a :: l ++ [x]).find? fun y => differs key (key y) (some a)
    rw [List.find?_append, ← hother, List.find?_singleton]

end FirstTwo

/-! ### The order of pushes -/

/-- `pushOrder`. -/
def pushOrder (a b : PushGate) : ℤ :=
  if a.gitStartEpoch - b.gitStartEpoch = 0 then (a.gitPid : ℤ) - b.gitPid
  else a.gitStartEpoch - b.gitStartEpoch

/-- `isRepeatOfPush`. -/
def isRepeatOfPush (a b : PushGate) : Bool :=
  a.worktree == b.worktree && a.branch == b.branch && a.pushArgsHash == b.pushArgsHash &&
    a.gitPid != b.gitPid

theorem pushOrder_swap (a b : PushGate) : pushOrder b a = -pushOrder a b := by
  unfold pushOrder
  split_ifs <;> omega

/-- A push is told from another by its start and its process. -/
theorem pushOrder_eq_zero_iff {a b : PushGate} :
    pushOrder a b = 0 ↔ a.gitStartEpoch = b.gitStartEpoch ∧ a.gitPid = b.gitPid := by
  unfold pushOrder
  split_ifs <;> omega

theorem pushOrder_trans {a b c : PushGate} (h : pushOrder a b ≤ 0) (h' : pushOrder b c ≤ 0) :
    pushOrder a c ≤ 0 := by
  unfold pushOrder at *
  split_ifs at * <;> omega

/-! ### Who waits -/

/-- A stamped ticket or lease. -/
structure Gate where
  id : TicketId
  push : PushGate
  deriving DecidableEq, Repr

def Gate.pid (gate : Gate) : ℕ := gate.push.gitPid

/-- The comparison of the sort. -/
def Gate.notAfter (a b : Gate) : Prop := pushOrder a.push b.push ≤ 0

instance : DecidableRel Gate.notAfter := fun _ _ => inferInstanceAs (Decidable (_ ≤ _))

instance : Std.Total Gate.notAfter := ⟨fun a b => by
  have := pushOrder_swap a.push b.push
  unfold Gate.notAfter
  omega⟩

instance : IsTrans Gate Gate.notAfter := ⟨fun _ _ _ => pushOrder_trans⟩

/-- The gates that run; `live` is `isLive`. -/
def runningGates (live : TicketId → Bool) (leases : List Lease) : List Gate :=
  (leases.filter fun lease => decide (lease.state = .running) && live lease.id).filterMap
    fun lease => lease.pushGate.map fun push => { id := lease.id, push }

/-- The gates that are queued. -/
def queuedGates (queue : List (Option Ticket)) : List Gate :=
  queue.filterMap fun t => t.bind fun t => t.pushGate.map fun push => { id := t.id, push }

/-- The pass over the queued gates of a caller: what waits, behind what. -/
def holdQueued (live : TicketId → Bool) (firstRunning otherRunning : Option Gate) :
    Option Gate → Option Gate → List Gate → List (TicketId × TicketId)
  | _, _, [] => []
  | earliest, earliestOfAnotherPush, ticket :: rest =>
    let runningHolder := pick Gate.pid ticket.pid firstRunning otherRunning
    let holder := runningHolder.or (pick Gate.pid ticket.pid earliest earliestOfAnotherPush)
    let holds := (holder.map fun h => (ticket.id, h.id)).toList
    if !live ticket.id then
      holds ++ holdQueued live firstRunning otherRunning earliest earliestOfAnotherPush rest
    else if earliest.isNone then
      holds ++ holdQueued live firstRunning otherRunning (some ticket) earliestOfAnotherPush rest
    else if earliestOfAnotherPush.isNone && differs Gate.pid ticket.pid earliest then
      holds ++ holdQueued live firstRunning otherRunning earliest (some ticket) rest
    else holds ++ holdQueued live firstRunning otherRunning earliest earliestOfAnotherPush rest

/-- The gates of a caller. -/
def ofCaller (caller : ℕ) (gates : List Gate) : List Gate :=
  gates.filter fun gate => gate.push.caller == caller

/-- **`pushHolds`**: the entries in the order they are set. -/
def pushHolds (live : TicketId → Bool) (queue : List (Option Ticket)) (leases : List Lease) :
    List (TicketId × TicketId) :=
  let running := runningGates live leases
  let queued := queuedGates queue
  let callers := ((running ++ queued).map fun gate => gate.push.caller).eraseDups
  callers.flatMap fun caller =>
    let running := ofCaller caller running
    let firstRunning := running.head?
    let otherRunning := running.find? fun l => differs Gate.pid l.pid firstRunning
    holdQueued live firstRunning otherRunning none none
      ((ofCaller caller queued).insertionSort Gate.notAfter)

/-- `holds.has`. -/
def holdsHas (holds : List (TicketId × TicketId)) (id : TicketId) : Bool :=
  holds.any fun hold => hold.1 == id

/-- `holds.get`: the last that was set. -/
def holdsGet (holds : List (TicketId × TicketId)) (id : TicketId) : Option TicketId :=
  (holds.reverse.find? fun hold => hold.1 == id).map Prod.snd

/-! ### The pass -/

section Pass

variable {live : TicketId → Bool} {running seen : List Gate}
  {firstRunning otherRunning earliest earliestOfAnotherPush : Option Gate}

/-- What the pass has passed and keeps two of. -/
theorem FirstTwo.pass (h : FirstTwo Gate.pid seen earliest earliestOfAnotherPush)
    (live : TicketId → Bool) (firstRunning otherRunning : Option Gate) (ticket : Gate)
    (rest : List Gate) :
    ∃ first other, FirstTwo Gate.pid (seen ++ [ticket].filter fun g => live g.id) first other ∧
      holdQueued live firstRunning otherRunning earliest earliestOfAnotherPush (ticket :: rest) =
        (((pick Gate.pid ticket.pid firstRunning otherRunning).or
          (pick Gate.pid ticket.pid earliest earliestOfAnotherPush)).map
            fun h => (ticket.id, h.id)).toList ++
          holdQueued live firstRunning otherRunning first other rest := by
  by_cases hlive : live ticket.id = true
  · have hsnoc := h.snoc ticket
    have hkeep : ([ticket].filter fun g => live g.id) = [ticket] := by simp [hlive]
    rw [hkeep]
    refine ⟨_, _, hsnoc, ?_⟩
    cases earliest with
    | none => simp [holdQueued, hlive]
    | some e =>
      cases earliestOfAnotherPush with
      | none =>
        by_cases hd : differs Gate.pid ticket.pid (some e) = true
        · simp [holdQueued, hlive, hd]
        · simp [holdQueued, hlive, hd]
      | some o => simp [holdQueued, hlive]
  · have hdrop : ([ticket].filter fun g => live g.id) = [] := by simp [hlive]
    rw [hdrop, List.append_nil]
    exact ⟨_, _, h, by simp [holdQueued, hlive]⟩

/-- **Whoever waits, waits behind another push** that runs or was passed before. -/
theorem of_mem_holdQueued (hrunning : FirstTwo Gate.pid running firstRunning otherRunning)
    (hseen : FirstTwo Gate.pid seen earliest earliestOfAnotherPush) {queued : List Gate}
    {hold : TicketId × TicketId}
    (h : hold ∈ holdQueued live firstRunning otherRunning earliest earliestOfAnotherPush queued) :
    ∃ pre ticket post holder, queued = pre ++ ticket :: post ∧ hold = (ticket.id, holder.id) ∧
      holder.pid ≠ ticket.pid ∧
      (holder ∈ running ∨ holder ∈ seen ++ pre.filter fun g => live g.id) := by
  induction queued generalizing seen earliest earliestOfAnotherPush with
  | nil => cases h
  | cons ticket rest ih =>
    obtain ⟨first, other, hnext, heq⟩ := hseen.pass live firstRunning otherRunning ticket
      rest
    rw [heq, List.mem_append] at h
    rcases h with h | h
    · obtain ⟨holder, hholder, rfl⟩ := Option.map_eq_some_iff.1 (Option.mem_toList.1 h)
      refine ⟨[], ticket, rest, holder, rfl, rfl, ?_⟩
      rw [List.filter_nil, List.append_nil]
      rcases Option.or_eq_some_iff.1 hholder with hpick | ⟨-, hpick⟩
      · exact ⟨(hrunning.pick_eq_some hpick).2, .inl (hrunning.pick_eq_some hpick).1⟩
      · exact ⟨(hseen.pick_eq_some hpick).2, .inr (hseen.pick_eq_some hpick).1⟩
    · obtain ⟨pre, t, post, holder, rfl, hhold, hne, hmem⟩ := ih hnext h
      refine ⟨ticket :: pre, t, post, holder, rfl, hhold, hne, hmem.imp_right fun hmem => ?_⟩
      rwa [List.append_assoc, ← List.filter_append] at hmem

/-- **Whoever has another push before it waits.** -/
theorem exists_mem_holdQueued (post : List Gate)
    (hrunning : FirstTwo Gate.pid running firstRunning otherRunning)
    (hseen : FirstTwo Gate.pid seen earliest earliestOfAnotherPush) {pre : List Gate}
    {ticket holder : Gate} (hne : holder.pid ≠ ticket.pid)
    (hmem : holder ∈ running ∨ holder ∈ seen ++ pre.filter fun g => live g.id) :
    ∃ id, (ticket.id, id) ∈ holdQueued live firstRunning otherRunning earliest
      earliestOfAnotherPush (pre ++ ticket :: post) := by
  induction pre generalizing seen earliest earliestOfAnotherPush with
  | nil =>
    obtain ⟨first, other, -, heq⟩ := hseen.pass live firstRunning otherRunning ticket post
    rw [List.filter_nil, List.append_nil] at hmem
    rw [List.nil_append, heq]
    cases hpick : (pick Gate.pid ticket.pid firstRunning otherRunning).or
        (pick Gate.pid ticket.pid earliest earliestOfAnotherPush) with
    | some g => exact ⟨g.id, List.mem_append_left _ (by simp)⟩
    | none =>
      obtain ⟨hrun, hqueued⟩ := Option.or_eq_none_iff.1 hpick
      rcases hmem with hmem | hmem
      · exact absurd (hrunning.pick_eq_none_iff.1 hrun holder hmem) hne
      · exact absurd (hseen.pick_eq_none_iff.1 hqueued holder hmem) hne
  | cons g pre ih =>
    obtain ⟨first, other, hnext, heq⟩ := hseen.pass live firstRunning otherRunning g
      (pre ++ ticket :: post)
    obtain ⟨id, hid⟩ := ih hnext (hmem.imp_right fun hmem => by
      rwa [List.append_assoc, ← List.filter_append])
    exact ⟨id, by rw [List.cons_append, heq]; exact List.mem_append_right _ hid⟩

end Pass

/-! ### Against the pairs -/

/-- **Who holds a queued gate**, by all pairs: a live gate of the same caller and another push
that runs, or one that is queued and whose push is earlier. -/
inductive HeldBy (live : TicketId → Bool) (queue : List (Option Ticket)) (leases : List Lease)
    (push : PushGate) (holder : TicketId) : Prop
  | running {lease : Lease} {other : PushGate} : lease ∈ leases → lease.state = .running →
    lease.pushGate = some other → live lease.id = true → lease.id = holder →
    other.caller = push.caller → other.gitPid ≠ push.gitPid → HeldBy live queue leases push holder
  | queued {ticket : Ticket} {other : PushGate} : some ticket ∈ queue →
    ticket.pushGate = some other → live ticket.id = true → ticket.id = holder →
    other.caller = push.caller → other.gitPid ≠ push.gitPid → pushOrder other push < 0 →
    HeldBy live queue leases push holder

section Holds

variable {live : TicketId → Bool} {queue : List (Option Ticket)} {leases : List Lease}

theorem mem_runningGates {gate : Gate} : gate ∈ runningGates live leases ↔
    ∃ lease ∈ leases, lease.state = .running ∧ live lease.id = true ∧ lease.id = gate.id ∧
      lease.pushGate = some gate.push := by
  unfold runningGates
  simp only [List.mem_filterMap, List.mem_filter, Bool.and_eq_true, decide_eq_true_eq,
    Option.map_eq_some_iff]
  constructor
  · rintro ⟨lease, ⟨hmem, hstate, hlive⟩, push, hpush, rfl⟩
    exact ⟨lease, hmem, hstate, hlive, rfl, hpush⟩
  · rintro ⟨lease, hmem, hstate, hlive, hid, hpush⟩
    exact ⟨lease, ⟨hmem, hstate, hlive⟩, gate.push, hpush, by rw [hid]⟩

theorem mem_queuedGates {gate : Gate} : gate ∈ queuedGates queue ↔
    ∃ t, some t ∈ queue ∧ t.id = gate.id ∧ t.pushGate = some gate.push := by
  unfold queuedGates
  simp only [List.mem_filterMap, Option.bind_eq_some_iff, Option.map_eq_some_iff]
  constructor
  · rintro ⟨record, hmem, t, rfl, push, hpush, rfl⟩
    exact ⟨t, hmem, rfl, hpush⟩
  · rintro ⟨t, hmem, hid, hpush⟩
    exact ⟨some t, hmem, t, rfl, gate.push, hpush, by rw [hid]⟩

theorem mem_ofCaller {caller : ℕ} {gates : List Gate} {gate : Gate} :
    gate ∈ ofCaller caller gates ↔ gate ∈ gates ∧ gate.push.caller = caller := by
  simp [ofCaller]

/-- The queued gates of a caller, the earliest push first. -/
def queuedInOrder (queue : List (Option Ticket)) (caller : ℕ) : List Gate :=
  (ofCaller caller (queuedGates queue)).insertionSort Gate.notAfter

theorem queuedInOrder_sorted (caller : ℕ) :
    (queuedInOrder queue caller).Pairwise Gate.notAfter :=
  List.pairwise_insertionSort _ _

theorem mem_queuedInOrder {caller : ℕ} {gate : Gate} :
    gate ∈ queuedInOrder queue caller ↔ gate ∈ queuedGates queue ∧ gate.push.caller = caller :=
  (List.mem_insertionSort _).trans mem_ofCaller

/-- An entry comes from the pass over the gates of a caller. -/
theorem mem_pushHolds {hold : TicketId × TicketId} : hold ∈ pushHolds live queue leases ↔
    ∃ caller, hold ∈ holdQueued live (ofCaller caller (runningGates live leases)).head?
      ((ofCaller caller (runningGates live leases)).find? fun l => differs Gate.pid l.pid
        (ofCaller caller (runningGates live leases)).head?) none none
      (queuedInOrder queue caller) := by
  unfold pushHolds
  simp only [List.mem_flatMap]
  constructor
  · rintro ⟨caller, -, h⟩
    exact ⟨caller, h⟩
  · rintro ⟨caller, h⟩
    refine ⟨caller, ?_, h⟩
    obtain ⟨pre, ticket, post, -, heq, -⟩ := of_mem_holdQueued ⟨rfl, rfl⟩ firstTwo_nil h
    have hmem : ticket ∈ queuedInOrder queue caller := by rw [heq]; simp
    obtain ⟨hqueued, hcaller⟩ := mem_queuedInOrder.1 hmem
    rw [List.mem_eraseDups, List.mem_map]
    exact ⟨ticket, List.mem_append_right _ hqueued, hcaller⟩

/-- **An entry is right.** -/
theorem heldBy_of_mem {hold : TicketId × TicketId} (h : hold ∈ pushHolds live queue leases) :
    ∃ t push, some t ∈ queue ∧ t.id = hold.1 ∧ t.pushGate = some push ∧
      HeldBy live queue leases push hold.2 := by
  obtain ⟨caller, h⟩ := mem_pushHolds.1 h
  obtain ⟨pre, ticket, post, holder, heq, rfl, hne, hmem⟩ :=
    of_mem_holdQueued ⟨rfl, rfl⟩ firstTwo_nil h
  have hticket : ticket ∈ queuedInOrder queue caller := by rw [heq]; simp
  obtain ⟨hqueued, hcaller⟩ := mem_queuedInOrder.1 hticket
  obtain ⟨t, ht, hid, hpush⟩ := mem_queuedGates.1 hqueued
  refine ⟨t, ticket.push, ht, hid, hpush, ?_⟩
  rcases hmem with hmem | hmem
  · obtain ⟨hrunning, hholder⟩ := mem_ofCaller.1 hmem
    obtain ⟨lease, hlease, hstate, hlive, hleaseId, hleasePush⟩ := mem_runningGates.1 hrunning
    exact .running hlease hstate hleasePush hlive hleaseId (hholder.trans hcaller.symm) hne
  · rw [List.nil_append, List.mem_filter] at hmem
    have hholder : holder ∈ queuedInOrder queue caller := by rw [heq]; simp [hmem.1]
    obtain ⟨hholderQueued, hholderCaller⟩ := mem_queuedInOrder.1 hholder
    obtain ⟨u, hu, huId, huPush⟩ := mem_queuedGates.1 hholderQueued
    have hsorted : (queuedInOrder queue caller).Pairwise _ := queuedInOrder_sorted caller
    rw [heq, List.pairwise_append] at hsorted
    have hle : pushOrder holder.push ticket.push ≤ 0 :=
      hsorted.2.2 holder hmem.1 ticket List.mem_cons_self
    have hzero : pushOrder holder.push ticket.push ≠ 0 := fun h =>
      hne (pushOrder_eq_zero_iff.1 h).2
    exact .queued hu huPush (huId ▸ hmem.2) huId (hholderCaller.trans hcaller.symm) hne
      (lt_of_le_of_ne hle hzero)

/-- **No entry is missing.** -/
theorem exists_mem_of_heldBy {t : Ticket} {push : PushGate} {holder : TicketId}
    (ht : some t ∈ queue) (hpush : t.pushGate = some push)
    (h : HeldBy live queue leases push holder) :
    ∃ id, (t.id, id) ∈ pushHolds live queue leases := by
  set ticket : Gate := { id := t.id, push }
  have hticket : ticket ∈ queuedInOrder queue push.caller :=
    mem_queuedInOrder.2 ⟨mem_queuedGates.2 ⟨t, ht, rfl, hpush⟩, rfl⟩
  obtain ⟨pre, post, heq⟩ := List.append_of_mem hticket
  suffices hother : ∃ g : Gate, g.pid ≠ ticket.pid ∧
      (g ∈ ofCaller push.caller (runningGates live leases) ∨
        g ∈ [] ++ pre.filter fun g => live g.id) by
    obtain ⟨g, hne, hmem⟩ := hother
    obtain ⟨id, hid⟩ := exists_mem_holdQueued post ⟨rfl, rfl⟩ firstTwo_nil hne hmem
    exact ⟨id, mem_pushHolds.2 ⟨push.caller, heq ▸ hid⟩⟩
  cases h with
  | @running lease other hlease hstate hother hlive hid hcaller hne =>
    exact ⟨{ id := lease.id, push := other }, hne, .inl (mem_ofCaller.2
      ⟨mem_runningGates.2 ⟨lease, hlease, hstate, hlive, rfl, hother⟩, hcaller⟩)⟩
  | @queued u other hu hother hlive hid hcaller hne hlt =>
    set g : Gate := { id := u.id, push := other }
    refine ⟨g, hne, .inr ?_⟩
    have hg : g ∈ queuedInOrder queue push.caller :=
      mem_queuedInOrder.2 ⟨mem_queuedGates.2 ⟨u, hu, rfl, hother⟩, hcaller⟩
    rw [heq, List.mem_append] at hg
    rw [List.nil_append, List.mem_filter]
    refine ⟨hg.resolve_right fun hg => ?_, hlive⟩
    have hsorted : (queuedInOrder queue push.caller).Pairwise _ := queuedInOrder_sorted push.caller
    rw [heq, List.pairwise_append, List.pairwise_cons] at hsorted
    have hswap := pushOrder_swap other push
    rcases List.mem_cons.1 hg with hg | hg
    · rw [show other = push from congrArg Gate.push hg] at hne
      exact hne rfl
    · have hle : pushOrder push other ≤ 0 := hsorted.2.1.1 g hg
      omega

/-- **A gate waits exactly when it is held**, told by its id. -/
theorem holdsHas_pushHolds_iff {id : TicketId} :
    holdsHas (pushHolds live queue leases) id = true ↔
      ∃ t push holder, some t ∈ queue ∧ t.id = id ∧ t.pushGate = some push ∧
        HeldBy live queue leases push holder := by
  unfold holdsHas
  rw [List.any_eq_true]
  constructor
  · rintro ⟨hold, hmem, hid⟩
    obtain ⟨t, push, ht, htId, hpush, hheld⟩ := heldBy_of_mem hmem
    exact ⟨t, push, hold.2, ht, htId.trans (eq_of_beq hid), hpush, hheld⟩
  · rintro ⟨t, push, holder, ht, rfl, hpush, hheld⟩
    obtain ⟨h, hmem⟩ := exists_mem_of_heldBy ht hpush hheld
    exact ⟨(t.id, h), hmem, beq_self_eq_true _⟩

/-- **The holder that is reported holds a gate of that id.** -/
theorem heldBy_of_holdsGet {id holder : TicketId}
    (h : holdsGet (pushHolds live queue leases) id = some holder) :
    ∃ t push, some t ∈ queue ∧ t.id = id ∧ t.pushGate = some push ∧
      HeldBy live queue leases push holder := by
  obtain ⟨hold, hfind, rfl⟩ := Option.map_eq_some_iff.1 h
  have hmem := List.mem_reverse.1 (List.mem_of_find?_eq_some hfind)
  have hid := List.find?_some hfind
  obtain ⟨t, push, ht, htId, hpush, hheld⟩ := heldBy_of_mem hmem
  exact ⟨t, push, ht, htId.trans (eq_of_beq hid), hpush, hheld⟩

/-- A holder is reported for every gate that waits. -/
theorem exists_holdsGet {id : TicketId} (h : holdsHas (pushHolds live queue leases) id = true) :
    ∃ holder, holdsGet (pushHolds live queue leases) id = some holder := by
  obtain ⟨hold, hmem, hid⟩ := List.any_eq_true.1 h
  have hsome : ((pushHolds live queue leases).reverse.find? fun hold => hold.1 == id).isSome :=
    List.find?_isSome.2 ⟨hold, List.mem_reverse.2 hmem, hid⟩
  obtain ⟨last, hlast⟩ := Option.isSome_iff_exists.1 hsome
  exact ⟨last.2, by rw [holdsGet, hlast]; rfl⟩

/-- **The earliest live push of a caller goes**, once no other push of the caller runs. -/
theorem not_heldBy_of_least {push : PushGate} {holder : TicketId}
    (hrunning : ∀ lease ∈ leases, ∀ other, lease.state = .running → lease.pushGate = some other →
      live lease.id = true → other.caller = push.caller → other.gitPid = push.gitPid)
    (hqueued : ∀ t other, some t ∈ queue → t.pushGate = some other → live t.id = true →
      other.caller = push.caller → 0 ≤ pushOrder other push) :
    ¬HeldBy live queue leases push holder := by
  rintro (⟨hlease, hstate, hother, hlive, -, hcaller, hne⟩ |
    ⟨ht, hother, hlive, -, hcaller, -, hlt⟩)
  · exact hne (hrunning _ hlease _ hstate hother hlive hcaller)
  · exact absurd hlt (not_lt.2 (hqueued _ _ ht hother hlive hcaller))

end Holds

end Scheduler
end LaneBroker
