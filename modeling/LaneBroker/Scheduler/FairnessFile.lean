/-
# The records of the tickets in one file

The store behind the fence in full: `fairness-v2.json` as `loadFairness` takes it, the translation
between the raw skip records of `scheduler.js` and the records of the file (`toRecord`, `toRaw`),
and the operations of `fairnessStore`, each of which writes the whole file and only then changes what is
in memory.

A record is an object with any fields, so that what a translation drops is lost here as it is there.
None is (`toRaw_toRecord`), and no operation touches the records of another ticket.  But the file is
refused as a whole for one record that a reader would not take, and a denial without a CPU sample
leaves such a record: it has no budget (`denialRaw`).  What is written is read back from the file
just where every record in it is one that `loadFairness` takes (`keepsRecords_iff`).
-/

import LaneBroker.Basis.Faulty
import LaneBroker.Basis.JsText
import Mathlib.Logic.Function.Basic

namespace LaneBroker
namespace Scheduler
namespace FairnessFile

open LaneBroker.Basis LaneBroker.Basis.Fallible

/-! ### Objects -/

/-- The kinds of record (`REASONS`). -/
inductive Kind
  | conflict
  | capacity
  | resource
  deriving DecidableEq, Repr

/-- The text of a kind. -/
def Kind.name : Kind → JsString
  | conflict => js "conflict"
  | capacity => js "capacity"
  | resource => js "resource"

/-- **The fields** of a raw record and of a record of the file. -/
inductive Field
  | headId
  | count
  | reason
  | skipsCharged
  | blockedSince
  | graceStartedAt
  | loggedPhase
  | reserved
  | reservationSeq
  | yields
  | inScope
  | behindConflict
  | deniedAt
  | budget
  | externalBusy
  | memInfo
  | futile
  | headCpu
  | futileAt
  /-- A field that nothing here knows. -/
  | other (name : JsString)
  deriving DecidableEq

/-- **What a field holds.** -/
inductive Value
  | undefined
  | null
  | bool (b : Bool)
  | number (x : ℚ)
  /-- A number that is not finite. -/
  | notFinite
  | string (s : JsString)
  /-- `{ availableBytes, totalBytes }`. -/
  | memory (availableBytes totalBytes : ℚ)
  deriving DecidableEq

namespace Value

def absent (v : Value) : Bool := v = undefined || v = null

/-- `optional(test)`. -/
def optional (test : Value → Bool) (v : Value) : Bool := v.absent || test v

/-- `finite`. -/
def finite : Value → Bool
  | number _ => true
  | _ => false

/-- `bool`. -/
def isBool : Value → Bool
  | bool _ => true
  | _ => false

/-- `str`. -/
def isStr : Value → Bool
  | string _ => true
  | _ => false

/-- `Number.isInteger`. -/
def isInteger : Value → Bool
  | number x => x.den = 1
  | _ => false

/-- `Number.isInteger(v) && v >= 0`. -/
def isCount : Value → Bool
  | number x => x.den = 1 && 0 ≤ x
  | _ => false

/-- `v ?? w`. -/
def orElse (v w : Value) : Value := if v.absent then w else v

/-- **What JSON makes of a value** that is a field. -/
def stored : Value → Value
  | notFinite => null
  | v => v

end Value

/-- **An object**; a field that is not there is undefined. -/
abbrev Object := Field → Value

namespace Object

/-- `{ a, b, .. }`. -/
def literal : List (Field × Value) → Object
  | [], _ => .undefined
  | (field, v) :: fields, f => if f = field then v else literal fields f

/-- `const { a, b, ...rest } = o`, the rest. -/
def without (o : Object) (fields : List Field) : Object := fun f =>
  if f ∈ fields then .undefined else o f

/-- `{ ...o, ...o' }`. -/
def spread (o o' : Object) : Object := fun f => if o' f = .undefined then o f else o' f

/-- An object that is written as JSON and read again. -/
def stored (o : Object) : Object := fun f => (o f).stored

end Object

/-! ### The two shapes -/

/-- **`toRecord`.** -/
def toRecord (kind : Kind) (raw : Object) : Object :=
  let rest := raw.without [.headId, .count]
  match kind with
  | .conflict =>
    (Object.literal [(.reason, .string kind.name), (.skipsCharged, raw .count),
      (.blockedSince, raw .blockedSince), (.graceStartedAt, raw .blockedSince)]).spread
      (rest.without [.blockedSince])
  | _ => (Object.literal [(.reason, .string kind.name), (.skipsCharged, raw .count)]).spread rest

/-- **`toRaw`.** -/
def toRaw (kind : Kind) (headId : JsString) (rec : Object) : Object :=
  let rest := (rec.without [.skipsCharged, .graceStartedAt, .blockedSince]).without [.reason]
  match kind with
  | .conflict =>
    (Object.literal [(.headId, .string headId), (.count, rec .skipsCharged),
      (.blockedSince, (rec .graceStartedAt).orElse (rec .blockedSince))]).spread rest
  | _ => (Object.literal [(.headId, .string headId), (.count, rec .skipsCharged)]).spread rest

/-- **The raw shape** of a kind: it names the ticket, and it has none of the fields by which the file
keeps the record. -/
structure IsRaw (kind : Kind) (headId : JsString) (raw : Object) : Prop where
  headId : raw .headId = .string headId
  reason : raw .reason = .undefined
  skipsCharged : raw .skipsCharged = .undefined
  graceStartedAt : raw .graceStartedAt = .undefined
  blockedSince : kind ≠ .conflict → raw .blockedSince = .undefined

/-! ### The file -/

open Value in
/-- `FIELD_TYPES`. -/
def fieldTypes : Kind → List (Field × (Value → Bool))
  | .conflict =>
    [(.blockedSince, optional finite), (.graceStartedAt, optional finite),
      (.loggedPhase, optional isStr)]
  | .capacity => [(.loggedPhase, optional isStr)]
  | .resource =>
    [(.reserved, isBool), (.reservationSeq, optional isCount), (.inScope, optional isBool),
      (.behindConflict, optional isBool), (.deniedAt, finite), (.budget, finite),
      (.externalBusy, finite)]

/-- A latched reservation has no seq to be ordered by. -/
def unplaced (kind : Kind) (o : Object) : Bool :=
  kind = .resource && o .reserved = .bool true && !(o .reservationSeq).isInteger

/-- **`validRecord`.** -/
def validRecord (kind : Kind) (rec : Object) : Bool :=
  rec .reason = .string kind.name && (rec .skipsCharged).isCount &&
    (fieldTypes kind).all (fun field => field.2 (rec field.1)) && !unplaced kind rec

/-- The records of a ticket, by kind. -/
abbrev PerReason := Kind → Option Object

/-- **`tickets`**: an object keyed by ticket id. -/
abbrev Tickets := List (JsString × PerReason)

namespace Tickets

/-- `tickets[id]`, where it is an own property. -/
def own (tickets : Tickets) (id : JsString) : Option PerReason :=
  (tickets.find? fun entry => entry.1 = id).map Prod.snd

/-- `tickets[id][kind]`. -/
def record (tickets : Tickets) (kind : Kind) (id : JsString) : Option Object :=
  (tickets.own id).bind fun perReason => perReason kind

/-- `{ ...tickets, [id]: perReason }`. -/
def put (tickets : Tickets) (id : JsString) (perReason : PerReason) : Tickets :=
  (tickets.filter fun entry => entry.1 ≠ id) ++ [(id, perReason)]

/-- The tickets that stay. -/
def keep (tickets : Tickets) (stays : JsString → Bool) : Tickets :=
  tickets.filter fun entry => stays entry.1

/-- The tickets as they are written and read again. -/
def stored (tickets : Tickets) : Tickets :=
  tickets.map fun entry => (entry.1, fun kind => (entry.2 kind).map Object.stored)

end Tickets

/-- `validFairness`, of a file that has the shape of one. -/
def validFairness (tickets : Tickets) : Bool :=
  tickets.all fun entry => [Kind.conflict, .capacity, .resource].all fun kind =>
    (tickets.record kind entry.1).all (validRecord kind)

/-- **`loadFairness`**: a file with one record that is not valid is refused. -/
def loadFairness (file : Tickets) : Option Tickets := if validFairness file then some file else none

/-! ### The store -/

/-- **The state**: the tickets in memory, and the file. -/
structure Store where
  tickets : Tickets
  file : Tickets

/-- The file is what was written of the tickets, as it is behind `loadFairness`. -/
def Store.InStep (s : Store) : Prop := s.file = s.tickets.stored

/-- An operation of the store; its one call to the host is the write of the file. -/
abbrev Op := Fallible Unit Store Unit Unit

/-- `persist`. -/
def persist (next : Tickets) : Op := call () () fun s => { s with file := next.stored }

/-- The file is written, and then the memory follows. -/
def commit (next : Tickets) : Op := do
  persist next
  modify fun s => { s with tickets := next }

/-- `try { .. } catch {}`. -/
def bestEffort (op : Op) : Op := handle op fun _ => pure ()

/-- **`read`.** -/
def read (tickets : Tickets) (kind : Kind) (headId : JsString) : Option Object :=
  (tickets.record kind headId).map (toRaw kind headId)

/-- **`write`.** -/
def write (kind : Kind) (headId : JsString) (raw : Object) : Op := do
  let s ← get
  let perReason := (s.tickets.own headId).getD fun _ => none
  commit (s.tickets.put headId (Function.update perReason kind (some (toRecord kind raw))))

/-- **`dropResourceRecord`.** -/
def dropResourceRecord (headId : JsString) : Op := do
  let s ← get
  match s.tickets.own headId with
  | none => pure ()
  | some perReason =>
    match perReason .resource with
    | none => pure ()
    | some rec =>
      bestEffort (commit (s.tickets.put headId (Function.update perReason .resource
        (some (rec.spread (.literal [(.behindConflict, .bool false), (.inScope, .bool false)]))))))

/-- **`depart`.** -/
def depart (ticketId : JsString) : Op := do
  let s ← get
  if (s.tickets.own ticketId).isNone then pure ()
  else bestEffort (commit (s.tickets.keep fun id => id ≠ ticketId))

/-- `queued`: a ticket is queued, or withdrawn for a dispatch and may be restored. -/
def queued (rawQueue : List (Option JsString)) (provisional : List JsString) (id : JsString) : Bool :=
  rawQueue.contains (some id) || provisional.contains id

/-- **`prune`**; `none` in the queue is a record that cannot be read. -/
def prune (rawQueue : List (Option JsString)) (provisional : List JsString) : Op := do
  if rawQueue.contains none then pure ()
  else
    let s ← get
    let next := s.tickets.keep (queued rawQueue provisional)
    if next.length = s.tickets.length then pure () else bestEffort (commit next)

/-- A latch is held. -/
def latched (perReason : PerReason) : Bool :=
  (perReason .resource).any fun rec => rec .reserved = .bool true

/-- **`releaseReservations`.** -/
def releaseReservations : Op := do
  let s ← get
  if s.tickets.any fun entry => latched entry.2 then
    bestEffort (commit (s.tickets.map fun entry =>
      if latched entry.2 then (entry.1, Function.update entry.2 .resource none) else entry))
  else pure ()

/-! ### The translation -/

section Translation

variable {kind : Kind} {headId : JsString} {raw : Object}

@[simp] theorem Value.stored_eq_undefined {v : Value} : v.stored = .undefined ↔ v = .undefined := by
  cases v <;> simp [Value.stored]

/-- Spreading what is not there is spreading nothing. -/
@[simp] theorem Value.ite_undefined (v : Value) :
    (if v = .undefined then .undefined else v) = v := by
  split_ifs with h
  · exact h.symm
  · rfl

/-- Nothing changes in JSON but what is not finite. -/
theorem Value.stored_eq_self {v : Value} : v.stored = v ↔ v ≠ .notFinite := by
  cases v <;> simp [Value.stored]

theorem Object.stored_spread (o o' : Object) :
    (o.spread o').stored = o.stored.spread o'.stored := by
  funext f
  simp only [Object.stored, Object.spread, Value.stored_eq_undefined]
  split_ifs <;> rfl

theorem Object.stored_without (o : Object) (fields : List Field) :
    (o.without fields).stored = o.stored.without fields := by
  funext f
  simp only [Object.stored, Object.without]
  split_ifs <;> rfl

theorem Object.stored_literal (fields : List (Field × Value)) :
    (Object.literal fields).stored = Object.literal (fields.map fun e => (e.1, e.2.stored)) := by
  funext f
  induction fields with
  | nil => rfl
  | cons e fields ih =>
    obtain ⟨field, v⟩ := e
    simp only [Object.stored, Object.literal, List.map_cons] at ih ⊢
    split_ifs
    · rfl
    · exact ih

/-- **The translation does not mind JSON.** -/
theorem stored_toRecord (kind : Kind) (raw : Object) :
    (toRecord kind raw).stored = toRecord kind raw.stored := by
  cases kind <;> simp only [toRecord, Object.stored_spread, Object.stored_without,
    Object.stored_literal] <;> rfl

theorem IsRaw.stored (h : IsRaw kind headId raw) : IsRaw kind headId raw.stored where
  headId := by simp [Object.stored, h.headId, Value.stored]
  reason := by simp [Object.stored, h.reason]
  skipsCharged := by simp [Object.stored, h.skipsCharged]
  graceStartedAt := by simp [Object.stored, h.graceStartedAt]
  blockedSince hkind := by simp [Object.stored, h.blockedSince hkind]

/-- **Nothing is lost in the translation.** -/
theorem toRaw_toRecord (h : IsRaw kind headId raw) : toRaw kind headId (toRecord kind raw) = raw := by
  obtain ⟨hheadId, hreason, hskips, hgrace, hblocked⟩ := h
  funext f
  cases kind with
  | conflict =>
    cases f <;> simp [toRaw, toRecord, Object.spread, Object.literal, Object.without,
      Value.orElse, hheadId, hreason, hskips, hgrace]
  | capacity | resource =>
    have hblocked := hblocked (by decide)
    cases f <;> simp [toRaw, toRecord, Object.spread, Object.literal, Object.without,
      hheadId, hreason, hskips, hgrace, hblocked]

/-- **A raw record that the file may hold**: what `FIELD_TYPES` says of its fields holds. -/
def validRaw (kind : Kind) (raw : Object) : Bool :=
  (raw .count).isCount && (fieldTypes kind).all (fun field => field.2 (raw field.1)) &&
    !unplaced kind raw

theorem validRecord_toRecord (h : IsRaw kind headId raw) :
    validRecord kind (toRecord kind raw) = validRaw kind raw := by
  obtain ⟨hheadId, hreason, hskips, hgrace, hblocked⟩ := h
  cases kind with
  | conflict =>
    simp [validRecord, validRaw, unplaced, toRecord, fieldTypes, Object.spread, Object.literal,
      Object.without, hreason, hskips, hgrace, Value.optional, Value.absent]
  | capacity | resource =>
    simp [validRecord, validRaw, unplaced, toRecord, fieldTypes, Object.spread, Object.literal,
      Object.without, hreason, hskips]

end Translation

/-! ### The tickets -/

namespace Tickets

variable {tickets : Tickets} {id other : JsString} {kind : Kind} {perReason : PerReason}

/-- The tickets that stay keep what they have. -/
theorem own_keep (tickets : Tickets) (stays : JsString → Bool) (id : JsString) :
    (tickets.keep stays).own id = if stays id then tickets.own id else none := by
  unfold keep own
  induction tickets with
  | nil => simp
  | cons entry tickets ih =>
    rw [List.filter_cons, List.find?_cons]
    by_cases hsame : entry.1 = id
    · subst hsame
      cases hstays : stays entry.1 with
      | true => simp
      | false => simpa [hstays] using ih
    · simp only [hsame, decide_false]
      split_ifs with hstays hid hid
      · simpa [hsame, hid] using ih
      · simpa [hsame, hid] using ih
      · simpa [hid] using ih
      · simpa [hid] using ih

theorem own_put_self (tickets : Tickets) (id : JsString) (perReason : PerReason) :
    (tickets.put id perReason).own id = some perReason := by
  unfold put own
  have hgone : (tickets.filter fun entry => entry.1 ≠ id).find? (fun entry => entry.1 = id) =
      none := by simp
  rw [List.find?_append, hgone]
  simp

theorem own_put_ne (hne : other ≠ id) : (tickets.put id perReason).own other = tickets.own other := by
  have hkeep := own_keep tickets (fun id' => id' ≠ id) other
  simp only [ne_eq, hne, not_false_eq_true, decide_true, if_true] at hkeep
  unfold put own at *
  rw [List.find?_append, Option.map_or, ← hkeep]
  have hlast : List.find? (fun entry : JsString × PerReason => decide (entry.1 = other))
      [(id, perReason)] = none := by simp [Ne.symm hne]
  rw [hlast]
  simp [keep]

theorem own_map (f : PerReason → PerReason) (tickets : Tickets) (id : JsString) :
    own (tickets.map fun entry => (entry.1, f entry.2)) id = (tickets.own id).map f := by
  unfold own
  rw [List.find?_map]
  simp [Function.comp_def]

theorem own_stored (tickets : Tickets) (id : JsString) :
    tickets.stored.own id =
      (tickets.own id).map fun perReason kind => (perReason kind).map Object.stored :=
  own_map (fun perReason kind => (perReason kind).map Object.stored) tickets id

theorem record_stored (tickets : Tickets) (kind : Kind) (id : JsString) :
    tickets.stored.record kind id = (tickets.record kind id).map Object.stored := by
  unfold record
  rw [own_stored]
  cases tickets.own id <;> rfl

end Tickets

/-- **A file is taken just where each of its records is valid.** -/
theorem validFairness_iff {tickets : Tickets} : validFairness tickets = true ↔
    ∀ kind id rec, tickets.record kind id = some rec → validRecord kind rec = true := by
  unfold validFairness
  rw [List.all_eq_true]
  constructor
  · intro h kind id rec hrec
    obtain ⟨perReason, hown, -⟩ := Option.bind_eq_some_iff.1 hrec
    obtain ⟨entry, hfind, -⟩ := Option.map_eq_some_iff.1 hown
    obtain rfl : entry.1 = id := by simpa using List.find?_some hfind
    have hkinds := List.all_eq_true.1 (h entry (List.mem_of_find?_eq_some hfind)) kind
      (by cases kind <;> decide)
    simpa [hrec] using hkinds
  · intro h entry _
    refine List.all_eq_true.2 fun kind _ => ?_
    cases hrec : tickets.record kind entry.1 with
    | none => rfl
    | some rec => exact h kind entry.1 rec hrec

/-! ### The operations -/

section Operations

variable {io : Unit → Answer} {s : Store} {next : Tickets}

/-- The state behind a write of the file: it lands, or nothing has changed. -/
def Store.committed (s : Store) (next : Tickets) (io : Unit → Answer) : Store :=
  if io () = .ok then { tickets := next, file := next.stored } else s

theorem commit_eq : commit next io s =
    (match io () with
      | .ok => .returned ()
      | .fails | .failsLate => .thrown ()
      | .dies => .died, s.committed next io) := by
  unfold commit Store.committed
  change Fallible.bind (persist next) _ io s = _
  unfold Fallible.bind persist call
  cases io () <;> rfl

theorem bestEffort_commit : (bestEffort (commit next) io s).2 = s.committed next io := by
  unfold bestEffort handle
  rw [commit_eq]
  cases io () <;> rfl

/-- A store that is not written is as it was. -/
theorem Store.committed_tickets (h : io () ≠ .ok) : (s.committed next io).tickets = s.tickets := by
  unfold committed
  rw [if_neg h]

/-- What a ticket has is the same, in memory and in the file. -/
def Leaves (s t : Store) (id : JsString) : Prop :=
  t.tickets.own id = s.tickets.own id ∧ t.file.own id = s.file.own id

theorem leaves_committed {id : JsString} (hstep : s.InStep)
    (h : next.own id = s.tickets.own id) : Leaves s (s.committed next io) id := by
  unfold Store.committed Leaves
  split_ifs
  · refine ⟨h, ?_⟩
    rw [hstep, Tickets.own_stored, Tickets.own_stored, h]
  · exact ⟨rfl, rfl⟩

/-- What `write` writes. -/
def written (kind : Kind) (headId : JsString) (raw : Object) (tickets : Tickets) : Tickets :=
  tickets.put headId (Function.update ((tickets.own headId).getD fun _ => none) kind
    (some (toRecord kind raw)))

theorem write_eq (kind : Kind) (headId : JsString) (raw : Object) :
    write kind headId raw io s = commit (written kind headId raw s.tickets) io s := rfl

/-- **What an operation leaves behind**: the tickets that it is to write, or everything as it was. -/
theorem write_state (kind : Kind) (headId : JsString) (raw : Object) :
    (write kind headId raw io s).2 = s.committed (written kind headId raw s.tickets) io := by
  rw [write_eq, commit_eq]

theorem dropResourceRecord_state (io : Unit → Answer) (s : Store) (headId : JsString) :
    (dropResourceRecord headId io s).2 = s ∨ ∃ perReason,
      (dropResourceRecord headId io s).2 = s.committed (s.tickets.put headId perReason) io := by
  unfold dropResourceRecord
  change (Fallible.bind Fallible.get _ io s).2 = s ∨ ∃ perReason,
    (Fallible.bind Fallible.get _ io s).2 = _
  unfold Fallible.bind Fallible.get
  dsimp only
  cases s.tickets.own headId with
  | none => exact .inl rfl
  | some perReason =>
    dsimp only
    cases perReason .resource with
    | none => exact .inl rfl
    | some rec => exact .inr ⟨_, bestEffort_commit⟩

theorem depart_state (io : Unit → Answer) (s : Store) (ticketId : JsString) :
    (depart ticketId io s).2 = s ∨
      (depart ticketId io s).2 = s.committed (s.tickets.keep fun id => id ≠ ticketId) io := by
  unfold depart
  change (Fallible.bind Fallible.get _ io s).2 = s ∨ (Fallible.bind Fallible.get _ io s).2 = _
  unfold Fallible.bind Fallible.get
  dsimp only
  split_ifs
  · exact .inl rfl
  · exact .inr bestEffort_commit

theorem releaseReservations_state (io : Unit → Answer) (s : Store) :
    (releaseReservations io s).2 = s ∨ ∃ next, (releaseReservations io s).2 = s.committed next io := by
  unfold releaseReservations
  change (Fallible.bind Fallible.get _ io s).2 = s ∨ ∃ next,
    (Fallible.bind Fallible.get _ io s).2 = _
  unfold Fallible.bind Fallible.get
  dsimp only
  split_ifs
  · exact .inr ⟨_, bestEffort_commit⟩
  · exact .inl rfl

/-- **`prune` keeps those that are queued**, and does nothing where a record cannot be read. -/
theorem prune_state (io : Unit → Answer) (s : Store) (rawQueue : List (Option JsString))
    (provisional : List JsString) :
    ((none ∈ rawQueue ∨ s.tickets.keep (queued rawQueue provisional) = s.tickets) ∧
      (prune rawQueue provisional io s).2 = s) ∨
    none ∉ rawQueue ∧ (prune rawQueue provisional io s).2 =
      s.committed (s.tickets.keep (queued rawQueue provisional)) io := by
  unfold prune
  by_cases hnull : none ∈ rawQueue
  · rw [if_pos (by simpa using hnull)]
    exact .inl ⟨.inl hnull, rfl⟩
  · rw [if_neg (by simpa using hnull)]
    change _ ∨ _ ∧ (Fallible.bind Fallible.get _ io s).2 = _
    change (_ ∧ (Fallible.bind Fallible.get _ io s).2 = s) ∨ _
    unfold Fallible.bind Fallible.get
    dsimp only
    split_ifs with hlength
    · have hsame : s.tickets.keep (queued rawQueue provisional) = s.tickets :=
        List.filter_eq_self.2 (List.length_filter_eq_length_iff.1 hlength)
      exact .inl ⟨.inr hsame, rfl⟩
    · exact .inr ⟨hnull, bestEffort_commit⟩

end Operations

/-! ### What the store keeps -/

/-- **The store keeps the records of its tickets.** -/
structure KeepsRecords (s : Store) (kind : Kind) (headId : JsString) (raw : Object) : Prop where
  /-- What is written is read back. -/
  reads : ∀ io t, write kind headId raw io s = (.returned (), t) →
    read t.tickets kind headId = some raw
  /-- It is read back by whoever loads the file. -/
  readsFile : ∀ io t, write kind headId raw io s = (.returned (), t) →
    ((loadFairness t.file).bind fun tickets => read tickets kind headId) = some raw
  /-- Every other ticket keeps what it has. -/
  others : ∀ op ∈ [write kind headId raw, dropResourceRecord headId, depart headId],
    ∀ io other, other ≠ headId → Leaves s (op io s).2 other
  /-- `prune` takes the tickets that are not queued, and none where a record cannot be read. -/
  prunes : ∀ rawQueue provisional io id, io () = .ok →
    if none ∈ rawQueue ∨ some id ∈ rawQueue ∨ id ∈ provisional then
      Leaves s (prune rawQueue provisional io s).2 id
    else (prune rawQueue provisional io s).2.tickets.own id = none ∧
      (prune rawQueue provisional io s).2.file.own id = none
  /-- A write of the file that throws leaves the memory as it was. -/
  threw : ∀ rawQueue provisional, ∀ op ∈ [write kind headId raw, dropResourceRecord headId,
    depart headId, prune rawQueue provisional, releaseReservations],
    ∀ io, io () ≠ .ok → (op io s).2.tickets = s.tickets

section Main

variable {s : Store} {kind kind' : Kind} {headId id : JsString} {raw : Object} {io : Unit → Answer}

theorem record_written_self :
    (written kind headId raw s.tickets).record kind headId = some (toRecord kind raw) := by
  unfold Tickets.record written
  rw [Tickets.own_put_self]
  simp

theorem record_written_of_ne (hne : (kind', id) ≠ (kind, headId)) :
    (written kind headId raw s.tickets).record kind' id = s.tickets.record kind' id := by
  unfold Tickets.record written
  by_cases hid : id = headId
  · subst hid
    have hkind : kind' ≠ kind := fun h => hne (by rw [h])
    rw [Tickets.own_put_self]
    cases s.tickets.own id <;> simp [hkind]
  · rw [Tickets.own_put_ne hid]

/-- **What is written is read back from the file** just where `loadFairness` takes it, and every
record beside it. -/
theorem readsFile_iff (hraw : IsRaw kind headId raw) :
    ((loadFairness (written kind headId raw s.tickets).stored).bind fun tickets =>
        read tickets kind headId) = some raw ↔
      validRaw kind raw = true ∧ (∀ f, raw f ≠ .notFinite) ∧ ∀ kind' id rec,
        (kind', id) ≠ (kind, headId) → s.tickets.record kind' id = some rec →
          validRecord kind' rec.stored = true := by
  have hread : read (written kind headId raw s.tickets).stored kind headId = some raw.stored := by
    unfold read
    rw [Tickets.record_stored, record_written_self, Option.map_some, Option.map_some,
      stored_toRecord, toRaw_toRecord hraw.stored]
  have hsame : raw.stored = raw ↔ ∀ f, raw f ≠ .notFinite := by
    rw [funext_iff]
    exact forall_congr' fun f => Value.stored_eq_self
  have hvalid : validFairness (written kind headId raw s.tickets).stored = true ↔
      validRaw kind raw.stored = true ∧ ∀ kind' id rec, (kind', id) ≠ (kind, headId) →
        s.tickets.record kind' id = some rec → validRecord kind' rec.stored = true := by
    rw [validFairness_iff, ← validRecord_toRecord hraw.stored, ← stored_toRecord]
    constructor
    · intro h
      refine ⟨h kind headId _ ?_, fun kind' id rec hne hrec => h kind' id _ ?_⟩
      · rw [Tickets.record_stored, record_written_self, Option.map_some]
      · rw [Tickets.record_stored, record_written_of_ne hne, hrec, Option.map_some]
    · rintro ⟨hself, hothers⟩ kind' id rec hrec
      rw [Tickets.record_stored] at hrec
      by_cases heq : (kind', id) = (kind, headId)
      · obtain ⟨rfl, rfl⟩ := Prod.mk.inj heq
        rw [record_written_self, Option.map_some] at hrec
        exact Option.some.inj hrec ▸ hself
      · rw [record_written_of_ne heq] at hrec
        obtain ⟨rec', hrec', rfl⟩ := Option.map_eq_some_iff.1 hrec
        exact hothers kind' id rec' heq hrec'
  unfold loadFairness
  split_ifs with hload
  · rw [Option.bind_some, hread, Option.some.injEq, hsame]
    refine ⟨fun hfinite => ?_, fun h => h.2.1⟩
    obtain ⟨hself, hothers⟩ := hvalid.1 hload
    rw [hsame.2 hfinite] at hself
    exact ⟨hself, hfinite, hothers⟩
  · refine iff_of_false (by simp) fun ⟨hself, hfinite, hothers⟩ => hload (hvalid.2 ⟨?_, hothers⟩)
    rwa [hsame.2 hfinite]

/-- What is written is read back from the memory, whatever it is. -/
theorem read_written (hraw : IsRaw kind headId raw) :
    read (written kind headId raw s.tickets) kind headId = some raw := by
  unfold read
  rw [record_written_self, Option.map_some, toRaw_toRecord hraw]

/-- Where `write` returns, it has written. -/
theorem write_returned {t : Store} (h : write kind headId raw io s = (.returned (), t)) :
    t = { tickets := written kind headId raw s.tickets,
          file := (written kind headId raw s.tickets).stored } := by
  rw [write_eq, commit_eq] at h
  unfold Store.committed at h
  cases hio : io () with
  | ok =>
    rw [hio] at h
    exact (Prod.mk.inj h).2.symm
  | fails | failsLate | dies =>
    rw [hio] at h
    cases (Prod.mk.inj h).1

/-- **No operation touches another ticket.** -/
theorem leaves_others (hstep : s.InStep) {other : JsString} (hne : other ≠ headId) :
    ∀ op ∈ [write kind headId raw, dropResourceRecord headId, depart headId],
      Leaves s (op io s).2 other := by
  have hput : ∀ perReason, Leaves s (s.committed (s.tickets.put headId perReason) io) other :=
    fun perReason => leaves_committed hstep (Tickets.own_put_ne hne)
  intro op hop
  simp only [List.mem_cons, List.not_mem_nil, or_false] at hop
  rcases hop with rfl | rfl | rfl
  · rw [write_state]
    exact hput _
  · rcases dropResourceRecord_state io s headId with h | ⟨perReason, h⟩
    · rw [h]
      exact ⟨rfl, rfl⟩
    · rw [h]
      exact hput perReason
  · rcases depart_state io s headId with h | h
    · rw [h]
      exact ⟨rfl, rfl⟩
    · rw [h]
      refine leaves_committed hstep ?_
      rw [Tickets.own_keep, if_pos (by simpa using hne)]

/-- **`prune` takes just the tickets that are gone.** -/
theorem prunes_gone (hstep : s.InStep) (rawQueue : List (Option JsString))
    (provisional : List JsString) (id : JsString) (hio : io () = .ok) :
    if none ∈ rawQueue ∨ some id ∈ rawQueue ∨ id ∈ provisional then
      Leaves s (prune rawQueue provisional io s).2 id
    else (prune rawQueue provisional io s).2.tickets.own id = none ∧
      (prune rawQueue provisional io s).2.file.own id = none := by
  have hkept := Tickets.own_keep s.tickets (queued rawQueue provisional) id
  have hqueued : queued rawQueue provisional id = true ↔ some id ∈ rawQueue ∨ id ∈ provisional := by
    simp [queued]
  rcases prune_state io s rawQueue provisional with ⟨hreason, hsame⟩ | ⟨hnull, hsame⟩
  · rw [hsame]
    split_ifs with hstays
    · exact ⟨rfl, rfl⟩
    · obtain ⟨hnull, hgone⟩ := not_or.1 hstays
      have hkeep := hreason.resolve_left hnull
      rw [hkeep, if_neg fun h => hgone (hqueued.1 h)] at hkept
      refine ⟨hkept, ?_⟩
      rw [hstep, Tickets.own_stored, hkept, Option.map_none]
  · rw [hsame]
    split_ifs with hstays
    · refine leaves_committed hstep ?_
      rw [hkept, if_pos (hqueued.2 (hstays.resolve_left hnull))]
    · obtain ⟨-, hgone⟩ := not_or.1 hstays
      rw [if_neg fun h => hgone (hqueued.1 h)] at hkept
      unfold Store.committed
      rw [if_pos hio]
      refine ⟨hkept, ?_⟩
      rw [Tickets.own_stored, hkept, Option.map_none]

/-- **Every operation rewrites the whole file, or leaves everything as it was.** -/
theorem state_cases (rawQueue : List (Option JsString)) (provisional : List JsString) :
    ∀ op ∈ [write kind headId raw, dropResourceRecord headId, depart headId,
      prune rawQueue provisional, releaseReservations],
      (op io s).2 = s ∨ ∃ next, (op io s).2 = s.committed next io := by
  intro op hop
  simp only [List.mem_cons, List.not_mem_nil, or_false] at hop
  rcases hop with rfl | rfl | rfl | rfl | rfl
  · exact .inr ⟨_, write_state kind headId raw⟩
  · exact (dropResourceRecord_state io s headId).imp_right fun ⟨_, h⟩ => ⟨_, h⟩
  · exact (depart_state io s headId).imp_right fun h => ⟨_, h⟩
  · exact (prune_state io s rawQueue provisional).imp And.right fun h => ⟨_, h.2⟩
  · exact releaseReservations_state io s

/-- **A write that throws changes nothing in memory.** -/
theorem tickets_of_threw (hio : io () ≠ .ok) (rawQueue : List (Option JsString))
    (provisional : List JsString) :
    ∀ op ∈ [write kind headId raw, dropResourceRecord headId, depart headId,
      prune rawQueue provisional, releaseReservations], (op io s).2.tickets = s.tickets := by
  intro op hop
  rcases state_cases rawQueue provisional op hop with h | ⟨next, h⟩
  · rw [h]
  · rw [h, Store.committed_tickets hio]

/-- **The store keeps the records of its tickets just where the file can hold them**: the record that
is written, and every one beside it. -/
theorem keepsRecords_iff (hstep : s.InStep) (hraw : IsRaw kind headId raw) :
    KeepsRecords s kind headId raw ↔
      validRaw kind raw = true ∧ (∀ f, raw f ≠ .notFinite) ∧ ∀ kind' id rec,
        (kind', id) ≠ (kind, headId) → s.tickets.record kind' id = some rec →
          validRecord kind' rec.stored = true := by
  rw [← readsFile_iff hraw]
  constructor
  · intro h
    exact h.readsFile (fun _ => .ok) _ rfl
  · intro hfile
    constructor
    · intro io t ht
      rw [write_returned ht]
      exact read_written hraw
    · intro io t ht
      rw [write_returned ht]
      exact hfile
    · exact fun op hop io other hne => leaves_others hstep hne op hop
    · exact fun rawQueue provisional io id hio => prunes_gone hstep rawQueue provisional id hio
    · exact fun rawQueue provisional op hop io hio =>
        tickets_of_threw hio rawQueue provisional op hop

/-! ### What is written -/

/-- **What `recordResourceDenial` writes of a head without a record.**  The load is that of the
decision, which has none without a CPU sample; `futility` is a cause, the cores of the head and when
they were sampled. -/
def denialRaw (headId : JsString) (now : ℤ) (budget externalBusy : Option ℚ) (behindConflict : Bool)
    (futility : Option (JsString × ℚ × ℤ)) (memInfo : Option (ℚ × ℚ)) : Object :=
  .literal ([(.headId, .string headId), (.count, .number 0), (.reserved, .bool false),
    (.inScope, .bool true)] ++
    (if behindConflict then [(.behindConflict, .bool behindConflict)] else []) ++
    [(.deniedAt, .number now), (.budget, (budget.map .number).getD .null),
      (.externalBusy, (externalBusy.map .number).getD .null)] ++
    (memInfo.elim [] fun memInfo => [(.memInfo, .memory memInfo.1 memInfo.2)]) ++
    futility.elim [] fun futility => [(.futile, .string futility.1), (.headCpu, .number futility.2.1),
      (.futileAt, .number futility.2.2)])

section Denials

variable {headId : JsString} {now : ℤ} {budget externalBusy : Option ℚ} {behindConflict : Bool}
  {futility : Option (JsString × ℚ × ℤ)} {memInfo : Option (ℚ × ℚ)}

theorem denialRaw_isRaw : IsRaw .resource headId
    (denialRaw headId now budget externalBusy behindConflict futility memInfo) := by
  constructor
  · rfl
  all_goals cases behindConflict <;> cases memInfo <;> cases futility <;> simp [denialRaw,
    Object.literal]

/-- **The file can hold a denial only where there was a load.** -/
theorem denialRaw_valid_iff : validRaw .resource
    (denialRaw headId now budget externalBusy behindConflict futility memInfo) = true ↔
      budget.isSome = true ∧ externalBusy.isSome = true := by
  have hload : ∀ x : Option ℚ, ((x.map Value.number).getD .null).finite = x.isSome := by
    intro x
    cases x <;> rfl
  have hnumber : ∀ x, (Value.number x).finite = true := fun _ => rfl
  cases behindConflict <;> cases memInfo <;> cases futility <;> simp [validRaw, unplaced, fieldTypes,
    denialRaw, Object.literal, Value.isCount, Value.optional, Value.absent, Value.isBool,
    hload, hnumber]

end Denials

/-- An empty store. -/
def emptyStore : Store where
  tickets := []
  file := []

/-- A head that was denied for want of cores, with a sample of the load. -/
def sampledDenial : Object := denialRaw (js "head") 0 (some 6) (some 1) false none none

theorem keepsRecords_iff_sampled : KeepsRecords emptyStore .resource (js "head") sampledDenial := by
  have hraw : IsRaw .resource (js "head") sampledDenial := denialRaw_isRaw
  refine (keepsRecords_iff (s := emptyStore) rfl hraw).2 ⟨denialRaw_valid_iff.2 ⟨rfl, rfl⟩, ?_, ?_⟩
  · intro f
    cases f <;> simp [sampledDenial, denialRaw, Object.literal]
  · rintro kind' id rec - hrec
    cases hrec

/-- A head that was denied below its floor, without a sample. -/
def unsampledDenial : Object :=
  denialRaw (js "head") 0 none none false (some (js "elastic-below-floor", 2, 0)) none

/-- **A denial without a sample is not read back from the file.** -/
theorem denial_not_kept : ¬ ∀ (s : Store) (kind : Kind) (headId : JsString) (raw : Object),
    s.InStep → IsRaw kind headId raw → KeepsRecords s kind headId raw := by
  intro h
  have hkeeps := h emptyStore .resource (js "head") unsampledDenial rfl denialRaw_isRaw
  have hfile := hkeeps.readsFile (fun _ => .ok) _ rfl
  have hvalid := ((readsFile_iff denialRaw_isRaw).1 hfile).1
  have hload := denialRaw_valid_iff.1 hvalid
  exact absurd hload.1 (by decide)

end Main

end FairnessFile
end Scheduler
end LaneBroker
