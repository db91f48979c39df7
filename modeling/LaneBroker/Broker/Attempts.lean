/-
# Attempt records (`attempts.js`)

One durable record per remote-eligible ticket.  `generation` is the fence: `updateAttempt` and
`publishTerminal` act only on the generation their caller last saw, and `fallbackToLocal`
raises it.  The record's own existence is the only sign that no terminal result was published
yet: `publishTerminal` removes it once the result is written, and refuses when it is gone.

Each function below is a locked section: it reads the state, then performs its file operations
in the order of the source.
-/

import LaneBroker.Broker.State

namespace LaneBroker

open LaneBroker.Basis

/-- `createAttempt`, once the ownership check let the id through: generation 0, executor
`remote`, phase `probe`, no runner yet. -/
def newAttempt (supervisor : Proc) (startedAt : ℕ) : Attempt where
  generation := 0
  executor := .remote
  phase := .probe
  runner := none
  supervisor := supervisor
  startedAt := startedAt
  rebinding := none
  moving := none
  binding := none
  dispatchedRunners := []
  fallbackReason := none

/-- **Patch the stored record with no generation fence**, for a caller that already holds the
broker lock (`patchAttemptLocked`). -/
def patchAttemptLocked (id : TicketId) (patch : Attempt → Attempt) : Section Unit := do
  let s ← Locked.read
  match s.attempts.read id with
  | none => pure ()
  | some current => perform (.writeAttempt id (patch current))

/-- **Patch the stored record only at the generation the caller expects** (`updateAttempt`);
the result says whether it did. -/
def updateAttempt (id : TicketId) (expectedGeneration : ℕ) (patch : Attempt → Attempt) :
    Section Bool := do
  let s ← Locked.read
  match s.attempts.read id with
  | none => pure false
  | some current =>
    if current.generation ≠ expectedGeneration then pure false
    else do
      perform (.writeAttempt id (patch current))
      pure true

/-- What `fallbackToLocal` answers. -/
inductive Fallback
  | ok (attempt : Attempt)
  | cancelled
  | missing
  deriving DecidableEq, Repr

/-- The record of a local fallback: the next generation, queued locally. -/
def Attempt.fallBack (a : Attempt) (reason : String) : Attempt :=
  { a with
    generation := a.generation + 1
    executor := .local
    phase := .queued
    fallbackReason := some reason }

/-- **The fall back to the local queue** (`fallbackToLocal`): refused once the ticket is
cancelled. -/
def fallbackToLocal (id : TicketId) (reason : String) : Section Fallback := do
  let s ← Locked.read
  if isCancelled s id then pure .cancelled
  else
    match s.attempts.read id with
    | none => pure .missing
    | some current => do
      perform (.writeAttempt id (current.fallBack reason))
      pure (.ok (current.fallBack reason))

/-- What `publishTerminal` answers: `{ok: false, alreadyPublished}`, `{ok: false, stale}`,
`{ok: false}` for a generation mismatch, or `{ok: true, cancelled}`. -/
inductive Publication
  | alreadyPublished
  | stale
  | refused
  | published (cancelled : Bool)
  deriving DecidableEq, Repr

/-- **The one function every terminal path goes through** (`publishTerminal`).  The record is
read first: with none, another publisher settled the attempt and the writer is not called.
Then, in this order, the caller's `expect`, the cancel marker (the writer is told, whatever the
caller observed and whatever its generation), and the generation. -/
def publishTerminal (id : TicketId) (generation : ℕ) (expect : Broker → Attempt → Bool)
    (resultWriterFn : Bool → Section Unit) : Section Publication := do
  let s ← Locked.read
  match s.attempts.read id with
  | none => pure .alreadyPublished
  | some current =>
    if !expect s current then pure .stale
    else if isCancelled s id then do
      resultWriterFn true
      perform (.unlinkAttempt id)
      pure (.published true)
    else if current.generation ≠ generation then pure .refused
    else do
      resultWriterFn false
      perform (.unlinkAttempt id)
      pure (.published false)

/-- No fence of the caller's own. -/
def expectAny (_ : Broker) (_ : Attempt) : Bool := true

/-- The result of a cancelled remote ticket: exit 130 (`remoteCancelledResult`). -/
def remoteCancelledResult : TicketResult where
  exit := some 130
  cancelled := true
  reason := none
  executor := some .remote
  reconciled := false

/-- A result file and its history row, the two writes every terminal publish makes. -/
def writeResultRow (id : TicketId) (r : TicketResult) (error : Option String) : Section Unit := do
  perform (.writeResult id r)
  perform (.appendHistory { id := id, exit := r.exit, cancelled := r.cancelled, error := error })

/-! ### What the sections do -/

section Journals

variable {id : TicketId} {s : Broker} {a : Attempt} {g : ℕ} {patch : Attempt → Attempt}
  {expect : Broker → Attempt → Bool} {w : Bool → Section Unit}

theorem journal_patchAttemptLocked (id : TicketId) (patch : Attempt → Attempt) (s : Broker) :
    (patchAttemptLocked id patch).journal s =
      ((s.attempts.read id).map fun a => FileOp.writeAttempt id (patch a)).toList := by
  simp only [patchAttemptLocked, Locked.journal_bind, Locked.journal_read, Locked.value_read,
    Locked.after_read, List.nil_append]
  cases s.attempts.read id <;> rfl

theorem journal_updateAttempt_some (h : s.attempts.read id = some a) (hg : a.generation = g) :
    (updateAttempt id g patch).journal s = [.writeAttempt id (patch a)] := by
  simp [updateAttempt, h, hg]

theorem journal_updateAttempt_stale (h : ∀ a, s.attempts.read id = some a → a.generation ≠ g) :
    (updateAttempt id g patch).journal s = [] := by
  simp only [updateAttempt, Locked.journal_bind, Locked.journal_read, Locked.value_read,
    Locked.after_read, List.nil_append]
  cases ha : s.attempts.read id with
  | none => rfl
  | some a => simp [h a ha]

/-- A fenced patch writes nothing, or the patched record. -/
theorem journal_updateAttempt_cases (id : TicketId) (g : ℕ) (patch : Attempt → Attempt)
    (s : Broker) : (updateAttempt id g patch).journal s = [] ∨
      ∃ a, s.attempts.read id = some a ∧ a.generation = g ∧
        (updateAttempt id g patch).journal s = [.writeAttempt id (patch a)] := by
  cases ha : s.attempts.read id with
  | none => exact .inl (journal_updateAttempt_stale fun a h => by simp [ha] at h)
  | some a =>
    by_cases hg : a.generation = g
    · exact .inr ⟨a, rfl, hg, journal_updateAttempt_some ha hg⟩
    · exact .inl (journal_updateAttempt_stale fun b hb => by
        rw [ha] at hb
        exact Option.some.inj hb ▸ hg)

theorem fallbackToLocal_cases (id : TicketId) (reason : String) (s : Broker) :
    (∃ a, s.attempts.read id = some a ∧
        (fallbackToLocal id reason).value s = .ok (a.fallBack reason) ∧
        (fallbackToLocal id reason).journal s = [.writeAttempt id (a.fallBack reason)]) ∨
      ((fallbackToLocal id reason).value s = .cancelled ∨
        (fallbackToLocal id reason).value s = .missing) ∧
        (fallbackToLocal id reason).journal s = [] := by
  cases hc : isCancelled s id with
  | true => exact .inr ⟨.inl (by simp [fallbackToLocal, hc]), by simp [fallbackToLocal, hc]⟩
  | false =>
    cases ha : s.attempts.read id with
    | none =>
      exact .inr ⟨.inr (by simp [fallbackToLocal, hc, ha]), by simp [fallbackToLocal, hc, ha]⟩
    | some a =>
      exact .inl ⟨a, rfl, by simp [fallbackToLocal, hc, ha], by simp [fallbackToLocal, hc, ha]⟩

theorem journal_publishTerminal_none (h : s.attempts.read id = none) :
    (publishTerminal id g expect w).journal s = [] := by
  simp [publishTerminal, h]

theorem journal_publishTerminal_cancelled (h : s.attempts.read id = some a)
    (he : expect s a = true) (hc : isCancelled s id = true) :
    (publishTerminal id g expect w).journal s = (w true).journal s ++ [.unlinkAttempt id] := by
  simp [publishTerminal, h, he, hc]

theorem journal_publishTerminal_outcome (h : s.attempts.read id = some a)
    (he : expect s a = true) (hc : isCancelled s id = false) (hg : a.generation = g) :
    (publishTerminal id g expect w).journal s = (w false).journal s ++ [.unlinkAttempt id] := by
  simp [publishTerminal, h, he, hc, hg]

theorem journal_publishTerminal_refused
    (h : (publishTerminal id g expect w).value s = .refused) :
    (publishTerminal id g expect w).journal s = [] := by
  cases ha : s.attempts.read id with
  | none => exact journal_publishTerminal_none ha
  | some a =>
    cases he : expect s a with
    | false => simp [publishTerminal, ha, he]
    | true =>
      cases hc : isCancelled s id with
      | true => simp [publishTerminal, ha, he, hc] at h
      | false =>
        by_cases hg : a.generation = g
        · simp [publishTerminal, ha, he, hc, hg] at h
        · simp [publishTerminal, ha, he, hc, hg]

/-- **What a publish can have done.**  Nothing, or it found the record, its fence held, and it
ran the writer and removed the record: with the writer told of the cancel when the marker is
there, and otherwise only at the caller's own generation. -/
theorem journal_publishTerminal_cases (id : TicketId) (g : ℕ)
    (expect : Broker → Attempt → Bool) (w : Bool → Section Unit) (s : Broker) :
    (publishTerminal id g expect w).journal s = [] ∨
      ∃ a c, s.attempts.read id = some a ∧ expect s a = true ∧ isCancelled s id = c ∧
        (c = false → a.generation = g) ∧
        (publishTerminal id g expect w).journal s = (w c).journal s ++ [.unlinkAttempt id] := by
  cases ha : s.attempts.read id with
  | none => exact .inl (journal_publishTerminal_none ha)
  | some a =>
    cases he : expect s a with
    | false => exact .inl (by simp [publishTerminal, ha, he])
    | true =>
      cases hc : isCancelled s id with
      | true =>
        exact .inr ⟨a, true, rfl, he, rfl, by simp, journal_publishTerminal_cancelled ha he hc⟩
      | false =>
        by_cases hg : a.generation = g
        · exact .inr ⟨a, false, rfl, he, rfl, fun _ => hg,
            journal_publishTerminal_outcome ha he hc hg⟩
        · exact .inl (by simp [publishTerminal, ha, he, hc, hg])

@[simp] theorem journal_writeResultRow (id : TicketId) (r : TicketResult) (e : Option String)
    (s : Broker) : (writeResultRow id r e).journal s =
      [.writeResult id r, .appendHistory ⟨id, r.exit, r.cancelled, e⟩] := rfl

end Journals

end LaneBroker
