/-
# Shipping one record to the replica

The `Replicator` of `store/replicate.js` ships the records of the journal one by one: an
object is uploaded and then read back, a pin or a terminal mark is applied and then read back,
and the records of deletions stay where they are.  What it asks of the replica, of its own
disk and of its own journal are the calls of a `Program`, and `ship_ends` says what has been
answered when a record counts as shipped or as skipped.
-/

import LaneBroker.Basis.Program
import LaneBroker.Store.Journal
import LaneBroker.Store.Records

namespace LaneBroker
namespace Store

open LaneBroker.Basis

/-! ### Calls -/

/-- **What the replicator asks**: of the primary's disk, of its journal, and of the replica. -/
inductive Call (σ ι : Type)
  /-- `fs.existsSync`. -/
  | existsSync (path : Path σ ι)
  /-- Is there a committed `delete` of the path from an offset on? -/
  | committedDeletion (path : Path σ ι) (fromOffset : Nat)
  /-- `hashFile`. -/
  | hashFile (path : Path σ ι)
  /-- `store.meta`. -/
  | storeMeta (job : ι)
  | putObject (path : Path σ ι)
  | verifyObject (path : Path σ ι)
  | setTerminal (job : ι) (terminalAt : Int)
  | setPin (job : ι) (pinned : Bool)
  | jobMeta (job : ι)
  deriving DecidableEq

/-- **How the replica answers an upload.** -/
inductive PutReply (σ : Type)
  | stored
  /-- A 409 with the blobs that the manifest needs. -/
  | missing (shas : List σ)
  | fails
  deriving DecidableEq

/-- **The answers of each call**, with `none` where it throws. -/
def Reply {σ ι : Type} : Call σ ι → Type
  | .existsSync _ => Bool
  | .committedDeletion _ _ => Option Bool
  | .hashFile _ => Option (σ × Nat)
  | .storeMeta _ => Option Meta
  | .putObject _ => PutReply σ
  | .verifyObject _ => Option (Option (σ × Nat))
  | .setTerminal _ _ => Option Bool
  | .setPin _ _ => Option Bool
  | .jobMeta _ => Option (Option Meta)

/-- **Why a record is not shipped.** -/
inductive ShipError (σ ι : Type)
  | callFailed
  | missingOnPrimary (path : Path σ ι)
  | verificationFailed (path : Path σ ι)
  | blobGone (sha : σ)
  | blobCorrupt (sha : σ)
  | noJob (job : ι)
  | stateDiffers (job : ι)
  | unknownKind
  deriving DecidableEq

/-- A function of the replicator. -/
abbrev Shipping (σ ι : Type) := Program (Call σ ι) Reply (ShipError σ ι)

/-- An answered call of it. -/
abbrev ShipEvent (σ ι : Type) := Program.Event (Reply (σ := σ) (ι := ι))

variable {σ ι : Type}

/-- What a call returned, if it did not throw. -/
def orThrow {α : Type} : Option α → Shipping σ ι α
  | some a => .done a
  | none => .thrown .callFailed

def existsSync (path : Path σ ι) : Shipping σ ι Bool := .call (.existsSync path) .done

def committedDeletion (path : Path σ ι) (fromOffset : Nat) : Shipping σ ι Bool :=
  .call (.committedDeletion path fromOffset) orThrow

def hashFile (path : Path σ ι) : Shipping σ ι (σ × Nat) := .call (.hashFile path) orThrow

def storeMeta (job : ι) : Shipping σ ι Meta := .call (.storeMeta job) orThrow

def putObject (path : Path σ ι) : Shipping σ ι (PutReply σ) :=
  .call (.putObject path) .done

def verifyObject (path : Path σ ι) : Shipping σ ι (Option (σ × Nat)) :=
  .call (.verifyObject path) orThrow

def setTerminal (job : ι) (terminalAt : Int) : Shipping σ ι Bool :=
  .call (.setTerminal job terminalAt) orThrow

def setPin (job : ι) (pinned : Bool) : Shipping σ ι Bool := .call (.setPin job pinned) orThrow

def jobMeta (job : ι) : Shipping σ ι (Option Meta) := .call (.jobMeta job) orThrow

/-! ### The functions -/

/-- **What becomes of a record that the watermark moves past.** -/
inductive Outcome
  | shipped
  | skipped
  /-- `local`: a record that is never shipped. -/
  | kept
  deriving DecidableEq, Repr

variable [DecidableEq σ]

/-- An upload whose every refusal throws. -/
def putOrThrow (path : Path σ ι) : Shipping σ ι Unit := do
  match ← putObject path with
  | .stored => pure ()
  | _ => .thrown .callFailed

/-- **`restoreBlobs`.** -/
def restoreBlobs : List σ → Shipping σ ι Unit
  | [] => pure ()
  | sha :: shas => do
    if ← existsSync (.blob sha) then
      let (sha256, size) ← hashFile (.blob sha)
      if sha256 ≠ sha then .thrown (.blobCorrupt sha)
      else
        putOrThrow (.blob sha)
        let seen ← verifyObject (.blob sha)
        if seen ≠ some (sha, size) then .thrown (.verificationFailed (.blob sha))
        else restoreBlobs shas
    else .thrown (.blobGone sha)

/-- The upload of an object; where the replica lacks blobs of a manifest, they are restored and
the manifest is uploaded again. -/
def uploadObject (path : Path σ ι) : Shipping σ ι Unit := do
  match path, ← putObject path with
  | _, .stored => pure ()
  | .manifest _, .missing shas =>
    restoreBlobs shas
    putOrThrow path
  | _, _ => .thrown .callFailed

/-- **`shipObject`.** -/
def shipObject (path : Path σ ι) (sha256 : σ) (size finish : Nat) : Shipping σ ι Outcome := do
  if ← existsSync path then
    uploadObject path
    let seen ← verifyObject path
    if seen = some (sha256, size) then pure .shipped
    else .thrown (.verificationFailed path)
  else if ← committedDeletion path finish then pure .skipped
  else .thrown (.missingOnPrimary path)

/-- **`shipState`**, for a mark that `applied` applies and that a job `agrees` with. -/
def shipState (job : ι) (finish : Nat) (applies : Shipping σ ι Bool) (agrees : Meta → Bool) :
    Shipping σ ι Outcome := do
  if ← applies then
    let seen ← jobMeta job
    if seen.any agrees then pure .shipped else .thrown (.stateDiffers job)
  else if ← existsSync (.manifest job) then
    let m ← storeMeta job
    if m.terminalAt.isSome then pure .skipped else .thrown (.noJob job)
  else if ← committedDeletion (.manifest job) finish then pure .skipped
  else .thrown (.noJob job)

/-- **`ship`.** -/
def ship (e : Entry (Fields σ ι)) : Shipping σ ι Outcome :=
  match e.record.fields with
  | .put path sha256 size => shipObject path sha256 size e.finish
  | .terminal job at' =>
    shipState job e.finish (setTerminal job at') fun m => m.terminalAt = some at'
  | .pin job pinned => shipState job e.finish (setPin job pinned) fun m => m.pinned = pinned
  | .deleteIntent _ | .delete _ | .deleteCancel _ => pure .kept
  | .other => .thrown .unknownKind

/-! ### What has been answered when the watermark moves past a record -/

omit [DecidableEq σ] in
/-- **The replica confirmed a record**: it took what was shipped, and then reported it back. -/
def Confirmed (events : List (ShipEvent σ ι)) : Fields σ ι → Prop
  | .put path sha256 size =>
    [⟨.putObject path, .stored⟩, ⟨.verifyObject path, some (some (sha256, size))⟩].Sublist events
  | .terminal job at' => ∃ m : Meta, m.terminalAt = some at' ∧
      [⟨.setTerminal job at', some true⟩, ⟨.jobMeta job, some (some m)⟩].Sublist events
  | .pin job pinned => ∃ m : Meta, m.pinned = pinned ∧
      [⟨.setPin job pinned, some true⟩, ⟨.jobMeta job, some (some m)⟩].Sublist events
  | .deleteIntent _ | .delete _ | .deleteCancel _ | .other => False

/-- A committed deletion of the path was found from an offset on. -/
def FoundDeleted (events : List (ShipEvent σ ι)) (path : Path σ ι) (finish : Nat) : Prop :=
  ⟨.committedDeletion path finish, some true⟩ ∈ events

/-- The job was found on the primary's disk, and terminal. -/
def FoundTerminal (events : List (ShipEvent σ ι)) (job : ι) : Prop :=
  ∃ m : Meta, m.terminalAt.isSome ∧ ⟨.existsSync (.manifest job), true⟩ ∈ events ∧
    ⟨.storeMeta job, some m⟩ ∈ events

/-- **A record may be skipped**: what it is about was deleted later, or is a terminal job. -/
def Excused (events : List (ShipEvent σ ι)) (finish : Nat) : Fields σ ι → Prop
  | .put path _ _ => FoundDeleted events path finish
  | .terminal job _ | .pin job _ =>
    FoundTerminal events job ∨ FoundDeleted events (.manifest job) finish
  | .deleteIntent _ | .delete _ | .deleteCancel _ | .other => False

/-- **Records of deletions**, which are never shipped. -/
def Fields.IsLocal : Fields σ ι → Prop
  | .deleteIntent _ | .delete _ | .deleteCancel _ => True
  | .put _ _ _ | .terminal _ _ | .pin _ _ | .other => False

/-- **What has been answered**, by what became of the record. -/
def Settled (r : Fields σ ι) (finish : Nat) :
    Except (ShipError σ ι) Outcome → List (ShipEvent σ ι) → Prop
  | .ok .shipped, events => Confirmed events r
  | .ok .skipped, events => Excused events finish r
  | .ok .kept, _ => r.IsLocal
  | .error _, _ => True

open Program

section Calls

variable {β : Type} {Q : Except (ShipError σ ι) β → List (ShipEvent σ ι) → Prop}

omit [DecidableEq σ]

theorem ends_existsSync {path : Path σ ι} {f : Bool → Shipping σ ι β} :
    Ends (existsSync path >>= f) Q ↔
      ∀ r : Bool, Ends (f r) fun x events => Q x (⟨.existsSync path, r⟩ :: events) := Iff.rfl

theorem ends_putObject {path : Path σ ι} {f : PutReply σ → Shipping σ ι β} :
    Ends (putObject path >>= f) Q ↔
      ∀ r : PutReply σ, Ends (f r) fun x events => Q x (⟨.putObject path, r⟩ :: events) := Iff.rfl

/-- The rule for a call that may throw. -/
theorem ends_orThrow {α : Type} {x : Option α} {f : α → Shipping σ ι β} :
    Ends (orThrow x >>= f) Q ↔
      (x = none → Q (.error .callFailed) []) ∧ ∀ a, x = some a → Ends (f a) Q := by
  cases x <;> simp [orThrow]

theorem ends_verifyObject {path : Path σ ι} {f : Option (σ × Nat) → Shipping σ ι β} :
    Ends (verifyObject path >>= f) Q ↔
      ∀ r, Ends (orThrow r >>= f) fun x events => Q x (⟨.verifyObject path, r⟩ :: events) := Iff.rfl

theorem ends_committedDeletion {path : Path σ ι} {finish : Nat} {f : Bool → Shipping σ ι β} :
    Ends (committedDeletion path finish >>= f) Q ↔
      ∀ r, Ends (orThrow r >>= f) fun x events =>
        Q x (⟨.committedDeletion path finish, r⟩ :: events) := Iff.rfl

theorem ends_storeMeta {job : ι} {f : Meta → Shipping σ ι β} :
    Ends (storeMeta job >>= f) Q ↔
      ∀ r, Ends (orThrow r >>= f) fun x events => Q x (⟨.storeMeta job, r⟩ :: events) := Iff.rfl

theorem ends_jobMeta {job : ι} {f : Option Meta → Shipping σ ι β} :
    Ends (jobMeta job >>= f) Q ↔
      ∀ r, Ends (orThrow r >>= f) fun x events => Q x (⟨.jobMeta job, r⟩ :: events) := Iff.rfl

end Calls

omit [DecidableEq σ] in
theorem putOrThrow_ends (path : Path σ ι) :
    Ends (putOrThrow path) fun x events => x = .ok () → ⟨.putObject path, .stored⟩ ∈ events := by
  rw [putOrThrow, ends_putObject]
  intro r
  cases r with
  | stored => exact fun _ => List.mem_cons_self
  | missing shas => exact nofun
  | fails => exact nofun

/-- An upload that returns has stored the object. -/
theorem uploadObject_ends (path : Path σ ι) :
    Ends (uploadObject path) fun x events => x = .ok () → ⟨.putObject path, .stored⟩ ∈ events := by
  rw [uploadObject, ends_putObject]
  intro r
  cases r with
  | stored => exact fun _ => List.mem_cons_self
  | fails =>
    cases path with
    | blob sha => exact nofun
    | manifest job => exact nofun
  | missing shas =>
    cases path with
    | blob sha => exact nofun
    | manifest job =>
      -- the manifest is uploaded a second time, behind the blobs it needs
      refine ends_bind.2 ((ends_true _).mono fun x events _ => ?_)
      cases x with
      | error e => exact nofun
      | ok u =>
        refine (putOrThrow_ends (.manifest job)).mono fun y more h hy => ?_
        exact List.mem_cons_of_mem _ (List.mem_append_right _ (h hy))

theorem shipObject_ends (path : Path σ ι) (sha256 : σ) (size finish : Nat) :
    Ends (shipObject path sha256 size finish) (Settled (.put path sha256 size) finish) := by
  rw [shipObject, ends_existsSync]
  intro here
  cases here with
  | true =>
    refine ends_bind.2 ((uploadObject_ends path).mono fun x events hput => ?_)
    cases x with
    | error e => trivial
    | ok u =>
      refine ends_verifyObject.2 fun r => ends_orThrow.2 ⟨fun _ => trivial, fun seen hseen => ?_⟩
      obtain rfl := hseen
      by_cases h : seen = some (sha256, size)
      · rw [if_pos h, h]
        have hput := List.singleton_sublist.2 (hput rfl)
        exact (hput.append (List.Sublist.refl [_])).cons _
      · rw [if_neg h]
        trivial
  | false =>
    refine ends_committedDeletion.2 fun r => ends_orThrow.2 ⟨fun _ => trivial, fun found h => ?_⟩
    obtain rfl := h
    cases found with
    | true => exact List.mem_cons_of_mem _ List.mem_cons_self
    | false => trivial

omit [DecidableEq σ] in
/-- `shipState` in general: what `applies` does is one call, and `agrees` is what the mark says. -/
theorem shipState_ends {r : Fields σ ι} {job : ι} {finish : Nat} {applies : Shipping σ ι Bool}
    {agrees : Meta → Bool} (applied : ShipEvent σ ι)
    (happlies : Ends applies fun x events => x = .ok true → applied ∈ events)
    (hconfirmed : ∀ events m, agrees m = true →
      [applied, ⟨.jobMeta job, some (some m)⟩].Sublist events → Confirmed events r)
    (hexcused : ∀ events, FoundTerminal events job ∨ FoundDeleted events (.manifest job) finish →
      Excused events finish r) :
    Ends (shipState job finish applies agrees) (Settled r finish) := by
  refine ends_bind.2 (happlies.mono fun x events hx => ?_)
  cases x with
  | error e => trivial
  | ok ok =>
    cases ok with
    | true =>
      refine ends_jobMeta.2 fun m => ends_orThrow.2 ⟨fun _ => trivial, fun seen hseen => ?_⟩
      obtain rfl := hseen
      cases seen with
      | none => trivial
      | some m =>
        by_cases h : agrees m = true
        · simp only [Option.any_some, h, if_true]
          have hsub := (List.singleton_sublist.2 (hx rfl)).append
            (List.Sublist.refl [(⟨.jobMeta job, some (some m)⟩ : ShipEvent σ ι)])
          exact hconfirmed _ m h hsub
        · simp only [Option.any_some, h]
          trivial
    | false =>
      refine ends_existsSync.2 fun here => ?_
      cases here with
      | true =>
        refine ends_storeMeta.2 fun m => ends_orThrow.2 ⟨fun _ => trivial, fun m hm => ?_⟩
        obtain rfl := hm
        by_cases h : m.terminalAt.isSome = true
        · rw [if_pos h]
          refine hexcused _ (.inl ⟨m, h, ?_, ?_⟩) <;> simp
        · rw [if_neg h]
          trivial
      | false =>
        refine ends_committedDeletion.2 fun r => ends_orThrow.2 ⟨fun _ => trivial, fun found h => ?_⟩
        obtain rfl := h
        cases found with
        | true =>
          refine hexcused _ (.inr ?_)
          simp [FoundDeleted]
        | false => trivial

/-- **What has been answered when the watermark may move past a record.** -/
theorem ship_ends (e : Entry (Fields σ ι)) :
    Ends (ship e) (Settled e.record.fields e.finish) := by
  unfold ship
  cases hfields : e.record.fields with
  | put path sha256 size => exact shipObject_ends path sha256 size e.finish
  | terminal job at' =>
    refine shipState_ends ⟨.setTerminal job at', some true⟩ ?_
      (fun events m hm hsub => ⟨m, by simpa using hm, hsub⟩) fun _ h => h
    intro r
    cases r with
    | none => exact nofun
    | some applied =>
      rintro ⟨⟩
      exact List.mem_cons_self
  | pin job pinned =>
    refine shipState_ends ⟨.setPin job pinned, some true⟩ ?_
      (fun events m hm hsub => ⟨m, by simpa using hm, hsub⟩) fun _ h => h
    intro r
    cases r with
    | none => exact nofun
    | some applied =>
      rintro ⟨⟩
      exact List.mem_cons_self
  | deleteIntent path => trivial
  | delete path => trivial
  | deleteCancel path => trivial
  | other => trivial

/-! ### What it looks for in the journal -/

/-- **`ship` looks for a deletion behind its record only.** -/
def AsksBehind (finish : Nat) (c : Call σ ι) : Prop :=
  ∀ path offset, c = .committedDeletion path offset → offset = finish

omit [DecidableEq σ] in
theorem orThrow_asks {α : Type} {C : Call σ ι → Prop} (x : Option α) : Asks C (orThrow x) := by
  cases x <;> trivial

variable {finish : Nat}

omit [DecidableEq σ] in
theorem putOrThrow_asks (path : Path σ ι) : Asks (AsksBehind finish) (putOrThrow path) := by
  refine ⟨nofun, fun r => ?_⟩
  cases r <;> trivial

theorem restoreBlobs_asks (shas : List σ) :
    Asks (AsksBehind finish) (restoreBlobs shas : Shipping σ ι Unit) := by
  induction shas with
  | nil => trivial
  | cons sha shas ih =>
    refine asks_bind ⟨nofun, fun _ => trivial⟩ fun here => ?_
    by_cases hhere : here = true
    · rw [if_pos hhere]
      refine asks_bind ⟨nofun, fun r => orThrow_asks r⟩ fun hashed => ?_
      obtain ⟨sha256, size⟩ := hashed
      by_cases hsha : sha256 ≠ sha
      · simp only [if_pos hsha]
        trivial
      · simp only [if_neg hsha]
        refine asks_bind (putOrThrow_asks _) fun _ => ?_
        refine asks_bind ⟨nofun, fun r => orThrow_asks r⟩ fun seen => ?_
        split
        · trivial
        · exact ih
    · rw [if_neg hhere]
      trivial

theorem uploadObject_asks (path : Path σ ι) :
    Asks (AsksBehind finish) (uploadObject path) := by
  refine asks_bind ⟨nofun, fun _ => trivial⟩ fun r => ?_
  split
  · trivial
  · exact asks_bind (restoreBlobs_asks _) fun _ => putOrThrow_asks _
  · trivial

theorem shipObject_asks (path : Path σ ι) (sha256 : σ) (size : Nat) :
    Asks (AsksBehind finish) (shipObject path sha256 size finish) := by
  refine asks_bind ⟨nofun, fun _ => trivial⟩ fun here => ?_
  split
  · refine asks_bind (uploadObject_asks path) fun _ => ?_
    refine asks_bind ⟨nofun, fun r => orThrow_asks r⟩ fun seen => ?_
    split <;> trivial
  · refine asks_bind ⟨fun _ _ h => ?_, fun r => orThrow_asks r⟩ fun found => ?_
    · cases h
      rfl
    · split <;> trivial

omit [DecidableEq σ] in
theorem shipState_asks {job : ι} {applies : Shipping σ ι Bool} {agrees : Meta → Bool}
    (happlies : Asks (AsksBehind finish) applies) :
    Asks (AsksBehind finish) (shipState job finish applies agrees) := by
  refine asks_bind happlies fun applied => ?_
  split
  · refine asks_bind ⟨nofun, fun r => orThrow_asks r⟩ fun seen => ?_
    split <;> trivial
  · refine asks_bind ⟨nofun, fun _ => trivial⟩ fun here => ?_
    split
    · refine asks_bind ⟨nofun, fun r => orThrow_asks r⟩ fun m => ?_
      split <;> trivial
    · refine asks_bind ⟨fun _ _ h => ?_, fun r => orThrow_asks r⟩ fun found => ?_
      · cases h
        rfl
      · split <;> trivial

theorem ship_asks (e : Entry (Fields σ ι)) : Asks (AsksBehind e.finish) (ship e) := by
  unfold ship
  cases e.record.fields with
  | put path sha256 size => exact shipObject_asks path sha256 size
  | terminal job at' | pin job pinned => exact shipState_asks ⟨nofun, fun r => orThrow_asks r⟩
  | deleteIntent path => trivial
  | delete path => trivial
  | deleteCancel path => trivial
  | other => trivial

end Store
end LaneBroker
