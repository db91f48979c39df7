/-
# A store that is opened, serves and dies

A process opens the store (`init` of `store/objects.js`): it reads the journal, where a record
that was left astray may turn up, forgets what the process before it had in memory, and
reconciles the journal with the disk.  Then operations follow one another, each of which may
throw or be where the process dies.  `storeMachine` is this, with what the store has
acknowledged and still has.

When the host loses its power the directories hold what they hold: the move `powerLoss` leaves
anything, and what it may leave is for a side condition on the runs to say.
-/

import LaneBroker.Basis.Machine
import LaneBroker.Store.Retention

namespace LaneBroker
namespace Store

open LaneBroker.Basis

/-! ### The state of a path -/

/-- **The state that the last object record of a path names.** -/
inductive ObjState
  | put
  | intent
  | delete
  deriving DecidableEq, Repr

variable {σ ι : Type}

/-- The path of an object record, and the state it names. -/
def Fields.object : Fields σ ι → Option (Path σ ι × ObjState)
  | .put path _ _ => some (path, .put)
  | .deleteCancel path => some (path, .put)
  | .deleteIntent path => some (path, .intent)
  | .delete path => some (path, .delete)
  | .terminal _ _ | .pin _ _ | .other => none

variable [DecidableEq σ] [DecidableEq ι]

/-- What a record says of a path. -/
def Fields.stateOf (f : Fields σ ι) (path : Path σ ι) : Option ObjState :=
  match f.object with
  | none => none
  | some (q, st) => if q = path then some st else none

/-- **`objectStateByPath`**, at a path. -/
def objectState (js : List (Fields σ ι)) (path : Path σ ι) : Option ObjState :=
  js.foldl (fun st f => (f.stateOf path).or st) none

/-- The paths it has, in the order of their first records. -/
def journaledPaths (js : List (Fields σ ι)) : List (Path σ ι) :=
  js.foldl (fun paths f =>
    match f.object with
    | none => paths
    | some (path, _) => addTo paths path) []

@[simp] theorem objectState_concat (js : List (Fields σ ι)) (f : Fields σ ι) (path : Path σ ι) :
    objectState (js ++ [f]) path = (f.stateOf path).or (objectState js path) := by
  simp [objectState]

/-! ### Opening -/

variable (C : Contents σ) (cfg : Config)

/-- The bytes of all objects on disk. -/
def ObjectStore.diskBytes (s : ObjectStore σ ι) : Int :=
  (s.blobs.entries.map fun e => (C.sizeOf e.2.content : Int)).sum +
    (s.manifests.entries.map fun e => (C.sizeOf e.2 : Int)).sum

/-- **A new process**: the journal it finds, and a memory that is empty but for the bytes on disk
and the intents. -/
def ObjectStore.restarted (s : ObjectStore σ ι) (adopt : Bool) : ObjectStore σ ι :=
  let journal := if adopt then s.journal ++ s.stray.toList else s.journal
  { blobs := s.blobs
    manifests := s.manifests
    metas := s.metas
    journal
    bytes := s.diskBytes C
    intents := (journaledPaths journal).filter fun p => objectState journal p = some .intent
    now := s.now }

/-- Is an object there? -/
def ObjectStore.has (s : ObjectStore σ ι) : Path σ ι → Bool
  | .blob sha => (s.blobs.read sha).isSome
  | .manifest job => (s.manifests.read job).isSome

/-- An object with no live record is journaled, unless it is corrupt. -/
def journalOrphan (path : Path σ ι) : Op σ ι Unit := do
  match path, ← contentOnDisk path with
  | _, none => Fallible.raise .io
  | .blob sha, some content =>
    if content ≠ sha then return ()
    else append (.put path content (C.sizeOf content))
  | .manifest _, some content => append (.put path content (C.sizeOf content))

/-- An object that is missing: its deletion is completed, or it is lost. -/
def settleMissing (state : Path σ ι → Option ObjState) (path : Path σ ι) : Op σ ι Unit :=
  match state path with
  | some .intent => append (.delete path)
  | some .put => Fallible.modify fun s => { s with lost := addTo s.lost path }
  | _ => pure ()

/-- The objects on disk without a live record, blobs first. -/
def ObjectStore.orphans (s : ObjectStore σ ι) : List (Path σ ι) :=
  let paths : List (Path σ ι) :=
    s.blobs.entries.map (fun e => .blob e.1) ++ s.manifests.entries.map fun e => .manifest e.1
  paths.filter fun p => objectState s.journal p ≠ some .put ∧ objectState s.journal p ≠ some .intent

/-- **`reconcile`.** -/
def reconcile : Op σ ι Unit := do
  let s ← Fallible.ask .listBlobs .io id
  s.orphans.forM (journalOrphan C)
  ((journaledPaths s.journal).filter fun p => !s.has p).forM
    (settleMissing (objectState s.journal))

/-! ### The machine -/

/-- **A store, whether a process serves it, and what it has acknowledged and still has.** -/
structure StoreWorld (σ ι : Type) where
  store : ObjectStore σ ι := {}
  up : Bool := false
  acknowledged : List (Path σ ι) := []
  deriving DecidableEq

/-- How the calls of an operation are answered. -/
abbrev Io (σ ι : Type) := Site σ ι → Answer

/-- **The moves.** -/
inductive StoreMove (σ ι : Type)
  /-- A process opens the store, and finds the stray record or does not. -/
  | opens (adopt : Bool) (io : Io σ ι)
  | putBlob (sha body : σ) (declaredSize : Nat) (io : Io σ ι)
  | registerManifest (job : ι) (content : σ) (io : Io σ ι)
  | setJobState (job : ι) (field : StateField) (io : Io σ ι)
  | deleteObject (path : Path σ ι) (io : Io σ ι)
  | sweep (times : RetentionTimes) (io : SweepPass σ ι × Site σ ι → Answer)
  | rejournal (paths : List (Path σ ι)) (io : Nat × Site σ ι → Answer)
  | maintain (io : Io σ ι)
  | tick (now : Int)
  | dies
  | powerLoss (blobs : Dir σ (BlobFile σ)) (manifests : Dir ι σ) (metas : Dir ι Meta)

namespace StoreWorld

/-- The world with another store: what is gone is not acknowledged any more. -/
def withStore (w : StoreWorld σ ι) (s : ObjectStore σ ι) (acked : List (Path σ ι)) (up : Bool) :
    StoreWorld σ ι where
  store := s
  up
  acknowledged := (acked ++ w.acknowledged).filter s.has

/-- **An operation of the process**, that acknowledges some paths when it returns. -/
def runs {κ α : Type} (w : StoreWorld σ ι) (m : Fallible κ (ObjectStore σ ι) (StoreError σ) α)
    (io : κ → Answer) (acked : List (Path σ ι)) : Option (StoreWorld σ ι) :=
  if !w.up then none
  else match m io w.store with
  | (.returned _, s) => some (w.withStore s acked true)
  | (.thrown _, s) => some (w.withStore s [] true)
  | (.died, s) => some (w.withStore s [] false)

/-- A process opens the store, unless one has it. -/
def opens (w : StoreWorld σ ι) (adopt : Bool) (io : Io σ ι) : Option (StoreWorld σ ι) :=
  if w.up then none
  else match reconcile C io (w.store.restarted C adopt) with
  | (.returned _, s) => some (w.withStore s [] true)
  | (.thrown _, s) => some (w.withStore s [] false)
  | (.died, s) => some (w.withStore s [] false)

/-- **One move.** -/
def next (w : StoreWorld σ ι) : StoreMove σ ι → Option (StoreWorld σ ι)
  | .opens adopt io => w.opens C adopt io
  | .putBlob sha body declaredSize io =>
    w.runs (Store.putBlob C cfg sha body declaredSize) io [.blob sha]
  | .registerManifest job content io =>
    w.runs (Store.registerManifest C cfg job content) io [.manifest job]
  | .setJobState job field io => w.runs (Store.setJobState C job field) io []
  | .deleteObject path io => w.runs (Store.deleteObject C path) io []
  | .sweep times io => w.runs (Store.sweep C cfg times w.store.now) io []
  | .rejournal paths io => w.runs (Store.rejournal C paths) io []
  | .maintain io => w.runs Store.maintain io []
  | .tick now => some { w with store := { w.store with now } }
  | .dies => if w.up then some { w with up := false } else none
  | .powerLoss blobs manifests metas =>
    some (w.withStore { w.store with blobs, manifests, metas } [] false)

end StoreWorld

/-- **The store machine**, which starts with an empty store. -/
def storeMachine : Machine (StoreWorld σ ι) (StoreMove σ ι) where
  start w := w = {}
  next := StoreWorld.next C cfg

/-! ### A small store -/

/-- **Bytes for small stores**: every text has one byte, the texts 10 and 11 are manifests, of a
file with the blob 0 and of one with the blob 1. -/
def smallContents : Contents Nat where
  sizeOf _ := 1
  parseManifestDoc c :=
    if c = 10 then some { manifestHash := 10, files := [(0, 1)] }
    else if c = 11 then some { manifestHash := 11, files := [(1, 1)] }
    else none
  size_pos _ _ _ := Nat.one_pos

/-- A store without a cap. -/
def smallConfig : Config where
  maxBlobBytes := 100
  maxManifestBytes := 100

/-- Every call succeeds. -/
def allOk {κ : Type} : κ → Answer := fun _ => .ok

/-- One call fails, in this way. -/
def failsAt {κ : Type} [DecidableEq κ] (c : κ) (a : Answer) : κ → Answer :=
  fun c' => if c' = c then a else .ok

end Store
end LaneBroker
