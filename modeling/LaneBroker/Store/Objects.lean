/-
# The object store

`ObjectStore` of `store/objects.js`: blobs under the hash of their bytes, a manifest and a
retention state for each job, the journal, and what the process keeps in memory about them.
Every operation is an `Fallible`: each call to the file system or to the journal is a `Site`
and may fail, so that an operation can throw at any of its steps, or die there.  (A call that
is made twice with the same arguments fails each time or never; to fail the second time only
comes to what the call behind it does when it fails.)

Bytes are named by their hash, so a file is the hash of what is in it, and `Contents` tells
the size of bytes and the manifest they are the text of.  A call stands for the symlink checks
in front of it; the stream of an upload is one call, up to the rename; a rolled-back append is
one that failed, and one whose rollback failed too leaves its record astray and the journal
broken. (`createdAt`, the lock and the capacity of single uploads are left out.)
-/

import LaneBroker.Basis.Directory
import LaneBroker.Basis.Faulty
import LaneBroker.Store.Records

namespace LaneBroker
namespace Store

open LaneBroker.Basis

/-! ### Bytes -/

/-- **A manifest**: its hash, and the file entries with hash and size of each. -/
structure Doc (σ : Type) where
  manifestHash : σ
  files : List (σ × Nat)
  deriving DecidableEq, Repr

/-- The blobs a manifest references. -/
def Doc.blobs {σ : Type} (d : Doc σ) : List σ := d.files.map Prod.fst

/-- **Bytes by their hash**: the size, and `parseManifestDoc`, which no empty text passes. -/
structure Contents (σ : Type) where
  sizeOf : σ → Nat
  parseManifestDoc : σ → Option (Doc σ)
  size_pos : ∀ c d, parseManifestDoc c = some d → 0 < sizeOf c

/-- **What a store is opened with.** -/
structure Config where
  maxBlobBytes : Nat
  maxManifestBytes : Nat
  /-- `Infinity` is `none`. -/
  capBytes : Option Nat := none
  replicaMode : Bool := false
  replicaGraceMs : Int := 0
  deriving DecidableEq, Repr

/-- At least 95 % of the cap. -/
def Config.aboveAdmission (cfg : Config) (bytes : Int) : Bool :=
  match cfg.capBytes with
  | none => false
  | some cap => 95 * (cap : Int) ≤ 100 * bytes

/-! ### The state -/

/-- A blob's file: what is in it, and when it was last uploaded. -/
structure BlobFile (σ : Type) where
  content : σ
  mtime : Int
  deriving DecidableEq, Repr

/-- **A store with its process**: the disk, the journal, and the memory. -/
structure ObjectStore (σ ι : Type) where
  blobs : Dir σ (BlobFile σ) := .empty
  manifests : Dir ι σ := .empty
  metas : Dir ι Meta := .empty
  /-- The committed records. -/
  journal : List (Fields σ ι) := []
  /-- A record whose append failed and was not rolled back, or in which the process died. -/
  stray : Option (Fields σ ι) := none
  broken : Bool := false
  bytes : Int := 0
  reserved : Int := 0
  unjournaled : List σ := []
  pendingDeletes : List (Path σ ι) := []
  verifying : List (Path σ ι) := []
  intents : List (Path σ ι) := []
  lost : List (Path σ ι) := []
  jobBlobCache : List (ι × List σ) := []
  now : Int := 0
  deriving DecidableEq, Repr

/-- **The calls that can fail.** -/
inductive Site (σ ι : Type)
  | stat (path : Path σ ι)
  | hash (path : Path σ ι)
  /-- Everything of an upload before the rename. -/
  | upload (sha : σ)
  | renameBlob (sha : σ)
  | stamp (sha : σ)
  | removeTmp (sha : σ)
  | unlink (path : Path σ ι)
  /-- `fsyncDirectory` of the directory of an object. -/
  | syncDirectory (path : Path σ ι)
  | listManifests
  | listBlobs
  | readManifest (job : ι)
  | writeManifest (job : ι)
  | removeManifest (job : ι)
  | readMeta (job : ι)
  | writeMeta (job : ι) (m : Meta)
  | removeMeta (job : ι)
  | syncMetas
  | append (f : Fields σ ι)
  deriving DecidableEq

/-- **What an operation throws.** -/
inductive StoreError (σ : Type)
  /-- 413, a blob or a manifest. -/
  | tooLarge
  /-- 400 or 422, not a manifest. -/
  | badManifest
  /-- 422, the bytes do not hash to the address. -/
  | hashMismatch
  /-- 503, the blob was removed while it was being uploaded again. -/
  | removedMeanwhile
  /-- 507, above 95 % of the cap. -/
  | aboveCap
  /-- 409, the job already has a different manifest. -/
  | differentManifest
  /-- 409, the manifest references blobs the store does not have. -/
  | missingBlobs (missing : List σ)
  /-- 404, no such job. -/
  | noSuchJob
  /-- 409, the blob is still referenced. -/
  | protectedBlob
  /-- The journal is unusable. -/
  | journalBroken
  /-- A call failed. -/
  | io
  deriving DecidableEq, Repr

/-- An operation of the store. -/
abbrev Op (σ ι α : Type) := Fallible (Site σ ι) (ObjectStore σ ι) (StoreError σ) α

variable {σ ι : Type}

/-- `Set.add`. -/
def addTo {α : Type} [DecidableEq α] (l : List α) (a : α) : List α := if a ∈ l then l else l ++ [a]

/-- `Set.delete`. -/
def removeFrom {α : Type} [DecidableEq α] (l : List α) (a : α) : List α := l.filter fun b => b ≠ a

variable [DecidableEq σ] [DecidableEq ι]

/-! ### The journal -/

/-- **`journal.append`.** -/
def append (f : Fields σ ι) : Op σ ι Unit := fun io s =>
  if s.broken then (.thrown .journalBroken, s)
  else match io (.append f) with
  | .ok => (.returned (), { s with journal := s.journal ++ [f] })
  | .fails => (.thrown .io, s)
  | .failsLate => (.thrown .io, { s with broken := true, stray := some f })
  | .dies => (.died, { s with stray := some f })

/-- `journalDelete`. -/
def journalDelete (path : Path σ ι) : Op σ ι Unit := do
  append (.delete path)
  Fallible.modify fun s => { s with pendingDeletes := removeFrom s.pendingDeletes path }

/-- **`flushPendingDeletes`.** -/
def flushPendingDeletes : Op σ ι Unit := do
  let s ← Fallible.get
  s.pendingDeletes.forM journalDelete

/-- `cancelIntent`. -/
def cancelIntent (path : Path σ ι) : Op σ ι Unit := do
  let s ← Fallible.get
  if path ∈ s.intents then
    append (.deleteCancel path)
    Fallible.modify fun s => { s with intents := removeFrom s.intents path }

/-! ### Reading -/

variable (C : Contents σ) (cfg : Config)

/-- The size of an object on disk. -/
def ObjectStore.sizeOnDisk (s : ObjectStore σ ι) : Path σ ι → Option Nat
  | .blob sha => (s.blobs.read sha).map fun f => C.sizeOf f.content
  | .manifest job => (s.manifests.read job).map C.sizeOf

/-- `blobSize`, and the `lstat` of other functions. -/
def sizeOnDisk (path : Path σ ι) : Op σ ι (Option Nat) :=
  Fallible.ask (.stat path) .io fun s => s.sizeOnDisk C path

/-- What is in an object's file: `hashFile`. -/
def contentOnDisk (path : Path σ ι) : Op σ ι (Option σ) :=
  Fallible.ask (.hash path) .io fun s =>
    match path with
    | .blob sha => (s.blobs.read sha).map BlobFile.content
    | .manifest job => s.manifests.read job

/-- **`intactBlob`.** -/
def intactBlob (sha : σ) (declaredSize : Nat) : Op σ ι Bool := do
  if (← sizeOnDisk C (.blob sha)) ≠ some declaredSize then return false
  match ← contentOnDisk (.blob sha) with
  | none => return false
  | some content => return content = sha && C.sizeOf content = declaredSize

/-- **`readManifest`.**  What is not a manifest cannot be read. -/
def readManifest (job : ι) : Op σ ι (Option (Doc σ)) := do
  match ← Fallible.ask (.readManifest job) .io fun s => s.manifests.read job with
  | none => return none
  | some content =>
    match C.parseManifestDoc content with
    | none => Fallible.raise .io
    | some doc => return some doc

/-- **`jobBlobs`**, with its cache of 64 jobs. -/
def jobBlobs (job : ι) : Op σ ι (Option (List σ)) := do
  let s ← Fallible.get
  match s.jobBlobCache.lookup job with
  | some set => return some set
  | none =>
    match ← readManifest C job with
    | none => return none
    | some doc =>
      Fallible.modify fun s =>
        let cache := if 64 ≤ s.jobBlobCache.length then s.jobBlobCache.tail else s.jobBlobCache
        { s with jobBlobCache := cache ++ [(job, doc.blobs)] }
      return some doc.blobs

/-- **`meta`.** -/
def readMeta (job : ι) : Op σ ι Meta :=
  Fallible.ask (.readMeta job) .io fun s => (s.metas.read job).getD {}

/-- `fs.readdirSync` of the manifests. -/
def listManifests : Op σ ι (List ι) :=
  Fallible.ask .listManifests .io fun s => s.manifests.entries.map Prod.fst

/-- The loop of `isProtectedBlob`. -/
def isProtectedBy (sha : σ) : List ι → Op σ ι Bool
  | [] => return false
  | job :: jobs => do
    let m ← readMeta job
    if !m.pinned && m.terminalAt.isSome then isProtectedBy sha jobs
    else
      let set ← jobBlobs C job
      if set.any (·.contains sha) then return true else isProtectedBy sha jobs

/-- **`isProtectedBlob`.** -/
def isProtectedBlob (sha : σ) : Op σ ι Bool := do
  isProtectedBy C sha (← listManifests)

/-! ### Uploading a blob -/

/-- **`reserve`.** -/
def reserve (n : Nat) : Op σ ι Unit := do
  let s ← Fallible.get
  if cfg.aboveAdmission (s.bytes + s.reserved + n) then Fallible.raise .aboveCap
  else Fallible.modify fun s => { s with reserved := s.reserved + n }

/-- `journalBlob`. -/
def journalBlob (sha : σ) : Op σ ι Unit := do
  let size ← sizeOnDisk C (.blob sha)
  append (.put (.blob sha) sha (size.getD 0))
  Fallible.modify fun s => { s with unjournaled := removeFrom s.unjournaled sha }

/-- `fs.utimesSync` of a blob. -/
def stamp (sha : σ) : Op σ ι Unit :=
  Fallible.call (.stamp sha) .io fun s =>
    match s.blobs.read sha with
    | none => s
    | some f => { s with blobs := s.blobs.write sha { f with mtime := s.now } }

/-- `unjournaled` blobs are journaled when they are needed. -/
def journalIfNeeded (sha : σ) : Op σ ι Unit := do
  let s ← Fallible.get
  if sha ∈ s.unjournaled then journalBlob C sha

/-- **`acknowledgeDuplicate`**, of an upload with this body. -/
def acknowledgeDuplicate (sha body : σ) : Op σ ι Bool := do
  Fallible.call (.upload sha) .io id
  if body ≠ sha then Fallible.raise .hashMismatch
  else if (← sizeOnDisk C (.blob sha)).isNone then Fallible.raise .removedMeanwhile
  else
    stamp sha
    journalIfNeeded C sha
    cancelIntent (.blob sha)
    return false

/-- What `putBlob` does behind the rename. -/
def commitBlob (sha : σ) : Op σ ι Unit := do
  stamp sha
  Fallible.call (.syncDirectory (.blob sha)) .io id
  journalBlob C sha
  Fallible.modify fun s =>
    { s with
      intents := removeFrom s.intents (.blob sha)
      lost := removeFrom s.lost (.blob sha) }

/-- The rollback of `putBlob`: the blob goes, or it is kept in mind. -/
def undoBlob (sha : σ) : Op σ ι Unit :=
  Fallible.handle
    (do
      Fallible.call (.unlink (.blob sha)) .io fun s => { s with blobs := s.blobs.unlink sha }
      Fallible.modify fun s => { s with bytes := s.bytes - C.sizeOf sha })
    fun _ => Fallible.modify fun s => { s with unjournaled := addTo s.unjournaled sha }

/-- The rename of an upload into its place, counted at once. -/
def renameBlob (sha : σ) (replaced : Nat) : Op σ ι Unit := do
  Fallible.call (.renameBlob sha) .io fun s =>
    { s with blobs := s.blobs.write sha { content := sha, mtime := s.now } }
  Fallible.modify fun s => { s with bytes := s.bytes + (C.sizeOf sha - replaced) }

/-- An upload that is not of an intact blob. -/
def storeBlob (sha body : σ) (declaredSize : Nat) : Op σ ι Bool := do
  Fallible.call (.upload sha) .io id
  let size := C.sizeOf body
  if cfg.maxBlobBytes < size then Fallible.raise .tooLarge
  else if body ≠ sha then Fallible.raise .hashMismatch
  else if ← intactBlob C sha size then
    stamp sha
    journalIfNeeded C sha
    return false
  else
    let replaced := (← sizeOnDisk C (.blob sha)).getD 0
    let s ← Fallible.get
    if cfg.aboveAdmission (s.bytes + size + (s.reserved - declaredSize)) then Fallible.raise .aboveCap
    else
      flushPendingDeletes
      renameBlob C sha replaced
      Fallible.handle (commitBlob C sha) fun e => do
        undoBlob C sha
        Fallible.raise e
      return true

/-- **`putBlob`**, of an upload with this body; it returns whether it was stored. -/
def putBlob (sha body : σ) (declaredSize : Nat) : Op σ ι Bool := do
  if cfg.maxBlobBytes < declaredSize then Fallible.raise .tooLarge
  else if ← intactBlob C sha declaredSize then acknowledgeDuplicate C sha body
  else
    reserve cfg declaredSize
    Fallible.ensuring (storeBlob C cfg sha body declaredSize) do
      Fallible.modify fun s => { s with reserved := s.reserved - declaredSize }
      Fallible.call (.removeTmp sha) .io id

/-! ### Registering a manifest -/

/-- The file entries of a manifest whose blobs are not there. -/
def missingFiles : List (σ × Nat) → Op σ ι (List σ)
  | [] => return []
  | (sha, size) :: files => do
    let there ← sizeOnDisk C (.blob sha)
    let missing ← missingFiles files
    return if there ≠ some size then sha :: missing else missing

/-- `atomicWriteFile` of a manifest. -/
def writeManifest (job : ι) (content : σ) : Op σ ι Unit :=
  Fallible.write (.writeManifest job) .io fun s => { s with manifests := s.manifests.write job content }

/-- `atomicWriteJson` of a job's state. -/
def writeMeta (job : ι) (m : Meta) : Op σ ι Unit :=
  Fallible.write (.writeMeta job m) .io fun s => { s with metas := s.metas.write job m }

/-- `fs.rmSync` of a job's state. -/
def removeMeta (job : ι) : Op σ ι Unit :=
  Fallible.call (.removeMeta job) .io fun s => { s with metas := s.metas.unlink job }

/-- The rollback of `registerManifest`. -/
def undoManifest (job : ι) (size : Nat) : Op σ ι Unit := do
  Fallible.call (.removeManifest job) .io fun s => { s with manifests := s.manifests.unlink job }
  removeMeta job
  Fallible.modify fun s => { s with bytes := s.bytes - size }

/-- **`registerManifest`** of these bytes; it returns whether they were stored. -/
def registerManifest (job : ι) (content : σ) : Op σ ι Bool := do
  let size := C.sizeOf content
  if cfg.maxManifestBytes < size then Fallible.raise .tooLarge
  else match C.parseManifestDoc content with
  | none => Fallible.raise .badManifest
  | some doc =>
    match ← readManifest C job with
    | some existing =>
      if existing.manifestHash ≠ doc.manifestHash then Fallible.raise .differentManifest
      else return false
    | none =>
      let missing ← missingFiles C doc.files
      if missing ≠ [] then Fallible.raise (.missingBlobs (missing.foldl addTo []))
      else
        let s ← Fallible.get
        if cfg.aboveAdmission (s.bytes + s.reserved + size) then Fallible.raise .aboveCap
        else
          flushPendingDeletes
          doc.blobs.forM (journalIfNeeded C)
          doc.blobs.forM fun sha => cancelIntent (.blob sha)
          writeManifest job content
          Fallible.modify fun s => { s with bytes := s.bytes + size }
          Fallible.handle
            (do
              let s ← Fallible.get
              writeMeta job { registeredAt := some s.now }
              append (.put (.manifest job) content size))
            fun e => do
              undoManifest job size
              Fallible.raise e
          Fallible.modify fun s => { s with lost := removeFrom s.lost (.manifest job) }
          return true

/-! ### Pins and terminal marks -/

/-- **The retention field of a job** that is changed. -/
inductive StateField
  | terminalAt (at' : Int)
  | pinned (pinned : Bool)
  deriving DecidableEq, Repr

/-- `{ ...before, [field]: value }`. -/
def StateField.set (m : Meta) : StateField → Meta
  | terminalAt at' => { m with terminalAt := some at' }
  | pinned b => { m with pinned := b }

/-- The record of the change. -/
def StateField.record (job : ι) : StateField → Fields σ ι
  | terminalAt at' => .terminal job at'
  | pinned b => .pin job b

/-- **`setJobState`**; it returns whether anything changed. -/
def setJobState (job : ι) (field : StateField) : Op σ ι Bool := do
  match ← readManifest C job with
  | none => Fallible.raise .noSuchJob
  | some _ =>
    flushPendingDeletes
    let before ← readMeta job
    let after := field.set before
    if after = before then return false
    else
      writeMeta job after
      Fallible.handle (append (field.record job)) fun e => do
        writeMeta job before
        Fallible.raise e
      return true

/-! ### Deleting -/

/-- `fs.unlinkSync` of an object. -/
def unlinkObject (path : Path σ ι) : Op σ ι Unit :=
  Fallible.call (.unlink path) .io fun s =>
    match path with
    | .blob sha => { s with blobs := s.blobs.unlink sha }
    | .manifest job => { s with manifests := s.manifests.unlink job }

/-- What `deleteObject` drops with a manifest. -/
def dropJob : Path σ ι → Op σ ι Unit
  | .blob _ => return ()
  | .manifest job => do
    removeMeta job
    Fallible.call .syncMetas .io id
    Fallible.modify fun s => { s with jobBlobCache := s.jobBlobCache.filter fun e => e.1 ≠ job }

/-- The three durable steps of a deletion. -/
def removeObject (path : Path σ ι) (size : Nat) : Op σ ι Unit := do
  append (.deleteIntent path)
  Fallible.modify fun s => { s with intents := addTo s.intents path }
  unlinkObject path
  Fallible.call (.syncDirectory path) .io id
  Fallible.modify fun s =>
    { s with
      bytes := s.bytes - size
      pendingDeletes := addTo s.pendingDeletes path }
  dropJob path
  journalDelete path
  Fallible.modify fun s => { s with intents := removeFrom s.intents path }

/-- The guard of `deleteObject`. -/
def refuseProtected : Path σ ι → Op σ ι Unit
  | .manifest _ => return ()
  | .blob sha => do
    if ← isProtectedBlob C sha then Fallible.raise .protectedBlob

/-- **`deleteObject`**; it returns whether the object is gone through it. -/
def deleteObject (path : Path σ ι) : Op σ ι Bool := do
  refuseProtected C path
  let s ← Fallible.get
  if path ∈ s.verifying then return false
  else
    flushPendingDeletes
    match ← sizeOnDisk C path with
    | none => return false
    | some size =>
      removeObject path size
      return true

/-- `maintain`. -/
def maintain : Op σ ι Unit := flushPendingDeletes

/-! ### Journaling again -/

/-- **`rejournal`**, of one path. -/
def rejournalPath (path : Path σ ι) : Op σ ι Unit := do
  Fallible.modify fun s => { s with verifying := path :: s.verifying }
  Fallible.ensuring
    (do
      match ← contentOnDisk path with
      | none => return ()
      | some content => append (.put path content (C.sizeOf content)))
    (Fallible.modify fun s => { s with verifying := s.verifying.erase path })

/-- The loop of `rejournal`, each pass with calls of its own. -/
def rejournalFrom : Nat → List (Path σ ι) → Fallible (Nat × Site σ ι) (ObjectStore σ ι) (StoreError σ) Unit
  | _, [] => return ()
  | k, path :: paths => do
    (rejournalPath C path).under fun c => (k, c)
    rejournalFrom (k + 1) paths

/-- **`rejournal`.** -/
def rejournal (paths : List (Path σ ι)) :
    Fallible (Nat × Site σ ι) (ObjectStore σ ι) (StoreError σ) Unit := do
  (flushPendingDeletes : Op σ ι Unit).under fun c => (0, c)
  rejournalFrom C 1 paths

end Store
end LaneBroker
