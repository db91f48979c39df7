/-
# Retention

`sweep` of `store/retention.js`: manifests of jobs that have been terminal for long, blobs
that no manifest references and that are old, and under pressure of space the groups that have
been terminal the longest, with their blobs.  Every deletion goes through `deleteObject`.
Each pass of a loop has calls of its own (`SweepPass`).
-/

import LaneBroker.Store.Objects

namespace LaneBroker
namespace Store

open LaneBroker.Basis

/-- **What a sweep goes by**: `RETENTION_DEFAULTS`, with the grace of a replica.  It evicts from 80
% of the cap on. -/
structure RetentionTimes where
  manifestAfterTerminalMs : Int := 14 * 24 * 3600 * 1000
  unreferencedBlobMs : Int := 24 * 3600 * 1000
  deriving DecidableEq, Repr

/-- At least 80 % of the cap. -/
def Config.aboveEviction (cfg : Config) (bytes : Int) : Bool :=
  match cfg.capBytes with
  | none => false
  | some cap => 80 * (cap : Int) ≤ 100 * bytes

/-- **The passes of a sweep.** -/
inductive SweepPass (σ ι : Type)
  | scan
  | expire (job : ι)
  | reference
  | age (sha : σ)
  | rank
  | evict (job : ι)
  | free (job : ι) (sha : σ)
  deriving DecidableEq

/-- An operation that sweeps. -/
abbrev SweepOp (σ ι α : Type) :=
  Fallible (SweepPass σ ι × Site σ ι) (ObjectStore σ ι) (StoreError σ) α

/-- **What `sweep` returns.** -/
structure Swept (ι : Type) where
  expiredManifests : List ι
  evictedManifests : List ι
  blobsDeleted : Nat
  bytes : Int

variable {σ ι : Type} [DecidableEq σ] [DecidableEq ι] (C : Contents σ) (cfg : Config)

/-- An operation in one pass. -/
def Fallible.inPass {α : Type} (pass : SweepPass σ ι) (m : Op σ ι α) : SweepOp σ ι α :=
  m.under fun c => (pass, c)

/-- The jobs with their states. -/
def readMetas : List ι → Op σ ι (List (ι × Meta))
  | [] => return []
  | job :: jobs => do
    let m ← readMeta job
    let ms ← readMetas jobs
    return (job, m) :: ms

/-- The union of the blobs of some jobs. -/
def blobsOf : List ι → Op σ ι (List σ)
  | [] => return []
  | job :: jobs => do
    let set ← jobBlobs C job
    let more ← blobsOf jobs
    return set.getD [] ++ more

/-- **`referencedBlobs`.** -/
def referencedBlobs : Op σ ι (List σ) := do
  blobsOf C (← listManifests)

/-- Is a terminal job expired? -/
def expired (times : RetentionTimes) (now : Int) (m : Meta) : Bool :=
  !m.pinned && m.terminalAt.any fun t => times.manifestAfterTerminalMs ≤ now - t

/-- The deletion of the expired manifests. -/
def expireManifests : List ι → SweepOp σ ι Unit
  | [] => return ()
  | job :: jobs => do
    let _ ← Fallible.inPass (.expire job) (deleteObject C (.manifest job))
    expireManifests jobs

/-- The loop of `sweepBlobs`; it returns how many blobs are gone. -/
def sweepEach (referenced : List σ) (now graceMs : Int) :
    List (σ × BlobFile σ) → SweepOp σ ι Nat
  | [] => return 0
  | (sha, file) :: files => do
    if referenced.contains sha || now - file.mtime < graceMs then
      sweepEach referenced now graceMs files
    else
      let gone ← Fallible.inPass (.age sha) (deleteObject C (.blob sha))
      let more ← sweepEach referenced now graceMs files
      return more + gone.toNat

/-- **`sweepBlobs`.** -/
def sweepBlobs (now graceMs : Int) : SweepOp σ ι Nat := do
  let referenced ← Fallible.inPass .reference (referencedBlobs C)
  let files ← Fallible.inPass .reference (Fallible.ask .listBlobs .io fun s => s.blobs.entries)
  sweepEach C referenced now graceMs files

/-- The blobs of an evicted group that no other manifest references. -/
def freeBlobs (job : ι) (stillReferenced : List σ) : List σ → SweepOp σ ι Nat
  | [] => return 0
  | sha :: shas => do
    if stillReferenced.contains sha then freeBlobs job stillReferenced shas
    else
      let gone ← Fallible.inPass (.free job sha) (deleteObject C (.blob sha))
      let more ← freeBlobs job stillReferenced shas
      return more + gone.toNat

/-- The eviction of terminal groups, the oldest first: the groups evicted, and how many blobs are
gone. -/
def evict : List ι → SweepOp σ ι (List ι × Nat)
  | [] => return ([], 0)
  | job :: jobs => do
    let s ← Fallible.get
    if cfg.aboveEviction s.bytes then
      let owned ← Fallible.inPass (.evict job) (jobBlobs C job)
      let _ ← Fallible.inPass (.evict job) (deleteObject C (.manifest job))
      let still ← Fallible.inPass (.evict job) (referencedBlobs C)
      let gone ← freeBlobs C job still (owned.getD []).dedup
      let more ← evict jobs
      return (job :: more.1, gone + more.2)
    else return ([], 0)

/-- The terminal unpinned jobs, by the time of their mark. -/
def candidates (ms : List (ι × Meta)) : List ι :=
  let marked := ms.filterMap fun e =>
    if e.2.pinned then none else e.2.terminalAt.map fun t => (e.1, t)
  (marked.mergeSort fun a b => a.2 ≤ b.2).map Prod.fst

/-- The eviction of a store with a cap. -/
def evictOldest : SweepOp σ ι (List ι × Nat) :=
  if cfg.capBytes.isNone then return ([], 0)
  else do
    let ms ← Fallible.inPass .rank (do readMetas (← listManifests))
    evict C cfg (candidates ms)

/-- **`sweep`.** -/
def sweep (times : RetentionTimes) (now : Int) : SweepOp σ ι (Swept ι) := do
  let ms ← Fallible.inPass .scan (do readMetas (← listManifests))
  let old := (ms.filter fun e => expired times now e.2).map Prod.fst
  expireManifests C old
  let swept ← sweepBlobs C now times.unreferencedBlobMs
  let evicted ← evictOldest C cfg
  let s ← Fallible.get
  return {
    expiredManifests := old
    evictedManifests := evicted.1
    blobsDeleted := swept + evicted.2
    bytes := s.bytes }

end Store
end LaneBroker
