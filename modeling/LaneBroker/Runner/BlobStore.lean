/-
# The blob store of a runner

`remote-blobs.js`: blobs under the hash of their bytes, and leases.  A have-query leases what it is
asked for until a time and then looks it up; an extraction leases what its manifest lists for as
long as its process lives, reads what is cached and publishes what came; an eviction scans the
store, unlinks what it finds there that is no file, chooses its victims, and takes the broker lock to
read the leases and to rename the victims away.  Leases are taken and given back under that lock, and
everything else is done without it: a step is one access to the disk, or what is done under the lock
in one go (`BlobStore.next`).

Bytes are named by their hash.  (Publication is skipped when the disk is full; that is an
extraction that does not publish.  Directories that are no plain ones are left out.)
-/

import LaneBroker.Basis.Machine
import Mathlib.Algebra.Ring.Nat
import Mathlib.Data.List.Basic
import Mathlib.Logic.Function.Basic

namespace LaneBroker
namespace Runner
namespace Blobs

open LaneBroker.Basis

/-- `MIN_CACHEABLE_BYTES`. -/
def minCacheableBytes : ℕ := 8 * 1024

/-- `HAVE_LEASE_TTL_MS`. -/
def haveLeaseTtlMs : ℕ := 10 * 60000

/-- `STALE_UNREADABLE_LEASE_MS`. -/
def staleUnreadableLeaseMs : ℕ := 24 * 3600000

/-- **What stands at the path of a blob.** -/
structure BlobFile (σ : Type) where
  /-- What the file holds; `none` where it is no file, but a link. -/
  content : Option σ
  mtime : ℕ
  deriving DecidableEq, Repr

/-! ### Leases -/

/-- **A lease**: of a process, or until a time. -/
structure Lease (σ : Type) where
  /-- The name of its file, which no other lease has: the task that took it. -/
  file : ℕ
  pid : ℕ
  hashes : List σ
  /-- When its file was written. -/
  mtime : ℕ
  expiresAt : Option ℕ := none
  deriving DecidableEq, Repr

/-- What lies in `.leases`. -/
inductive LeaseFile (σ : Type)
  | lease (l : Lease σ)
  | unreadable (mtime : ℕ)
  deriving DecidableEq, Repr

variable {ν σ : Type}

/-- The lease has not expired, or its process lives. -/
def Lease.live (alive : ℕ → Bool) (now : ℕ) (l : Lease σ) : Bool :=
  match l.expiresAt with
  | some expiresAt => now < expiresAt
  | none => alive l.pid

/-- An unreadable lease is a day old. -/
def stale (now mtime : ℕ) : Bool := mtime + staleUnreadableLeaseMs < now

/-- **`leasedHashes`**: the hashes of live leases, but for the files that fail to be read. -/
def leasedHashes (alive : ℕ → Bool) (now : ℕ) (unread : List ℕ) (files : List (LeaseFile σ)) :
    List σ :=
  files.flatMap fun
    | .lease l => if l.file ∉ unread ∧ l.live alive now = true then l.hashes else []
    | .unreadable _ => []

/-- Its `blockAll`. -/
def blockAll (now : ℕ) (unread : List ℕ) (files : List (LeaseFile σ)) : Bool :=
  files.any fun
    | .lease l => l.file ∈ unread && !stale now l.mtime
    | .unreadable mtime => !stale now mtime

/-- The lease files that it leaves. -/
def keptLeases (alive : ℕ → Bool) (now : ℕ) (unread : List ℕ) (files : List (LeaseFile σ)) :
    List (LeaseFile σ) :=
  files.filter fun
    | .lease l => if l.file ∈ unread then !stale now l.mtime else l.live alive now
    | .unreadable mtime => !stale now mtime

/-! ### Victims -/

/-- A blob that a scan has seen. -/
structure Candidate (ν σ : Type) where
  ns : ν
  sha : σ
  size : ℕ
  mtime : ℕ
  deriving DecidableEq, Repr

/-- The least recently used go until the rest is within the budget. -/
def overBudget (within : ℕ → Bool) : ℕ → List (Candidate ν σ) → List (Candidate ν σ)
  | _, [] => []
  | kept, c :: cs => if within kept then [] else c :: overBudget within (kept - c.size) cs

/-- **The victims of `evictBlobs`**: by age, then by use, with `maxBytes` scaled by the fraction of
the shards that was scanned. -/
def selectVictims (maxBytes maxAgeMs now scanned totalShards : ℕ)
    (candidates : List (Candidate ν σ)) : List (Candidate ν σ) :=
  let aged := candidates.filter fun c => maxAgeMs + c.mtime < now
  let rest := candidates.filter fun c => !(maxAgeMs + c.mtime < now)
  let within kept :=
    if totalShards = 0 ∨ scanned = 0 then decide (kept ≤ maxBytes)
    else decide (kept * totalShards ≤ maxBytes * scanned)
  aged ++ overBudget within (rest.map Candidate.size).sum
    (rest.mergeSort fun a b => a.mtime ≤ b.mtime)

/-! ### Tasks -/

/-- **Where a reader or a publisher is** between two accesses. -/
inductive Access (σ : Type)
  | between
  /-- The have-query has the size of the file. -/
  | statted (sha : σ) (size : ℕ)
  /-- The file was read: it is what it should be, and is to be touched; or not, and is to be
  unlinked. -/
  | found (sha : σ) (hit : Bool)
  /-- The body is in a `.tmp-` file that is to be renamed. -/
  | publishing (sha : σ)
  deriving DecidableEq, Repr

/-- **What a process does.** -/
inductive Task (ν σ : Type)
  | fresh
  /-- `remoteHaveCommand` with its lease. -/
  | having (ns : ν) (hashes : List σ) (expiresAt : ℕ) (access : Access σ)
  /-- `extractFrames` with its lease: the hashes and sizes of the manifest. -/
  | extracting (ns : ν) (entries : List (σ × ℕ)) (access : Access σ)
  /-- `scanShards` has found at the path of a blob what is no file, and is to unlink it. -/
  | clearing (ns : ν) (sha : σ)
  /-- `evictBlobs` with its victims, before the lock; `now` is from its start. -/
  | selected (victims : List (Candidate ν σ)) (now : ℕ)
  /-- `evictBlobs` under the lock, with what is leased and the victims that are left. -/
  | evicting (held : List σ) (victims : List (Candidate ν σ))
  | done
  deriving DecidableEq, Repr

/-- A hit of a have-query: the blob it answered, and when its lease expires. -/
structure Answer (ν σ : Type) where
  ns : ν
  sha : σ
  expiresAt : ℕ
  deriving DecidableEq, Repr

/-- **The store and the processes on it.** -/
structure BlobStore (ν σ : Type) where
  now : ℕ := 0
  blobs : ν × σ → Option (BlobFile σ) := fun _ => none
  leases : List (LeaseFile σ) := []
  alive : ℕ → Bool := fun _ => true
  /-- The task that holds the broker lock over several accesses. -/
  lock : Option ℕ := none
  tasks : ℕ → Task ν σ := fun _ => .fresh
  /-- The hits of have-queries, of blobs that were intact then and were not damaged since. -/
  answers : List (Answer ν σ) := []

/-- What a runner is set up with. -/
structure Setup (σ : Type) where
  sizeOf : σ → ℕ
  /-- The process of a task. -/
  pidOf : ℕ → ℕ
  maxBytes : ℕ
  maxAgeMs : ℕ

/-- **The steps.** -/
inductive BlobAct (ν σ : Type)
  /-- `acquireBlobLeases` of a have-query. -/
  | haveLease (i : ℕ) (ns : ν) (hashes : List σ)
  /-- `acquireBlobLeases` of an extraction. -/
  | execLease (i : ℕ) (ns : ν) (entries : List (σ × ℕ))
  | stat (i : ℕ) (sha : σ)
  /-- `readBlobVerified` up to its result; `opens` is whether the file could be opened and read. -/
  | read (i : ℕ) (sha : σ) (size : ℕ) (opens : Bool)
  | settle (i : ℕ)
  /-- `publishBlob` of a body that came, up to its rename. -/
  | publish (i : ℕ) (sha : σ)
  | rename (i : ℕ)
  /-- The have-query has written its answer. -/
  | finish (i : ℕ)
  /-- The extraction is done and gives its lease back. -/
  | release (i : ℕ)
  /-- The scan of an eviction comes to what is no file. -/
  | spot (i : ℕ) (ns : ν) (sha : σ)
  | clear (i : ℕ)
  /-- The scan ends, of an eviction that began at `start`. -/
  | select (i : ℕ) (start scanned totalShards : ℕ) (candidates : List (Candidate ν σ))
  /-- `leasedHashes` under the lock: whether `.leases` can be listed, and which leases cannot be
  read. -/
  | lock (i : ℕ) (listed : Bool) (unread : List ℕ)
  /-- The next victim of an eviction. -/
  | evict (i : ℕ)
  | unlock (i : ℕ)
  | die (pid : ℕ)
  | tick (ms : ℕ)
  /-- A blob is damaged, or removed by hand. -/
  | damage (ns : ν) (sha : σ) (file : Option (BlobFile σ))
  /-- A lease file is found that cannot be read. -/
  | unreadable

variable [DecidableEq ν] [DecidableEq σ]

namespace BlobStore

variable (cfg : Setup σ) (s : BlobStore ν σ)

/-- The task goes on. -/
def goes (i : ℕ) (t : Task ν σ) : BlobStore ν σ := { s with tasks := Function.update s.tasks i t }

/-- The blob is there and intact. -/
def Intact (ns : ν) (sha : σ) : Prop := (s.blobs (ns, sha)).bind BlobFile.content = some sha

instance (ns : ν) (sha : σ) : Decidable (s.Intact ns sha) := inferInstanceAs (Decidable (_ = _))

/-- The hashes that an extraction leases. -/
def cacheable (entries : List (σ × ℕ)) : List σ :=
  (entries.filter fun e => minCacheableBytes ≤ e.2).map Prod.fst

/-- `readBlobVerified` up to its result: no file is a miss. -/
def readBlob (ns : ν) (sha : σ) (size : ℕ) (opens : Bool) : Access σ :=
  if !opens then .found sha false
  else
    match s.blobs (ns, sha) with
    | none => .between
    | some f => .found sha (f.content.any fun c => cfg.sizeOf c = size ∧ c = sha)

/-- `touch`. -/
def touch (key : ν × σ) : BlobStore ν σ :=
  { s with
    blobs := Function.update s.blobs key ((s.blobs key).map fun f => { f with mtime := s.now }) }

/-- `unlinkQuiet` of a blob. -/
def unlinkQuiet (key : ν × σ) : BlobStore ν σ :=
  { s with blobs := Function.update s.blobs key none }

/-- A have-query answers a hit. -/
def answer (ns : ν) (sha : σ) (expiresAt : ℕ) : BlobStore ν σ :=
  if s.Intact ns sha then { s with answers := s.answers ++ [{ ns, sha, expiresAt }] } else s

/-- The end of a read: the blob is touched, or unlinked. -/
def settled (ns : ν) (sha : σ) (hit : Bool) : BlobStore ν σ :=
  if hit then s.touch (ns, sha) else s.unlinkQuiet (ns, sha)

/-- **One victim of an eviction**: it stays when it is leased, or gone, or was used since. -/
def evictVictim (held : List σ) (v : Candidate ν σ) : BlobStore ν σ :=
  if v.sha ∈ held then s
  else
    match s.blobs (v.ns, v.sha) with
    | none => s
    | some f => if v.mtime < f.mtime then s else s.unlinkQuiet (v.ns, v.sha)

/-- **One step.** -/
def next : BlobAct ν σ → Option (BlobStore ν σ)
  | .haveLease i ns hashes =>
    match s.tasks i, s.lock with
    | .fresh, none =>
      if s.alive (cfg.pidOf i) then
        let expiresAt := s.now + haveLeaseTtlMs
        let lease : Lease σ :=
          { file := i, pid := cfg.pidOf i, hashes, mtime := s.now, expiresAt := some expiresAt }
        some { s.goes i (.having ns hashes expiresAt .between) with
          leases := s.leases ++ [.lease lease] }
      else none
    | _, _ => none
  | .execLease i ns entries =>
    match s.tasks i, s.lock with
    | .fresh, none =>
      if s.alive (cfg.pidOf i) then
        let lease : Lease σ :=
          { file := i, pid := cfg.pidOf i, hashes := cacheable entries, mtime := s.now }
        some { s.goes i (.extracting ns entries .between) with
          leases := s.leases ++ [.lease lease] }
      else none
    | _, _ => none
  | .stat i sha =>
    match s.tasks i with
    | .having ns hashes expiresAt .between =>
      if sha ∈ hashes then
        ((s.blobs (ns, sha)).bind BlobFile.content).map fun c =>
          s.goes i (.having ns hashes expiresAt (.statted sha (cfg.sizeOf c)))
      else none
    | _ => none
  | .read i sha size opens =>
    match s.tasks i with
    | .having ns hashes expiresAt (.statted sha' size') =>
      if sha = sha' ∧ size = size' then
        some (s.goes i (.having ns hashes expiresAt (s.readBlob cfg ns sha size opens)))
      else none
    | .extracting ns entries .between =>
      if (sha, size) ∈ entries ∧ minCacheableBytes ≤ size then
        some (s.goes i (.extracting ns entries (s.readBlob cfg ns sha size opens)))
      else none
    | _ => none
  | .settle i =>
    match s.tasks i with
    | .having ns hashes expiresAt (.found sha hit) =>
      let settled := (s.settled ns sha hit).goes i (.having ns hashes expiresAt .between)
      some (if hit then settled.answer ns sha expiresAt else settled)
    | .extracting ns entries (.found sha hit) =>
      some ((s.settled ns sha hit).goes i (.extracting ns entries .between))
    | _ => none
  | .publish i sha =>
    match s.tasks i with
    | .extracting ns entries .between =>
      if (sha, cfg.sizeOf sha) ∈ entries ∧ minCacheableBytes ≤ cfg.sizeOf sha ∧
          ((s.blobs (ns, sha)).bind BlobFile.content).map cfg.sizeOf ≠ some (cfg.sizeOf sha) then
        some (s.goes i (.extracting ns entries (.publishing sha)))
      else none
    | _ => none
  | .rename i =>
    match s.tasks i with
    | .extracting ns entries (.publishing sha) =>
      some { s.goes i (.extracting ns entries .between) with
        blobs := Function.update s.blobs (ns, sha) (some { content := some sha, mtime := s.now }) }
    | _ => none
  | .finish i =>
    match s.tasks i with
    | .having _ _ _ .between => some (s.goes i .done)
    | _ => none
  | .release i =>
    match s.tasks i, s.lock with
    | .extracting _ _ .between, none =>
      some { s.goes i .done with
        leases := s.leases.filter fun
          | .lease l => l.file ≠ i
          | .unreadable _ => true }
    | _, _ => none
  | .spot i ns sha =>
    match s.tasks i with
    | .fresh =>
      if (s.blobs (ns, sha)).any fun f => f.content.isNone then some (s.goes i (.clearing ns sha))
      else none
    | _ => none
  | .clear i =>
    match s.tasks i with
    | .clearing ns sha => some ((s.unlinkQuiet (ns, sha)).goes i .fresh)
    | _ => none
  | .select i start scanned totalShards candidates =>
    match s.tasks i with
    | .fresh =>
      if start ≤ s.now then
        let victims := selectVictims cfg.maxBytes cfg.maxAgeMs start scanned totalShards candidates
        some (s.goes i (.selected victims start))
      else none
    | _ => none
  | .lock i listed unread =>
    match s.tasks i, s.lock with
    | .selected victims now, none =>
      if listed then
        let victims := if blockAll now unread s.leases then [] else victims
        some { s.goes i (.evicting (leasedHashes s.alive now unread s.leases) victims) with
          lock := some i
          leases := keptLeases s.alive now unread s.leases }
      else some { s.goes i (.evicting [] victims) with lock := some i }
    | _, _ => none
  | .evict i =>
    match s.tasks i with
    | .evicting held (v :: victims) =>
      some ((s.evictVictim held v).goes i (.evicting held victims))
    | _ => none
  | .unlock i =>
    match s.tasks i with
    | .evicting _ [] => some { s.goes i .done with lock := none }
    | _ => none
  | .die pid =>
    some { s with
      alive := Function.update s.alive pid false
      tasks := fun i => if cfg.pidOf i = pid then .done else s.tasks i
      lock := s.lock.filter fun i => cfg.pidOf i ≠ pid }
  | .tick ms => some { s with now := s.now + ms }
  | .damage ns sha file =>
    some { s with
      blobs := Function.update s.blobs (ns, sha) file
      answers := s.answers.filter fun a => ¬ (a.ns = ns ∧ a.sha = sha) }
  | .unreadable => some { s with leases := s.leases ++ [.unreadable s.now] }

end BlobStore

/-- **The runs of a runner's blob store**: at the start nobody is at work and nothing is
answered. -/
def blobStore (cfg : Setup σ) : Machine (BlobStore ν σ) (BlobAct ν σ) where
  start s := (∀ i, s.tasks i = .fresh) ∧ s.lock = none ∧ s.answers = []
  next := BlobStore.next cfg

end Blobs
end Runner
end LaneBroker
