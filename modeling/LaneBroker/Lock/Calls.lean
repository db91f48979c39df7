/-
# The state lock

`withLock` of `state.js`: a directory with the record of its owner, which a call puts in place with
one rename, and `recoverDeadLock`, which moves the directory of a dead owner onto a tomb that is
named after the owner.  Any number of calls run, in processes that may die; each step is one
operation of the file system, which may fail and has then done nothing (a write may leave a torn
file), and steps of different calls follow one another in any order and after any time.

The owner of a lock is its call: the token is drawn for the call, and the pid and the start time
in the record are those of its process (`pidOf`).  What a name of random bytes is drawn as stands in
the label of the step.  The oracle `isLockOwnerAlive` finds an owner dead only if it is.  (The
directories of staging and of trash are under names of their own, and nobody else looks at them.)
-/

import LaneBroker.Basis.Directory
import LaneBroker.Basis.Machine
import Mathlib.Data.List.Dedup

namespace LaneBroker
namespace Lock

open LaneBroker.Basis

/-! ### The lock directory -/

/-- **The files of a lock directory.** -/
inductive FileName
  | ownerJson
  | stolenAt
  /-- The stamp under its temporary name. -/
  | stampTmp (random : Nat)
  deriving DecidableEq, Repr

/-- **What is in them.** -/
inductive Content
  | owner (token : Nat)
  | time (ms : Int)
  /-- A write that failed half way. -/
  | torn
  deriving DecidableEq, Repr

/-- A lock directory, or a tomb. -/
abbrev LockDir := Dir FileName Content

/-- The owner that `readJsonSafe` of the owner file finds. -/
def ownerOf (d : Option LockDir) : Option Nat :=
  match d.bind (·.read .ownerJson) with
  | some (.owner token) => some token
  | _ => none

/-- The time that a stamp names. -/
def stampOf (d : Option LockDir) : Option Int :=
  match d.bind (·.read .stolenAt) with
  | some (.time ms) => some ms
  | _ => none

/-- A directory can be renamed onto a path where there is none, or an empty one. -/
def free (d : Option LockDir) : Bool := d.all fun d => d.entries.isEmpty

/-- The names in a directory, each once. -/
def namesIn (d : LockDir) : List FileName := (d.entries.map Prod.fst).dedup

/-- What a staging directory holds. -/
def staged (token : Nat) : LockDir := Dir.empty.write .ownerJson (.owner token)

/-! ### The calls -/

/-- What is removed recursively. -/
inductive Target
  | lock
  | tomb (owner : Nat)
  deriving DecidableEq, Repr

/-- **Where a call of `withLock` is**: in front of which operation. -/
inductive Phase
  | absent
  /-- `gcTombs`: `readdirSync` of the root. -/
  | gcList
  /-- `gcTombs`: the stamp of the first of these tombs, by the clock read at its start. -/
  | gc (now : Int) (names : List Nat)
  /-- `rmSync`: the names in the directory, and the tombs that are left to `gcTombs`. -/
  | rmList (target : Target) (now : Int) (names : List Nat)
  /-- `rmSync`: the first of these files, or at last the directory. -/
  | rmFile (target : Target) (files : List FileName) (now : Int) (names : List Nat)
  /-- The staging directory. -/
  | mkdir
  | write
  | rename
  /-- `readJsonSafe` of the owner file. -/
  | look
  /-- `isLockOwnerAlive`. -/
  | probe (owner : Nat)
  /-- `recoverDeadLock`: the owner file is read again. -/
  | recheck (owner : Nat)
  | clock (owner : Nat)
  | stampWrite (owner : Nat) (ms : Int)
  | stampRename (owner : Nat) (random : Nat)
  /-- `renameSync` of the lock directory onto the tomb. -/
  | takeOver (owner : Nat)
  /-- The owner file in the tomb is read. -/
  | verify (owner : Nat)
  /-- `renameSync` of the tomb onto the lock directory. -/
  | putBack (owner : Nat)
  /-- The deadline, and then the sleep. -/
  | wait
  /-- In the callback. -/
  | inside
  /-- The release: the owner file is read. -/
  | leave
  /-- `renameSync` of the lock directory to the trash. -/
  | letGo
  /-- The owner file is read again. -/
  | relook
  | ended
  deriving DecidableEq, Repr

/-- **The lock with its calls.** -/
structure World where
  lock : Option LockDir := none
  tombs : Dir Nat LockDir := .empty
  now : Int := 0
  /-- The processes that died. -/
  dead : List Nat := []
  phase : Nat → Phase := fun _ => .absent
  /-- When a call last read an owner. -/
  seen : Nat → Int := fun _ => 0

/-- **How an operation goes**; `ok` comes with random bytes. -/
inductive Reply
  | ok (random : Nat)
  | fails
  /-- A write fails half way. -/
  | tears (random : Nat)
  deriving DecidableEq, Repr

/-- **The moves.** -/
inductive Move
  | begins (call : Nat)
  | steps (call : Nat) (reply : Reply)
  | dies (pid : Nat)
  | tick (ms : Nat)
  deriving DecidableEq, Repr

/-- `TOMB_TTL_MS`. -/
def tombTtlMs : Int := 7 * 24 * 60 * 60 * 1000

namespace World

/-- A call goes on to a phase. -/
def become (w : World) (i : Nat) (p : Phase) : World :=
  { w with phase := fun j => if j = i then p else w.phase j }

/-- What is removed recursively. -/
def at' (w : World) : Target → Option LockDir
  | .lock => w.lock
  | .tomb o => w.tombs.read o

/-- A directory in its place, or gone. -/
def put (w : World) (d : Option LockDir) : Target → World
  | .lock => { w with lock := d }
  | .tomb o => { w with tombs := d.elim (w.tombs.unlink o) (w.tombs.write o) }

/-- Where a call is after `rmSync`, which is in a `try`. -/
def behindRemoval (target : Target) (now : Int) (names : List Nat) : Phase :=
  match target with
  | .lock => .ended
  | .tomb _ => .gc now names

variable (pidOf : Nat → Nat)

/-- The process of a call died. -/
def isDead (w : World) (i : Nat) : Bool := w.dead.contains (pidOf i)

/-- `gcTombs`, whose errors are caught, and then the acquisition. -/
def collect (w : World) (i : Nat) (now : Int) (reply : Reply) : List Nat → World
  | [] => w.become i .mkdir
  | o :: names =>
    match reply, stampOf (w.tombs.read o) with
    | .ok _, some ms =>
      if now - ms > tombTtlMs then w.become i (.rmList (.tomb o) now names)
      else w.become i (.gc now names)
    | _, _ => w.become i (.gc now names)

/-- `rmSync`: a file of the directory, and at last the directory. -/
def remove (w : World) (i : Nat) (target : Target) (now : Int) (names : List Nat) :
    List FileName → World
  | f :: files =>
    match w.at' target with
    | none => w.become i (.rmFile target files now names)
    | some d => (w.put (some (d.unlink f)) target).become i (.rmFile target files now names)
  | [] =>
    if free (w.at' target) then (w.put none target).become i (behindRemoval target now names)
    else w.become i (behindRemoval target now names)

/-- The stamp is written under its temporary name. -/
def writeStamp (w : World) (i o : Nat) (ms : Int) : Reply → World
  | .ok random =>
    match w.lock with
    | none => w.become i .wait
    | some d => { w with lock := some (d.write (.stampTmp random) (.time ms)) }.become i (.stampRename o random)
  | .fails => w.become i .wait
  | .tears random =>
    match w.lock with
    | none => w.become i .wait
    | some d => { w with lock := some (d.write (.stampTmp random) .torn) }.become i .wait

/-- The stamp gets its name. -/
def renameStamp (w : World) (i o random : Nat) : World :=
  match w.lock with
  | none => w.become i .wait
  | some d =>
    match d.read (.stampTmp random) with
    | none => w.become i .wait
    | some c =>
      { w with lock := some ((d.unlink (.stampTmp random)).write .stolenAt c) }.become i (.takeOver o)

/-- The lock directory is moved onto the tomb of the owner. -/
def takeOver (w : World) (i o : Nat) : World :=
  match w.lock with
  | none => w.become i .wait
  | some d =>
    if free (w.tombs.read o) then
      { w with lock := none, tombs := w.tombs.write o d }.become i (.verify o)
    else w.become i .wait

/-- The tomb is moved back; where that fails the call throws. -/
def putBack (w : World) (i o : Nat) : World :=
  match w.tombs.read o with
  | none => w.become i .ended
  | some d =>
    if free w.lock then { w with lock := some d, tombs := w.tombs.unlink o }.become i .wait
    else w.become i .ended

/-- **One operation of a call.** -/
def step (w : World) (i : Nat) (reply : Reply) : Option World :=
  match w.phase i with
  | .absent => none
  | .gcList =>
    match reply with
    | .ok _ => some (w.become i (.gc w.now (w.tombs.entries.map Prod.fst)))
    | _ => some (w.become i .mkdir)
  | .gc now names => some (w.collect i now reply names)
  | .rmList target now names =>
    match reply, w.at' target with
    | .ok _, some d => some (w.become i (.rmFile target (namesIn d) now names))
    | _, _ => some (w.become i (behindRemoval target now names))
  | .rmFile target files now names =>
    match reply with
    | .ok _ => some (w.remove i target now names files)
    | _ => some (w.become i (behindRemoval target now names))
  -- acquiring: every failure is contention
  | .mkdir =>
    match reply with
    | .ok _ => some (w.become i .write)
    | _ => some (w.become i .look)
  | .write =>
    match reply with
    | .ok _ => some (w.become i .rename)
    | _ => some (w.become i .look)
  | .rename =>
    match reply with
    | .ok _ =>
      if free w.lock then some ({ w with lock := some (staged i) }.become i .inside)
      else some (w.become i .look)
    | _ => some (w.become i .look)
  | .look =>
    match reply, ownerOf w.lock with
    | .ok _, some o =>
      some ({ w with seen := fun j => if j = i then w.now else w.seen j }.become i (.probe o))
    | _, _ => some (w.become i .wait)
  | .probe o =>
    match reply with
    | .ok _ => if w.isDead pidOf o then some (w.become i (.recheck o)) else none
    | _ => some (w.become i .wait)
  -- `recoverDeadLock`
  | .recheck o =>
    match reply with
    | .ok _ =>
      if ownerOf w.lock = some o then some (w.become i (.clock o)) else some (w.become i .wait)
    | _ => some (w.become i .wait)
  | .clock o => some (w.become i (.stampWrite o w.now))
  | .stampWrite o ms => some (w.writeStamp i o ms reply)
  | .stampRename o random =>
    match reply with
    | .ok _ => some (w.renameStamp i o random)
    | _ => some (w.become i .wait)
  | .takeOver o =>
    match reply with
    | .ok _ => some (w.takeOver i o)
    | _ => some (w.become i .wait)
  | .verify o =>
    match reply with
    | .ok _ =>
      if ownerOf (w.tombs.read o) = some o then some (w.become i .wait)
      else some (w.become i (.putBack o))
    | _ => some (w.become i (.putBack o))
  | .putBack o =>
    match reply with
    | .ok _ => some (w.putBack i o)
    | _ => some (w.become i .ended)
  -- the deadline has passed, or not
  | .wait =>
    match reply with
    | .ok _ => some (w.become i .mkdir)
    | _ => some (w.become i .ended)
  -- the callback, and the release
  | .inside => some (w.become i .leave)
  | .leave =>
    match reply with
    | .ok _ =>
      if ownerOf w.lock = some i then some (w.become i .letGo) else some (w.become i .ended)
    | _ => some (w.become i .ended)
  | .letGo =>
    match reply, w.lock with
    | .ok _, some _ => some ({ w with lock := none }.become i .ended)
    | _, _ => some (w.become i .relook)
  | .relook =>
    match reply with
    | .ok _ =>
      if ownerOf w.lock = some i then some (w.become i (.rmList .lock 0 []))
      else some (w.become i .ended)
    | _ => some (w.become i .ended)
  | .ended => none

/-- **One move.** -/
def next (w : World) : Move → Option World
  | .begins i => if w.phase i = .absent ∧ w.isDead pidOf i = false then some (w.become i .gcList) else none
  | .steps i reply => if w.isDead pidOf i then none else w.step pidOf i reply
  | .dies pid => some { w with dead := pid :: w.dead }
  | .tick ms => some { w with now := w.now + ms }

end World

/-- **The lock machine**, of calls in these processes. -/
def lockMachine (pidOf : Nat → Nat) : Machine World Move where
  start w := w = {}
  next := World.next pidOf

end Lock
end LaneBroker
