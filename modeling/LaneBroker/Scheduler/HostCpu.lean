/-
# How busy the host is

`sampleHostCpu` of `cpu.js`: each call reads the counters of the cores, and finds from the
ones that the last call left in a file how many cores were busy since.  Counters that have not
moved say nothing, and then the last measurement, which the file carries, stands in for a
while.

Over any run of calls a sample that is reused repeats what one of them measured, and since
then nothing was stored but reads of counters that had not moved (`repeats_of_reused`).  What
is measured is at most the cores there are, but where the idle time went up by more than the
whole time it may be negative, as only the whole time is looked at: it is not just where the
idle shares of the cores that moved add up to no more than these cores (`sampleHostCpu_spec`).
-/

import LaneBroker.Scheduler.Gates
import LaneBroker.Scheduler.Preemptible
import Mathlib.Data.List.Induction

namespace LaneBroker
namespace Scheduler
namespace HostCpu

open LaneBroker.Basis LaneBroker.Scheduler.Gates

/-! ### The counters -/

/-- **What `os.cpus()` says of a core**; `none` for what is not a finite number. -/
structure Times where
  user : Option ℚ
  nice : Option ℚ
  sys : Option ℚ
  idle : Option ℚ
  irq : Option ℚ
  deriving DecidableEq

/-- **The counters of a core**; `none` for what is not a finite number. -/
structure Counters where
  idle : Option ℚ
  total : Option ℚ
  deriving DecidableEq

/-- **`cpuTimes`**, of a core that may have none. -/
def cpuTimes (times : Option Times) : Counters :=
  match times with
  | none => { idle := none, total := none }
  | some t =>
    { idle := t.idle
      total := do return (← t.user) + (← t.nice) + (← t.sys) + (← t.idle) + (← t.irq) }

/-- Both counters are numbers, and the same. -/
def Counters.same (p s : Counters) : Bool :=
  p.total.any (fun total => s.total = some total) && p.idle.any fun idle => s.idle = some idle

/-- **How far the counters of a core went**, the total up. -/
structure Advance where
  totalDelta : ℚ
  idleDelta : ℚ
  up : 0 < totalDelta

/-- How far a core went, where its counters are numbers and the total went up. -/
def advance (p s : Counters) : Option Advance := do
  let total ← p.total
  let idle ← p.idle
  let total' ← s.total
  let idle' ← s.idle
  if h : 0 < total' - total then
    some { totalDelta := total' - total, idleDelta := idle' - idle, up := h }
  else none

/-- The cores that moved. -/
def advances (prev cpus : List Counters) : List Advance :=
  (prev.zip cpus).filterMap fun ps => advance ps.1 ps.2

/-- The busy share of a core. -/
def Advance.busy (a : Advance) : ℚ := (a.totalDelta - a.idleDelta) / a.totalDelta

/-- Its idle share. -/
def Advance.idle (a : Advance) : ℚ := a.idleDelta / a.totalDelta

/-! ### The sidecar -/

/-- **The last measurement**, with the window that its discount is of. -/
structure LastValid where
  hostBusyCores : ℚ
  preemptibleBusyCores : ℚ
  cores : ℚ
  at_ : ℤ
  procWindow : Option ProcWindow

/-- **What a call leaves in `cpu-sample.json`.** -/
structure Snapshot where
  at_ : ℤ
  cpus : List Counters
  procs : Option Procs
  lastValid : Option LastValid

/-- `MAX_SAMPLE_GAP_MS`. -/
def maxSampleGapMs : ℤ := 60000

/-- The reading comes after the snapshot, soon enough, and of as many cores. -/
def Comparable (prev : Snapshot) (now : ℤ) (cpus : List Counters) : Prop :=
  prev.cpus.length = cpus.length ∧ 0 ≤ now - prev.at_ ∧ now - prev.at_ ≤ maxSampleGapMs

instance (prev : Snapshot) (now : ℤ) (cpus : List Counters) :
    Decidable (Comparable prev now cpus) :=
  inferInstanceAs (Decidable (_ ∧ _))

/-- **`computeBusyCores`**; `none` where the sample is stale. -/
def computeBusyCores (prev : Option Snapshot) (now : ℤ) (cpus : List Counters) : Option ℚ :=
  match prev with
  | none => none
  | some prev =>
    if Comparable prev now cpus then
      let moved := advances prev.cpus cpus
      if moved = [] then none else some (moved.map Advance.busy).sum
    else none

/-- **`countersUnchanged`.** -/
def countersUnchanged (prev : Option Snapshot) (now : ℤ) (cpus : List Counters) : Bool :=
  prev.any fun prev => prev.cpus ≠ [] ∧ Comparable prev now cpus ∧
    (prev.cpus.zip cpus).all fun ps => ps.1.same ps.2

/-! ### How many cores there are -/

/-- **The limits of a control group**: quota and period, and the ranges of its cores. -/
structure Cgroup where
  cpuMax : Option (ℚ × ℚ)
  cpuSet : Option (List (ℕ × ℕ))

/-- `parseCpuMax`, of what is not `max`. -/
def parseCpuMax (quota period : ℚ) : Option ℚ :=
  if 0 < quota ∧ 0 < period then some (quota / period) else none

/-- `parseCpuSet`, of ranges. -/
def parseCpuSet (ranges : List (ℕ × ℕ)) : Option ℕ :=
  if ranges.any fun range => range.2 < range.1 then none
  else
    let count := (ranges.map fun range => range.2 - range.1 + 1).sum
    if 0 < count then some count else none

/-- One directory of the loop of `detectResourceCapacity`. -/
def limitCores (cpuCores : ℚ) (dir : Cgroup) : ℚ :=
  let cpuCores :=
    match dir.cpuMax.bind fun limits => parseCpuMax limits.1 limits.2 with
    | none => cpuCores
    | some cpuQuota => min cpuCores cpuQuota
  match dir.cpuSet.bind parseCpuSet with
  | none => cpuCores
  | some cpuSet => min cpuCores cpuSet

/-- **`detectResourceCapacity`**, its `cpuCores`; there are no directories but on Linux. -/
def detectCores (parallelism : ℕ) (dirs : List Cgroup) : ℚ :=
  dirs.foldl limitCores (max 1 parallelism)

theorem limitCores_pos {cpuCores : ℚ} (h : 0 < cpuCores) (dir : Cgroup) :
    0 < limitCores cpuCores dir := by
  have hquota : ∀ {limits : ℚ × ℚ} {cpuQuota : ℚ},
      parseCpuMax limits.1 limits.2 = some cpuQuota → 0 < cpuQuota := by
    intro limits cpuQuota hparse
    rw [parseCpuMax] at hparse
    split_ifs at hparse with hpos
    rw [← Option.some.inj hparse]
    exact div_pos hpos.1 hpos.2
  have hset : ∀ {ranges : List (ℕ × ℕ)} {cpuSet : ℕ},
      parseCpuSet ranges = some cpuSet → 0 < cpuSet := by
    intro ranges cpuSet hparse
    rw [parseCpuSet] at hparse
    dsimp only at hparse
    split_ifs at hparse with _ hcount
    rw [← Option.some.inj hparse]
    exact hcount
  have hmax : 0 < (match dir.cpuMax.bind fun limits => parseCpuMax limits.1 limits.2 with
      | none => cpuCores
      | some cpuQuota => min cpuCores cpuQuota) := by
    split
    · exact h
    · next cpuQuota hfound =>
      obtain ⟨limits, -, hparse⟩ := Option.bind_eq_some_iff.1 hfound
      exact lt_min h (hquota hparse)
  rw [limitCores]
  split
  · exact hmax
  · next cpuSet hfound =>
    obtain ⟨ranges, -, hparse⟩ := Option.bind_eq_some_iff.1 hfound
    exact lt_min hmax (by exact_mod_cast hset hparse)

theorem detectCores_pos (parallelism : ℕ) (dirs : List Cgroup) :
    0 < detectCores parallelism dirs := by
  have hall : ∀ cpuCores : ℚ, 0 < cpuCores → 0 < dirs.foldl limitCores cpuCores := by
    induction dirs with
    | nil => exact fun _ h => h
    | cons dir dirs ih => exact fun cpuCores h => ih _ (limitCores_pos h dir)
  exact hall _ (lt_max_of_lt_left one_pos)

/-! ### A call -/

/-- **A call of `sampleHostCpu`**, with what it finds: the clock, the counters, the limits, the
process table where it can be read, who samples, and whether the sidecar can be read, read again and
written. -/
structure Call where
  now : ℤ
  cpus : List (Option Times)
  dirs : List Cgroup := []
  reuseWindowMs : ℤ := 0
  preemptible : Option Preemptible := none
  readProcs : Option ProcTable := none
  sampler : Sampler := { protectedPids := [], readMarkers := fun _ _ _ => none }
  readable : Bool := true
  rereadable : Bool := true
  writable : Bool := true

/-- **What a call returns.** -/
structure HostSample extends CpuReading where
  sampledAt : ℤ

section Call

variable (file : Option Snapshot) (c : Call)

/-- `prev`. -/
def Call.prev : Option Snapshot := if c.readable then file else none

/-- The counters of the snapshot. -/
def Call.counters : List Counters := c.cpus.map cpuTimes

/-- The cores that the call counts with. -/
def Call.cores : ℚ := detectCores c.cpus.length c.dirs

/-- The busy cores that the call finds, `none` where it is stale. -/
def Call.busy : Option ℚ := computeBusyCores (c.prev file) c.now c.counters

/-- `measured`. -/
def Call.measured : Option ℚ := (c.busy file).map (min · c.cores)

/-- The process table is read. -/
def Call.wantsProcs : Bool := c.preemptible.any fun opts => 0 < opts.niceMin

/-- `procRows`. -/
def Call.procRows : Option ProcTable := if c.wantsProcs then c.readProcs else none

/-- `unchanged`. -/
def Call.unchanged : Bool :=
  c.busy file = none ∧ countersUnchanged (c.prev file) c.now c.counters

/-- `procWindow`. -/
def Call.procWindow : Option ProcWindow :=
  if c.busy file = none then none
  else do
    let rows ← c.procRows
    let prev ← c.prev file
    let procs ← prev.procs
    return { table := withDeltas rows procs, windowMs := c.now - prev.at_ }

/-- `discount`. -/
def Call.discount (window : Option ProcWindow) (busy : ℚ) : ℚ :=
  match window, c.preemptible with
  | some window, some opts => min (preemptibleCores c.sampler window opts) busy
  | _, _ => 0

/-- What is measured, with its window. -/
def Call.ownValid (measured : ℚ) : LastValid where
  hostBusyCores := measured
  preemptibleBusyCores := c.discount (c.procWindow file) measured
  cores := c.cores
  at_ := c.now
  procWindow := c.procWindow file

/-- `lastValid`. -/
def Call.lastValid : Option LastValid :=
  match c.measured file with
  | some measured => some (c.ownValid file measured)
  | none => if c.unchanged file then (c.prev file).bind Snapshot.lastValid else none

/-- `snapshot`. -/
def Call.snapshot : Snapshot where
  at_ := c.now
  cpus := c.counters
  procs := if c.wantsProcs then some (procSnapshot c.procRows) else none
  lastValid := c.lastValid file

/-- The snapshot is stored: nothing as new is there, and the write goes through. -/
def Call.stores : Bool :=
  c.writable ∧ (if c.rereadable then file else none).all fun latest => latest.at_ < c.now

/-- The last measurement, where it is `reusable`. -/
def Call.reusable : Option LastValid :=
  if c.unchanged file then
    ((c.prev file).bind Snapshot.lastValid).filter fun lastValid =>
      lastValid.cores = c.cores ∧ 0 ≤ c.now - lastValid.at_ ∧
        c.now - lastValid.at_ < c.reuseWindowMs
  else none

/-- **`sampleHostCpu`**: the sample, and the sidecar behind it. -/
def sampleHostCpu : HostSample × Option Snapshot :=
  let file' := if c.stores file then some (c.snapshot file) else file
  match c.reusable file with
  | some lastValid =>
    ({ hostBusyCores := some lastValid.hostBusyCores
       preemptibleBusyCores := c.discount lastValid.procWindow lastValid.hostBusyCores
       cores := some c.cores
       stale := false
       reused := true
       sampledAt := c.now }, file')
  | none =>
    ({ hostBusyCores := c.measured file
       preemptibleBusyCores :=
        match c.measured file with
        | none => 0
        | some measured => c.discount (c.procWindow file) measured
       cores := some c.cores
       stale := c.busy file = none
       sampledAt := c.now }, file')

end Call

/-! ### What one call measures -/

theorem sum_busy (moved : List Advance) :
    (moved.map Advance.busy).sum = moved.length - (moved.map Advance.idle).sum := by
  induction moved with
  | nil => simp
  | cons a moved ih =>
    have hbusy : a.busy = 1 - a.idle := by
      rw [Advance.busy, Advance.idle, sub_div, div_self a.up.ne']
    rw [List.map_cons, List.map_cons, List.sum_cons, List.sum_cons, List.length_cons, ih, hbusy]
    push_cast
    ring

/-- **The idle shares of the cores that moved add up to no more than these cores.** -/
def IdleWithin (file : Option Snapshot) (c : Call) : Prop :=
  ∀ prev, c.prev file = some prev → Comparable prev c.now c.counters →
    ((advances prev.cpus c.counters).map Advance.idle).sum ≤ (advances prev.cpus c.counters).length

/-- **The busy figures are in order**: none is negative, what yields is busy, and no more is busy
than there is. -/
def Within (s : HostSample) : Prop :=
  ∃ hostBusyCores cores, s.hostBusyCores = some hostBusyCores ∧ s.cores = some cores ∧
    0 ≤ s.preemptibleBusyCores ∧ s.preemptibleBusyCores ≤ hostBusyCores ∧ hostBusyCores ≤ cores

section Call

variable {file : Option Snapshot} {c : Call}

/-- **What a call measures is not negative, just where the idle shares are within.** -/
theorem idleWithin_iff : IdleWithin file c ↔ ∀ busy, c.busy file = some busy → 0 ≤ busy := by
  rw [Call.busy]
  cases hprev : c.prev file with
  | none =>
    constructor
    · intro _ busy hbusy
      cases hbusy
    · intro _ prev hsome
      rw [hprev] at hsome
      cases hsome
  | some prev =>
    have hidle : IdleWithin file c ↔ (Comparable prev c.now c.counters →
        0 ≤ ((advances prev.cpus c.counters).map Advance.busy).sum) := by
      simp only [IdleWithin, hprev, Option.some.injEq, forall_eq', sum_busy, sub_nonneg]
    rw [hidle, computeBusyCores]
    by_cases hcomp : Comparable prev c.now c.counters
    · by_cases hmoved : advances prev.cpus c.counters = []
      · simp [hcomp, hmoved]
      · simp [hcomp, hmoved]
    · simp [hcomp]

theorem discount_mem {window : Option ProcWindow} {busy : ℚ} (h : 0 ≤ busy) :
    0 ≤ c.discount window busy ∧ c.discount window busy ≤ busy := by
  unfold Call.discount
  cases window with
  | none => exact ⟨le_rfl, h⟩
  | some window =>
    cases c.preemptible with
    | none => exact ⟨le_rfl, h⟩
    | some opts => exact ⟨le_min preemptibleCores_nonneg h, min_le_right _ _⟩

theorem not_unchanged_of_busy {busy : ℚ} (h : c.busy file = some busy) :
    c.unchanged file = false := by
  rw [Call.unchanged, h]
  rfl

theorem reusable_eq_some {v : LastValid} (h : c.reusable file = some v) :
    c.unchanged file = true ∧ (c.prev file).bind Snapshot.lastValid = some v ∧
      v.cores = c.cores ∧ 0 ≤ c.now - v.at_ ∧ c.now - v.at_ < c.reuseWindowMs := by
  rw [Call.reusable] at h
  split_ifs at h with hunchanged
  obtain ⟨hlast, hfresh⟩ := Option.filter_eq_some_iff.1 h
  exact ⟨hunchanged, hlast, by simpa using hfresh⟩

/-- **A call measures, reuses, or says that it is stale.** -/
theorem sample_cases (file : Option Snapshot) (c : Call) :
    (∃ busy, c.busy file = some busy ∧ (sampleHostCpu file c).1 =
      { hostBusyCores := some (min busy c.cores)
        preemptibleBusyCores := c.discount (c.procWindow file) (min busy c.cores)
        cores := some c.cores
        sampledAt := c.now }) ∨
    (∃ v, c.reusable file = some v ∧ (sampleHostCpu file c).1 =
      { hostBusyCores := some v.hostBusyCores
        preemptibleBusyCores := c.discount v.procWindow v.hostBusyCores
        cores := some c.cores
        reused := true
        sampledAt := c.now }) ∨
    c.busy file = none ∧ c.reusable file = none ∧ (sampleHostCpu file c).1 =
      { hostBusyCores := none
        cores := some c.cores
        stale := true
        sampledAt := c.now } := by
  rw [sampleHostCpu]
  cases hreusable : c.reusable file with
  | some v => exact .inr (.inl ⟨v, rfl, rfl⟩)
  | none =>
    cases hbusy : c.busy file with
    | none =>
      refine .inr (.inr ⟨rfl, rfl, ?_⟩)
      simp [Call.measured, hbusy]
    | some busy =>
      refine .inl ⟨busy, rfl, ?_⟩
      simp [Call.measured, hbusy]

theorem prev_eq_some {prev : Snapshot} (h : c.prev file = some prev) : file = some prev := by
  rw [Call.prev] at h
  split_ifs at h
  exact h

theorem sidecar_eq (file : Option Snapshot) (c : Call) :
    (sampleHostCpu file c).2 = if c.stores file then some (c.snapshot file) else file := by
  rw [sampleHostCpu]
  cases c.reusable file with
  | none => rfl
  | some v => rfl

/-- **What the sidecar carries is measured by the call that stored it, or was carried before, over
counters that had not moved.** -/
theorem lastValid_cases {v : LastValid} (h : c.lastValid file = some v) :
    (∃ measured, c.measured file = some measured ∧ v = c.ownValid file measured) ∨
      c.unchanged file = true ∧ file.bind Snapshot.lastValid = some v := by
  rw [Call.lastValid] at h
  split at h
  · next measured hmeasured => exact .inl ⟨measured, hmeasured, (Option.some.inj h).symm⟩
  · split_ifs at h with hunchanged
    obtain ⟨prev, hprev, hlast⟩ := Option.bind_eq_some_iff.1 h
    exact .inr ⟨hunchanged, Option.bind_eq_some_iff.2 ⟨prev, prev_eq_some hprev, hlast⟩⟩

end Call

/-! ### Runs -/

/-- **The sidecar after so many calls.** -/
def fileAfter (calls : List Call) : Option Snapshot :=
  calls.foldl (fun file c => (sampleHostCpu file c).2) none

/-- **The sample of a call after others.** -/
def sampleOf (before : List Call) (c : Call) : HostSample := (sampleHostCpu (fileAfter before) c).1

theorem fileAfter_concat (calls : List Call) (c : Call) :
    fileAfter (calls ++ [c]) =
      if c.stores (fileAfter calls) then some (c.snapshot (fileAfter calls))
      else fileAfter calls := by
  rw [fileAfter, List.foldl_append]
  exact sidecar_eq _ c

/-- **What is stored after a call, in a run, is only of counters that had not moved.** -/
def OnlyUnchanged (before since : List Call) : Prop :=
  ∀ mid c rest, since = mid ++ c :: rest → c.stores (fileAfter (before ++ mid)) = true →
    c.unchanged (fileAfter (before ++ mid)) = true

/-- **A measurement comes from a call of the run**, that stored it, and after which only unchanged
counters were stored. -/
def ComesFrom (calls before : List Call) (m : Call) (measured : ℚ) : Prop :=
  ∃ since, calls = before ++ m :: since ∧ m.stores (fileAfter before) = true ∧
    m.measured (fileAfter before) = some measured ∧ OnlyUnchanged (before ++ [m]) since

theorem OnlyUnchanged.concat {before since : List Call} {c : Call} (h : OnlyUnchanged before since)
    (hc : c.stores (fileAfter (before ++ since)) = true →
      c.unchanged (fileAfter (before ++ since)) = true) :
    OnlyUnchanged before (since ++ [c]) := by
  intro mid x rest hsplit hstores
  obtain rfl | ⟨rest, last, rfl⟩ := List.eq_nil_or_concat rest
  · obtain ⟨rfl, hlast⟩ := List.append_inj' hsplit rfl
    obtain ⟨rfl, -⟩ := List.cons.inj hlast
    exact hc hstores
  · rw [List.concat_eq_append, ← List.cons_append, ← List.append_assoc] at hsplit
    exact h mid x rest (List.append_inj' hsplit rfl).1 hstores

theorem ComesFrom.concat {calls before : List Call} {m c : Call} {measured : ℚ}
    (h : ComesFrom calls before m measured)
    (hc : c.stores (fileAfter calls) = true → c.unchanged (fileAfter calls) = true) :
    ComesFrom (calls ++ [c]) before m measured := by
  obtain ⟨since, rfl, hstores, hmeasured, honly⟩ := h
  refine ⟨since ++ [c], by rw [List.append_assoc]; rfl, hstores, hmeasured, honly.concat ?_⟩
  rwa [List.append_assoc]

/-- **What the sidecar carries comes from a call of the run.** -/
theorem comesFrom_of_lastValid {calls : List Call} {v : LastValid}
    (h : (fileAfter calls).bind Snapshot.lastValid = some v) : ∃ before m measured,
      ComesFrom calls before m measured ∧ v = m.ownValid (fileAfter before) measured := by
  induction calls using List.reverseRecOn with
  | nil => cases h
  | append_singleton calls c ih =>
    rw [fileAfter_concat] at h
    split_ifs at h with hstores
    · obtain ⟨measured, hmeasured, rfl⟩ | ⟨hunchanged, hlast⟩ := lastValid_cases h
      · refine ⟨calls, c, measured, ⟨[], rfl, hstores, hmeasured, ?_⟩, rfl⟩
        intro mid x rest hsplit
        cases List.append_ne_nil_of_right_ne_nil mid (List.cons_ne_nil x rest) hsplit.symm
      · obtain ⟨before, m, measured, hfrom, rfl⟩ := ih hlast
        exact ⟨before, m, measured, hfrom.concat fun _ => hunchanged, rfl⟩
    · obtain ⟨before, m, measured, hfrom, rfl⟩ := ih h
      exact ⟨before, m, measured, hfrom.concat fun hyes => absurd hyes hstores, rfl⟩

/-- **A call repeats what one of the run measured**, of as many cores and not too long ago, and only
counters that had not moved were read and stored since. -/
def Repeats (before : List Call) (c : Call) : Prop :=
  ∃ first m measured, ComesFrom before first m measured ∧
    c.unchanged (fileAfter before) = true ∧
    (sampleOf before c).hostBusyCores = some measured ∧
    (sampleOf before c).preemptibleBusyCores =
      c.discount (m.procWindow (fileAfter first)) measured ∧
    (sampleOf before c).cores = some m.cores ∧
    0 ≤ c.now - m.now ∧ c.now - m.now < c.reuseWindowMs

theorem repeats_of_reused {before : List Call} {c : Call}
    (h : (sampleOf before c).reused = true) : Repeats before c := by
  obtain ⟨busy, -, hsample⟩ | ⟨v, hreusable, hsample⟩ | ⟨-, -, hsample⟩ :=
    sample_cases (fileAfter before) c
  · rw [sampleOf, hsample] at h
    cases h
  · obtain ⟨hunchanged, hlast, hcores, hback, hwindow⟩ := reusable_eq_some hreusable
    obtain ⟨prev, hprev, hlast⟩ := Option.bind_eq_some_iff.1 hlast
    have hcarried : (fileAfter before).bind Snapshot.lastValid = some v :=
      Option.bind_eq_some_iff.2 ⟨prev, prev_eq_some hprev, hlast⟩
    obtain ⟨first, m, measured, hfrom, rfl⟩ := comesFrom_of_lastValid hcarried
    refine ⟨first, m, measured, hfrom, hunchanged, ?_, ?_, ?_, hback, hwindow⟩
    · rw [sampleOf, hsample]
      rfl
    · rw [sampleOf, hsample]
      rfl
    · rw [sampleOf, hsample]
      exact congrArg some hcores.symm
  · rw [sampleOf, hsample] at h
    cases h

theorem ComesFrom.isPrefix {calls before : List Call} {m : Call} {measured : ℚ}
    (h : ComesFrom calls before m measured) : before ++ [m] <+: calls := by
  obtain ⟨since, rfl, -⟩ := h
  exact ⟨since, by rw [List.append_assoc]; rfl⟩

/-- **A call whose figures are not stale has them in order, where every measurement of the run
has.** -/
theorem within_of_idleWithin {before : List Call} {c : Call}
    (h : ∀ first m, first ++ [m] <+: before ++ [c] → IdleWithin (fileAfter first) m)
    (hstale : (sampleOf before c).stale = false) : Within (sampleOf before c) := by
  have hmeasured : ∀ {first m measured}, first ++ [m] <+: before ++ [c] →
      m.measured (fileAfter first) = some measured → 0 ≤ measured ∧ measured ≤ m.cores := by
    intro first m measured hprefix hsome
    obtain ⟨busy, hbusy, rfl⟩ := Option.map_eq_some_iff.1 hsome
    have hpos := idleWithin_iff.1 (h first m hprefix) busy hbusy
    exact ⟨le_min hpos (detectCores_pos _ _).le, min_le_right _ _⟩
  obtain ⟨busy, hbusy, hsample⟩ | ⟨v, hreusable, hsample⟩ | ⟨-, -, hsample⟩ :=
    sample_cases (fileAfter before) c
  · have hown : c.measured (fileAfter before) = some (min busy c.cores) := by
      rw [Call.measured, hbusy]
      rfl
    obtain ⟨hpos, hle⟩ := hmeasured List.prefix_rfl hown
    obtain ⟨hyields, hbelow⟩ := discount_mem hpos
    rw [sampleOf, hsample]
    exact ⟨_, _, rfl, rfl, hyields, hbelow, hle⟩
  · have hreused : (sampleOf before c).reused = true := by rw [sampleOf, hsample]
    obtain ⟨first, m, measured, hfrom, -, hbusy, hpreemptible, hcores, -⟩ :=
      repeats_of_reused hreused
    have hinside : first ++ [m] <+: before ++ [c] :=
      hfrom.isPrefix.trans (List.prefix_append _ _)
    obtain ⟨-, -, -, hsome, -⟩ := hfrom
    obtain ⟨hpos, hle⟩ := hmeasured hinside hsome
    obtain ⟨hyields, hbelow⟩ := @discount_mem c (m.procWindow (fileAfter first)) measured hpos
    refine ⟨measured, m.cores, hbusy, hcores, ?_, ?_, hle⟩
    · rwa [hpreemptible]
    · rwa [hpreemptible]
  · rw [sampleOf, hsample] at hstale
    cases hstale

theorem idleWithin_of_within {before : List Call} {c : Call}
    (h : (sampleOf before c).stale = false → Within (sampleOf before c)) :
    IdleWithin (fileAfter before) c := by
  refine idleWithin_iff.2 fun busy hbusy => ?_
  obtain ⟨busy', hbusy', hsample⟩ | ⟨v, hreusable, -⟩ | ⟨hnone, -⟩ :=
    sample_cases (fileAfter before) c
  · obtain rfl : busy' = busy := Option.some.inj (hbusy'.symm.trans hbusy)
    rw [sampleOf, hsample] at h
    obtain ⟨host, cores, hhost, -, hpos, hle, -⟩ := h rfl
    obtain rfl := Option.some.inj hhost
    exact (hpos.trans hle).trans (min_le_left _ _)
  · cases (reusable_eq_some hreusable).1.symm.trans (not_unchanged_of_busy hbusy)
  · rw [hbusy] at hnone
    cases hnone

/-- **In every run, the figures of the samples that are not stale are in order just where the idle
shares are within in each call; and a sample that is reused repeats what was measured.** -/
theorem sampleHostCpu_spec (calls : List Call) :
    ((∀ before c, before ++ [c] <+: calls → (sampleOf before c).stale = false →
        Within (sampleOf before c)) ↔
      ∀ before c, before ++ [c] <+: calls → IdleWithin (fileAfter before) c) ∧
    ∀ before c, before ++ [c] <+: calls → (sampleOf before c).reused = true →
      Repeats before c := by
  refine ⟨⟨fun h before c hprefix => idleWithin_of_within (h before c hprefix), ?_⟩,
    fun before c _ => repeats_of_reused⟩
  intro h before c hprefix hstale
  exact within_of_idleWithin (fun first m hfirst => h first m (hfirst.trans hprefix)) hstale

/-- A call on one core, with its user and its idle time. -/
def oneCore (now : ℤ) (user idle : ℚ) : Call where
  now := now
  cpus :=
    [some { user := some user, nice := some 0, sys := some 0, idle := some idle, irq := some 0 }]
  reuseWindowMs := 5000

/-- A reading without a move in between is reused. -/
theorem sampleHostCpu_spec_reused :
    Repeats [oneCore 0 100 0, oneCore 1000 105 5] (oneCore 1001 105 5) :=
  (sampleHostCpu_spec [oneCore 0 100 0, oneCore 1000 105 5, oneCore 1001 105 5]).2 _ _
    List.prefix_rfl (by decide +kernel)

/-- **Minus four cores are busy**, where the user time has gone back and the idle time on. -/
theorem busy_negative :
    (sampleOf [oneCore 0 100 0] (oneCore 1000 60 50)).stale = false ∧
      (sampleOf [oneCore 0 100 0] (oneCore 1000 60 50)).hostBusyCores = some (-4) ∧
      ¬Within (sampleOf [oneCore 0 100 0] (oneCore 1000 60 50)) := by
  have hbusy : (sampleOf [oneCore 0 100 0] (oneCore 1000 60 50)).hostBusyCores = some (-4) := by
    decide +kernel
  refine ⟨by decide +kernel, hbusy, ?_⟩
  rintro ⟨host, cores, hhost, -, hpos, hle, -⟩
  obtain rfl := Option.some.inj (hbusy.symm.trans hhost)
  exact absurd (hpos.trans hle) (by norm_num)

end HostCpu
end Scheduler
end LaneBroker
