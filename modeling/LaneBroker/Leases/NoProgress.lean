/-
# A run that makes no progress

`NoProgressWatchdog` of `no-progress.js`: each observation of a lease's tree is compared with
the one before, and a streak begins anew where the command wrote something, a process joined
or left, the tree used CPU, or anything could not be read.  The streak is one number, kept
beside a baseline that is dropped and taken again; what stands behind it is a stretch of the
run (`Streak`), which each step carries on (`carried_next`).  So whenever the watchdog kills,
there was such a stretch as long as the timeout (`idle_of_shouldKill`).
-/

import LaneBroker.Basis.OrderedMap
import Mathlib.Algebra.BigOperators.Group.List.Lemmas
import Mathlib.Algebra.Order.BigOperators.Group.List
import Mathlib.Algebra.Order.Field.Rat
import Mathlib.Data.List.Perm.Subperm
import Mathlib.Order.WithBot
import Mathlib.Tactic.Linarith
import Mathlib.Tactic.Ring

namespace LaneBroker
namespace Leases
namespace NoProgress

open LaneBroker.Basis

/-! ### The source -/

/-- `NO_PROGRESS_CPU_SECONDS_PER_MINUTE`. -/
def NO_PROGRESS_CPU_SECONDS_PER_MINUTE : ℚ := 5 / 100

/-- **A row of the process table**, as far as it is read. -/
structure ProcRow where
  pid : ℤ
  /-- When the process was started. -/
  token : String
  cpuSec : ℚ
  childCpuSec : Option ℚ := none

/-- `identity`: no pid has a colon in it. -/
abbrev Identity := ℤ × String

def identity (row : ProcRow) : Identity := (row.pid, row.token)

def cpuOf (row : ProcRow) : ℚ := row.cpuSec + row.childCpuSec.getD 0

/-- The CPU seconds of each process. -/
abbrev Snapshot := OrderedMap Identity ℚ

/-- **An observation**, as it is kept for the next. -/
structure Baseline where
  at_ : ℚ
  outputBytes : ℕ
  cpu : Snapshot

/-- The loop of `intervalCores`: what was used since, none where a process is new. -/
def deltaSince (before : Snapshot) : List (Identity × ℚ) → Option ℚ
  | [] => some 0
  | (key, cpu) :: rest => do
    let b ← before.get key
    let delta ← deltaSince before rest
    return max 0 (cpu - b) + delta

/-- **`intervalCores`**; `⊤` is `Infinity`. -/
def intervalCores (previous : Baseline) (current : Snapshot) (now : ℚ) : Option (WithTop ℚ) :=
  let seconds := (now - previous.at_) / 1000
  if previous.cpu.entries.length ≠ current.entries.length then none
  else
    (deltaSince previous.cpu current.entries).map fun delta =>
      if 0 < seconds then ↑(delta / seconds) else if 0 < delta then ⊤ else 0

/-- **`NoProgressWatchdog`.** -/
structure Watchdog where
  timeoutMs : ℚ
  silenceTimeoutMs : ℚ := 0
  outputBytes : ℕ := 0
  baseline : Option Baseline := none
  idleSince : Option ℚ := none
  maxIdleMs : ℚ := 0
  lastOutputMono : Option ℚ := none
  lastOutputAt : Option ℚ := none
  lastIntervalCores : Option (WithTop ℚ) := none

namespace Watchdog

/-- `killEnabled`. -/
def killEnabled (w : Watchdog) : Bool := 0 < w.timeoutMs

/-- **`noteOutput`**, with what both clocks read. -/
def noteOutput (w : Watchdog) (clock wall : ℚ) (byteCount : ℕ) : Watchdog :=
  { w with
    outputBytes := w.outputBytes + byteCount
    lastOutputAt := some wall
    lastOutputMono := some clock }

/-- `start`. -/
def start (w : Watchdog) (clock : ℚ) : Watchdog :=
  { w with lastOutputMono := some (w.lastOutputMono.getD clock) }

/-- The loop of `#snapshot`, with what it has so far. -/
def snapshotFrom (rows : List ProcRow) : Snapshot → List ℤ → Option Snapshot
  | cpu, [] => some cpu
  | cpu, pid :: pids =>
    match (rows.filter fun r => r.pid = pid).getLast? with
    | none => none
    | some row => snapshotFrom rows (cpu.set (identity row) (cpuOf row)) pids

/-- **`#snapshot`**, of a tree that may not be known and a table that may not be readable. -/
def snapshot (treePids : Option (List ℤ)) (rows : Option (List ProcRow)) : Option Snapshot :=
  match treePids, rows with
  | some treePids, some rows => snapshotFrom rows .empty treePids
  | _, _ => none

/-- `#idleBetween`. -/
def idleBetween (w : Watchdog) (previous : Baseline) (current : Snapshot) (now : ℚ) : Bool :=
  previous.outputBytes = w.outputBytes &&
    match intervalCores previous current now with
    | none => false
    | some cores => cores ≤ ((NO_PROGRESS_CPU_SECONDS_PER_MINUTE / 60 : ℚ) : WithTop ℚ)

/-- **`observe`**, and the streak that it returns. -/
def observe (w : Watchdog) (now : ℚ) (treePids : Option (List ℤ)) (rows : Option (List ProcRow)) :
    Watchdog × ℚ :=
  let current := snapshot treePids rows
  let w' : Watchdog :=
    { w with
      baseline := current.map fun cpu => ⟨now, w.outputBytes, cpu⟩
      lastIntervalCores :=
        match current, w.baseline with
        | some current, some previous => intervalCores previous current now
        | _, _ => none }
  match current, w.baseline with
  | some current, some previous =>
    if w.idleBetween previous current now then
      let idleMs := now - w.idleSince.getD 0
      ({ w' with maxIdleMs := max w.maxIdleMs idleMs }, idleMs)
    else ({ w' with idleSince := some now }, 0)
  | _, _ => ({ w' with idleSince := some now }, 0)

/-- **`shouldKill`.** -/
def shouldKill (w : Watchdog) (idleMs : ℚ) : Bool := w.killEnabled && w.timeoutMs ≤ idleMs

end Watchdog

/-! ### Runs -/

/-- **What is called on a watchdog.** -/
inductive Call
  | noteOutput (wall : ℚ) (byteCount : ℕ)
  | start
  | observe (treePids : Option (List ℤ)) (rows : Option (List ProcRow))

/-- A call with what the clock reads at it. -/
abbrev Timed := ℚ × Call

def next (w : Watchdog) : Timed → Watchdog
  | (clock, .noteOutput wall byteCount) => w.noteOutput clock wall byteCount
  | (clock, .start) => w.start clock
  | (clock, .observe treePids rows) => (w.observe clock treePids rows).1

/-- The watchdog after a run. -/
def after (w : Watchdog) (run : List Timed) : Watchdog := run.foldl next w

/-- The clock does not go back. -/
def Monotonic (run : List Timed) : Prop := (run.map Prod.fst).Pairwise (· ≤ ·)

/-- What a call is known to have written. -/
def bytesOf : Timed → ℕ
  | (_, .noteOutput _ byteCount) => byteCount
  | _ => 0

/-- What an observation has seen; none for another call, and where it could not be read. -/
def seen : Timed → Option (ℚ × Snapshot)
  | (clock, .observe treePids rows) => (Watchdog.snapshot treePids rows).map (clock, ·)
  | _ => none

/-! ### A stretch without progress -/

/-- What is known of a process. -/
def cpuAt (s : Snapshot) (key : Identity) : ℚ := (s.get key).getD 0

/-- **The CPU seconds that a tree has used** from one observation to another. -/
def usedBetween (s s' : Snapshot) : ℚ :=
  ((s'.entries.map Prod.fst).map fun key => max 0 (cpuAt s' key - cpuAt s key)).sum

/-- **No progress between two observations**: they have seen the same processes, and these have used
no more than the limit for the time. -/
structure Idle (a b : ℚ × Snapshot) : Prop where
  sameTree : (a.2.entries.map Prod.fst).Perm (b.2.entries.map Prod.fst)
  slow : usedBetween a.2 b.2 ≤ NO_PROGRESS_CPU_SECONDS_PER_MINUTE / 60 * ((b.1 - a.1) / 1000)

/-- **A stretch without progress**: it begins and ends with an observation, nothing was written in
it, each observation could be read, and there was no progress between any two of them. -/
structure Streak (stretch : List Timed) (since : ℚ) (last : ℚ × Snapshot) : Prop where
  begins : ∃ treePids rows rest, stretch = (since, .observe treePids rows) :: rest
  silent : ∀ call ∈ stretch, bytesOf call = 0
  readable : ∀ clock treePids rows, (clock, .observe treePids rows) ∈ stretch →
    (Watchdog.snapshot treePids rows).isSome
  ends : (stretch.filterMap seen).getLast? = some last
  idle : (stretch.filterMap seen).Pairwise Idle

/-! ### What was used -/

theorem cpuAt_of_mem {s : Snapshot} {key : Identity} {cpu : ℚ} (h : (key, cpu) ∈ s.entries) :
    cpuAt s key = cpu := by
  rw [cpuAt, OrderedMap.get_eq_some_iff.2 h, Option.getD_some]

theorem deltaSince_eq_some {before : Snapshot} {es : List (Identity × ℚ)} {delta : ℚ}
    (h : deltaSince before es = some delta) :
    es.map Prod.fst ⊆ before.entries.map Prod.fst ∧
      delta = (es.map fun e => max 0 (e.2 - cpuAt before e.1)).sum := by
  induction es generalizing delta with
  | nil =>
    obtain rfl := Option.some.inj h
    simp
  | cons e es ih =>
    obtain ⟨key, cpu⟩ := e
    obtain ⟨b, hb, hrest⟩ := Option.bind_eq_some_iff.1 h
    obtain ⟨rest, hes, heq⟩ := Option.bind_eq_some_iff.1 hrest
    obtain rfl := Option.some.inj heq
    obtain ⟨hkeys, rfl⟩ := ih hes
    have hmem := OrderedMap.get_eq_some_iff.1 hb
    rw [List.map_cons, List.map_cons, List.sum_cons, cpuAt_of_mem hmem]
    exact ⟨List.cons_subset.2 ⟨List.mem_map.2 ⟨(key, b), hmem, rfl⟩, hkeys⟩, rfl⟩

theorem usedBetween_eq (s s' : Snapshot) :
    usedBetween s s' = (s'.entries.map fun e => max 0 (e.2 - cpuAt s e.1)).sum := by
  rw [usedBetween, List.map_map]
  congr 1
  refine List.map_congr_left fun e he => ?_
  rw [Function.comp_apply, cpuAt_of_mem he]

theorem usedBetween_nonneg (s s' : Snapshot) : 0 ≤ usedBetween s s' := by
  refine List.sum_nonneg fun x hx => ?_
  obtain ⟨key, -, rfl⟩ := List.mem_map.1 hx
  exact le_max_left 0 _

/-- **An interval that the watchdog takes for idle is one without progress.** -/
theorem idle_of_intervalCores {previous : Baseline} {current : Snapshot} {now : ℚ}
    {cores : WithTop ℚ} (hclock : previous.at_ ≤ now)
    (h : intervalCores previous current now = some cores)
    (hcores : cores ≤ ((NO_PROGRESS_CPU_SECONDS_PER_MINUTE / 60 : ℚ) : WithTop ℚ)) :
    Idle (previous.at_, previous.cpu) (now, current) := by
  unfold intervalCores at h
  simp only at h
  split at h
  · cases h
  next hlen =>
  rw [not_not] at hlen
  obtain ⟨delta, hdelta, rfl⟩ := Option.map_eq_some_iff.1 h
  obtain ⟨hkeys, hused⟩ := deltaSince_eq_some hdelta
  rw [← usedBetween_eq] at hused
  have hnonneg := usedBetween_nonneg previous.cpu current
  refine ⟨?_, ?_⟩
  · have hsub := List.subperm_of_subset current.nodup hkeys
    refine (hsub.perm_of_length_le ?_).symm
    rw [List.length_map, List.length_map, hlen]
  · change usedBetween previous.cpu current ≤ _ * ((now - previous.at_) / 1000)
    rw [← hused] at hnonneg ⊢
    split at hcores
    · next hseconds =>
      exact (div_le_iff₀ hseconds).1 (WithTop.coe_le_coe.1 hcores)
    · next hseconds =>
      have hzero : (now - previous.at_) / 1000 = 0 := by linarith
      split at hcores
      · simp at hcores
      · rw [hzero, mul_zero]
        linarith

/-- **No progress to an observation, and none from it on.** -/
theorem Idle.trans {a b c : ℚ × Snapshot} (h : Idle a b) (h' : Idle b c) : Idle a c where
  sameTree := h.sameTree.trans h'.sameTree
  slow := by
    have hkeys := (h'.sameTree.map fun key => max 0 (cpuAt b.2 key - cpuAt a.2 key)).sum_eq
    have hsum : usedBetween a.2 c.2 ≤ usedBetween a.2 b.2 + usedBetween b.2 c.2 := by
      unfold usedBetween
      rw [hkeys, ← List.sum_map_add]
      refine List.sum_le_sum fun key _ => ?_
      rcases le_total (cpuAt c.2 key - cpuAt a.2 key) 0 with hle | hle
      · rw [max_eq_left hle]
        exact add_nonneg (le_max_left 0 _) (le_max_left 0 _)
      · rw [max_eq_right hle]
        have hfirst := le_max_right 0 (cpuAt b.2 key - cpuAt a.2 key)
        have hsecond := le_max_right 0 (cpuAt c.2 key - cpuAt b.2 key)
        linarith
    have hfirst := h.slow
    have hsecond := h'.slow
    calc usedBetween a.2 c.2 ≤ usedBetween a.2 b.2 + usedBetween b.2 c.2 := hsum
      _ ≤ NO_PROGRESS_CPU_SECONDS_PER_MINUTE / 60 * ((b.1 - a.1) / 1000) +
          NO_PROGRESS_CPU_SECONDS_PER_MINUTE / 60 * ((c.1 - b.1) / 1000) := by linarith
      _ = NO_PROGRESS_CPU_SECONDS_PER_MINUTE / 60 * ((c.1 - a.1) / 1000) := by ring

/-! ### The stretch behind a streak -/

/-- No observation. -/
def Unobserved (calls : List Timed) : Prop :=
  ∀ clock treePids rows, (clock, Call.observe treePids rows) ∉ calls

/-- What the calls of a run are known to have written. -/
def written (run : List Timed) : ℕ := (run.map bytesOf).sum

theorem written_append (run later : List Timed) :
    written (run ++ later) = written run + written later := by
  simp [written]

section Streaks

variable {run stretch later : List Timed} {since now : ℚ} {last : ℚ × Snapshot} {cpu : Snapshot}
  {treePids : Option (List ℤ)} {rows : Option (List ProcRow)}

theorem seen_unobserved (h : Unobserved later) : later.filterMap seen = [] := by
  rw [List.filterMap_eq_nil_iff]
  rintro ⟨clock, call⟩ hmem
  cases call with
  | observe treePids rows => exact absurd hmem (h clock treePids rows)
  | _ => rfl

/-- One observation begins a stretch. -/
theorem streak_start (hcpu : Watchdog.snapshot treePids rows = some cpu) :
    Streak [(now, .observe treePids rows)] now (now, cpu) := by
  have hseen : [(now, Call.observe treePids rows)].filterMap seen = [(now, cpu)] := by
    simp [seen, hcpu]
  exact
    { begins := ⟨treePids, rows, [], rfl⟩
      silent := by simp [bytesOf]
      readable := by
        intro clock treePids' rows' hmem
        obtain ⟨-, heq⟩ := Prod.mk.inj (List.mem_singleton.1 hmem)
        obtain ⟨rfl, rfl⟩ := Call.observe.inj heq
        rw [hcpu]
        rfl
      ends := by rw [hseen]; rfl
      idle := by
        rw [hseen]
        exact List.pairwise_singleton _ _ }

/-- **An observation without progress carries a stretch on.** -/
theorem Streak.extend (h : Streak stretch since last) (hlater : Unobserved later)
    (hwritten : written later = 0) (hcpu : Watchdog.snapshot treePids rows = some cpu)
    (hidle : Idle last (now, cpu)) :
    Streak (stretch ++ later ++ [(now, .observe treePids rows)]) since (now, cpu) := by
  have hseen : (stretch ++ later ++ [(now, Call.observe treePids rows)]).filterMap seen =
      stretch.filterMap seen ++ [(now, cpu)] := by
    rw [List.filterMap_append, List.filterMap_append, seen_unobserved hlater]
    simp [seen, hcpu]
  exact
    { begins := by
        obtain ⟨treePids', rows', rest, rfl⟩ := h.begins
        exact ⟨treePids', rows', rest ++ later ++ [(now, .observe treePids rows)], by simp⟩
      silent := by
        have hquiet := List.sum_eq_zero_iff.1 hwritten
        intro call hmem
        rw [List.mem_append, List.mem_append, List.mem_singleton] at hmem
        obtain (hmem | hmem) | rfl := hmem
        · exact h.silent call hmem
        · exact hquiet _ (List.mem_map_of_mem hmem)
        · rfl
      readable := by
        intro clock treePids' rows' hmem
        rw [List.mem_append, List.mem_append, List.mem_singleton] at hmem
        obtain (hmem | hmem) | heq := hmem
        · exact h.readable clock treePids' rows' hmem
        · exact absurd hmem (hlater clock treePids' rows')
        · obtain ⟨rfl, rfl⟩ := Call.observe.inj (Prod.mk.inj heq).2
          rw [hcpu]
          rfl
      ends := by
        rw [hseen, List.getLast?_concat]
      idle := by
        rw [hseen, List.pairwise_append]
        refine ⟨h.idle, List.pairwise_singleton _ _, fun a ha b hb => ?_⟩
        obtain rfl := List.mem_singleton.1 hb
        -- the last one seen is the one before, and from any other there was none up to it
        obtain ⟨init, hinit⟩ := List.getLast?_eq_some_iff.1 h.ends
        have hpairs := h.idle
        rw [hinit] at ha hpairs
        obtain ha | ha := List.mem_append.1 ha
        · exact ((List.pairwise_append.1 hpairs).2.2 a ha last List.mem_cons_self).trans hidle
        · obtain rfl := List.mem_singleton.1 ha
          exact hidle }

end Streaks

/-! ### Every run -/

/-- **What stands behind a watchdog**: the bytes that it has counted were written, and where it has
a baseline, that was the last observation of a stretch that began when its streak did. -/
structure Carried (run : List Timed) (w : Watchdog) : Prop where
  bytes : w.outputBytes = written run
  streak : ∀ b, w.baseline = some b → ∃ before stretch later since,
    run = before ++ stretch ++ later ∧ Streak stretch since (b.at_, b.cpu) ∧
      w.idleSince = some since ∧ b.outputBytes = written (before ++ stretch) ∧ Unobserved later

section Runs

variable {run : List Timed} {w : Watchdog} {now : ℚ} {treePids : Option (List ℤ)}
  {rows : Option (List ProcRow)}

/-- A call that is no observation leaves what stands behind the streak. -/
theorem Carried.wait (h : Carried run w) {call : Timed} {w' : Watchdog} (hcall : Unobserved [call])
    (hbytes : w'.outputBytes = w.outputBytes + bytesOf call) (hbaseline : w'.baseline = w.baseline)
    (hsince : w'.idleSince = w.idleSince) : Carried (run ++ [call]) w' where
  bytes := by rw [hbytes, h.bytes, written_append]; rfl
  streak b hb := by
    rw [hbaseline] at hb
    obtain ⟨before, stretch, later, since, rfl, hstreak, hidle, hwritten, hlater⟩ := h.streak b hb
    refine ⟨before, stretch, later ++ [call], since, by simp, hstreak, hsince.trans hidle,
      hwritten, fun clock treePids rows hmem => ?_⟩
    obtain hmem | hmem := List.mem_append.1 hmem
    · exact hlater clock treePids rows hmem
    · exact hcall clock treePids rows hmem

/-- **What an observation does**: the streak begins anew with it, or it goes on, and then there was
no progress since the baseline. -/
theorem observe_cases (hclock : ∀ b, w.baseline = some b → b.at_ ≤ now) :
    ((w.observe now treePids rows).1.idleSince = some now ∧
        (w.observe now treePids rows).2 = 0) ∨
      ∃ b cpu, w.baseline = some b ∧ Watchdog.snapshot treePids rows = some cpu ∧
        b.outputBytes = w.outputBytes ∧ Idle (b.at_, b.cpu) (now, cpu) ∧
        (w.observe now treePids rows).1.idleSince = w.idleSince ∧
        (w.observe now treePids rows).2 = now - w.idleSince.getD 0 := by
  unfold Watchdog.observe
  dsimp only
  cases hcpu : Watchdog.snapshot treePids rows with
  | none => exact .inl ⟨rfl, rfl⟩
  | some cpu =>
    cases hbaseline : w.baseline with
    | none => exact .inl ⟨rfl, rfl⟩
    | some b =>
      dsimp only
      by_cases hidle : w.idleBetween b cpu now = true
      · rw [if_pos hidle]
        have hbetween := hidle
        rw [Watchdog.idleBetween, Bool.and_eq_true, decide_eq_true_eq] at hbetween
        obtain ⟨hbytes, hcores⟩ := hbetween
        split at hcores
        · cases hcores
        · next cores hsome =>
          rw [decide_eq_true_eq] at hcores
          have hslow := idle_of_intervalCores (hclock b hbaseline) hsome hcores
          exact .inr ⟨b, cpu, rfl, rfl, hbytes, hslow, rfl, rfl⟩
      · rw [if_neg hidle]
        exact .inl ⟨rfl, rfl⟩

theorem observe_outputBytes :
    (w.observe now treePids rows).1.outputBytes = w.outputBytes := by
  unfold Watchdog.observe
  dsimp only
  split
  · split <;> rfl
  · rfl

theorem observe_baseline : (w.observe now treePids rows).1.baseline =
    (Watchdog.snapshot treePids rows).map fun cpu => ⟨now, w.outputBytes, cpu⟩ := by
  unfold Watchdog.observe
  dsimp only
  split
  · split <;> rfl
  · rfl

/-- The baseline is not from the future. -/
theorem Carried.baseline_le (h : Carried run w) {call : Timed}
    (hclock : Monotonic (run ++ [call])) :
    ∀ b, w.baseline = some b → b.at_ ≤ call.1 := by
  intro b hb
  obtain ⟨before, stretch, later, since, rfl, hstreak, -⟩ := h.streak b hb
  obtain ⟨last, hlast, hseen⟩ := List.mem_filterMap.1 (List.mem_of_getLast? hstreak.ends)
  have hat : last.1 = b.at_ := by
    obtain ⟨clock, c⟩ := last
    cases c with
    | observe treePids rows =>
      obtain ⟨cpu, -, heq⟩ := Option.map_eq_some_iff.1 hseen
      exact congrArg Prod.fst heq
    | _ => cases hseen
  rw [Monotonic, List.map_append, List.pairwise_append] at hclock
  rw [← hat]
  refine hclock.2.2 _ (List.mem_map_of_mem ?_) _ (by simp)
  simp [hlast]

/-- **Each call carries what stands behind the watchdog on.** -/
theorem carried_next (h : Carried run w) {call : Timed} (hclock : Monotonic (run ++ [call])) :
    Carried (run ++ [call]) (next w call) := by
  obtain ⟨now, call⟩ := call
  have hother : ∀ {c}, (∀ treePids rows, c ≠ Call.observe treePids rows) →
      Unobserved [(now, c)] := by
    intro c hc clock treePids rows hmem
    exact hc treePids rows (Prod.mk.inj (List.mem_singleton.1 hmem)).2.symm
  cases call with
  | noteOutput wall byteCount | start => exact h.wait (hother (by simp)) rfl rfl rfl
  | observe treePids rows =>
    have hpast := h.baseline_le hclock
    refine ⟨?_, fun b' hb' => ?_⟩
    · rw [next, observe_outputBytes, h.bytes, written_append]
      rfl
    · rw [next, observe_baseline] at hb'
      obtain ⟨cpu, hcpu, rfl⟩ := Option.map_eq_some_iff.1 hb'
      have hnone : Unobserved [] := fun _ _ _ hmem => by cases hmem
      obtain ⟨hsince, -⟩ | ⟨b, cpu', hb, hcpu', hbytes, hidle, hsince, -⟩ :=
        @observe_cases w now treePids rows hpast
      · refine ⟨run, [(now, .observe treePids rows)], [], now, by simp, streak_start hcpu, hsince,
          ?_, hnone⟩
        rw [h.bytes, written_append]
        rfl
      · obtain rfl := Option.some.inj (hcpu.symm.trans hcpu')
        obtain ⟨before, stretch, later, since, rfl, hstreak, hidleSince, hwritten, hlater⟩ :=
          h.streak b hb
        have hquiet : written later = 0 := by
          rw [h.bytes, written_append, hwritten] at hbytes
          omega
        refine ⟨before, stretch ++ later ++ [(now, .observe treePids rows)], [], since, by simp,
          hstreak.extend hlater hquiet hcpu hidle, hsince.trans hidleSince, ?_, hnone⟩
        rw [h.bytes]
        simp [written, bytesOf]

/-- **Of every run.** -/
theorem carried_after {timeoutMs silenceTimeoutMs : ℚ} (hclock : Monotonic run) :
    Carried run (after { timeoutMs, silenceTimeoutMs } run) := by
  induction run using List.reverseRecOn with
  | nil => exact ⟨rfl, fun b hb => by cases hb⟩
  | append_singleton run call ih =>
    have hrun : Monotonic run := by
      rw [Monotonic, List.map_append, List.pairwise_append] at hclock
      exact hclock.1
    rw [after, List.foldl_append]
    exact carried_next (ih hrun) hclock

/-- A run leaves the settings. -/
theorem after_timeoutMs (w : Watchdog) (run : List Timed) :
    (after w run).timeoutMs = w.timeoutMs := by
  induction run generalizing w with
  | nil => rfl
  | cons call run ih =>
    have hstep : (next w call).timeoutMs = w.timeoutMs := by
      obtain ⟨now, call⟩ := call
      cases call with
      | observe treePids rows =>
        rw [next]
        unfold Watchdog.observe
        dsimp only
        split
        · split <;> rfl
        · rfl
      | _ => rfl
    exact (ih (next w call)).trans hstep

/-- **Whenever the watchdog kills, there was no progress for its timeout**: the run ends with a
stretch that is as long. -/
theorem idle_of_shouldKill {timeoutMs silenceTimeoutMs : ℚ}
    (hclock : Monotonic (run ++ [(now, .observe treePids rows)]))
    (hkill : let observed := (after { timeoutMs, silenceTimeoutMs } run).observe now treePids rows
      observed.1.shouldKill observed.2 = true) :
    ∃ before stretch since cpu, run ++ [(now, .observe treePids rows)] = before ++ stretch ∧
      Streak stretch since (now, cpu) ∧ timeoutMs ≤ now - since := by
  set w := after { timeoutMs, silenceTimeoutMs } run with hw
  have hrun : Carried run w := by
    have hmonotonic := hclock
    rw [Monotonic, List.map_append, List.pairwise_append] at hmonotonic
    exact carried_after hmonotonic.1
  have hnext := carried_next hrun hclock
  have htimeout : (w.observe now treePids rows).1.timeoutMs = timeoutMs := by
    have hsame := after_timeoutMs w [(now, .observe treePids rows)]
    exact hsame.trans (after_timeoutMs _ run)
  simp only [Watchdog.shouldKill, Watchdog.killEnabled, Bool.and_eq_true, decide_eq_true_eq,
    htimeout] at hkill
  obtain ⟨hpos, hreached⟩ := hkill
  obtain ⟨-, hzero⟩ | ⟨b, cpu, -, hcpu, -, -, hsame, hidleMs⟩ :=
    @observe_cases w now treePids rows (hrun.baseline_le hclock)
  · rw [hzero] at hreached
    exact absurd hreached (not_le.2 hpos)
  · have hbaseline := @observe_baseline w now treePids rows
    rw [hcpu] at hbaseline
    obtain ⟨before, stretch, later, since, heq, hstreak, hsince, -, hlater⟩ :=
      hnext.streak _ hbaseline
    -- nothing stands behind the observation, which is the last call of the run
    have hlast : later = [] := by
      by_contra hne
      obtain ⟨init, last, rfl⟩ := List.eq_nil_or_concat later |>.resolve_left hne
      have htail := congrArg List.getLast? heq
      rw [List.concat_eq_append, ← List.append_assoc, List.getLast?_concat,
        List.getLast?_concat] at htail
      obtain rfl := Option.some.inj htail
      exact hlater now treePids rows (by simp)
    subst hlast
    rw [List.append_nil] at heq
    refine ⟨before, stretch, since, cpu, heq, hstreak, ?_⟩
    have hidleSince : w.idleSince = some since := hsame.symm.trans hsince
    rwa [hidleMs, hidleSince, Option.getD_some] at hreached

/-- A process that does nothing, observed twice. -/
theorem idle_of_shouldKill_twice :
    ∃ before stretch since cpu,
      [(0, Call.observe (some [7]) (some [⟨7, "a", 3, none⟩])),
        (1000, Call.observe (some [7]) (some [⟨7, "a", 3, none⟩]))] = before ++ stretch ∧
      Streak stretch since (1000, cpu) ∧ 1000 ≤ 1000 - since :=
  @idle_of_shouldKill [(0, .observe (some [7]) (some [⟨7, "a", 3, none⟩]))] 1000 (some [7])
    (some [⟨7, "a", 3, none⟩]) 1000 0 (by simp [Monotonic]) (by decide +kernel)

end Runs

end NoProgress
end Leases
end LaneBroker
