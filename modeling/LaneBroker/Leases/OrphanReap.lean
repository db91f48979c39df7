/-
# A lease whose supervisor is gone

`reapIfStale` and `stepOrphanReap` of `lease.js`.  A lease whose supervisor and process group are
dead is the only record of what left the group, so it is kept while any of that is alive; each pass
over it scans the processes, sends TERM and past a grace period KILL, and writes what it found into
the lease.  The lease is all that one pass knows of those before it: when the first was (`termAt`)
and when a KILL first went out (`killAt`).  Here the passes are kept beside the lease as they came,
and what the lease says is what they say (`Inv`, kept by every pass: `inv_next`).

So the lease is removed only for a reason that the passes give (`MayRelease`), and no KILL goes out
before a pass has seen the grace period over (`orphan_reap_waits`).
-/

import LaneBroker.Basis.Machine
import LaneBroker.Leases.Descendants

namespace LaneBroker
namespace Leases

open LaneBroker.Basis DescendantTracker

/-! ### The lease and the pass -/

inductive LeaseState
  | running
  | orphaned
  | done
  deriving DecidableEq

/-- **What the passes over a lease have left in it** (`orphanReap`). -/
structure OrphanReap where
  termAt : ℤ
  scopeStopAttempted : Bool := false
  killAt : Option ℤ := none
  signalled : ℕ := 0
  termed : List Key := []
  killed : List Key := []

/-- **A lease record.** -/
structure Lease where
  id : String
  bootId : String
  state : LeaseState
  descendants : Recorded
  orphanReap : Option OrphanReap
  cpuScopeUnit : Option String

/-- **One pass**: who makes it, when, and what it observes. -/
structure Pass where
  now : ℤ
  currentBootId : String
  supervisorAlive : Bool
  groupAlive : Bool
  /-- The process table at each attempt to read it. -/
  reads : List (Option Table)
  /-- The process that makes the pass, and its parent. -/
  self : ℤ
  parent : ℤ
  /-- Why the CPU scope could not be stopped. -/
  scopeStopFailure : Option String := none

def Pass.protectedPids (p : Pass) : List ℤ := [p.self, p.parent]

/-- `READ_ATTEMPTS`. -/
def READ_ATTEMPTS : ℕ := 3

/-- **The table**, at the first attempt that succeeds (`readRows`). -/
def readRows (reads : List (Option Table)) : Option Table := (reads.take READ_ATTEMPTS).findSome? id

/-- `ORPHAN_KILL_GIVE_UP_MS`. -/
def ORPHAN_KILL_GIVE_UP_MS : ℤ := 30000

/-- `ORPHAN_UNREADABLE_GIVE_UP_MS`. -/
def ORPHAN_UNREADABLE_GIVE_UP_MS : ℤ := 60000

inductive Signal
  | sigterm
  | sigkill
  deriving DecidableEq

inductive Action
  | kept
  | reaped
  | orphaned
  deriving DecidableEq

/-- **What a pass does.** -/
structure Outcome where
  /-- The lease record afterwards. -/
  lease : Option Lease
  action : Action
  signals : List (ℤ × Signal) := []
  /-- The CPU scope that is stopped. -/
  stopped : Option String := none
  /-- The lines for the log of the broker. -/
  log : List String := []

def Outcome.kills (o : Outcome) : Bool := o.signals.any fun s => s.2 = .sigkill

/-- What one reap comes to. -/
structure ReapResult where
  signalled : ℕ
  survivors : List ℤ
  complete : Bool

/-- `reapLogLine`. -/
def reapLogLine (id : String) (result : ReapResult) : String :=
  let signalled := result.signalled
  let survivors :=
    if result.survivors = [] then "unknown" else ",".intercalate (result.survivors.map toString)
  let base := s!"lane-broker-reap id={id} descendants-reaped={signalled}"
  if result.complete then s!"{base}\n"
  else s!"{base}\nlane-broker-reap id={id} descendants-reap-incomplete survivors={survivors}\n"

/-! ### A pass over an orphan -/

variable (grace : ℤ) (lease : Lease) (p : Pass)

/-- What the passes before have left, or what the first pass begins with. -/
def Lease.reapState : OrphanReap := lease.orphanReap.getD { termAt := p.now }

/-- The line for a CPU scope that could not be stopped (`stopLeaseCpuScope`). -/
def scopeLines (unit : Option String) : List String :=
  match unit, p.scopeStopFailure with
  | some unit, some reason =>
    let id := lease.id
    [s!"lane-broker-cpu-scope id={id} unit={unit} stop-incomplete reason={reason}" ++
      "; releasing the lease anyway\n"]
  | _, _ => []

/-- The CPU scope to be stopped: once. -/
def scopeToStop : Option String :=
  if (lease.reapState p).scopeStopAttempted then none else lease.cpuScopeUnit

/-- `trackerForLease`. -/
def trackerForLease : DescendantTracker := fromSnapshot p.protectedPids lease.descendants

/-- The table, where it can be read, and the tracker after its scan. -/
def scanned : Option (Table × DescendantTracker) :=
  (readRows p.reads).map fun t => (t, (trackerForLease lease p).scan t)

/-- The members that are alive, where the table can be read. -/
def liveNow : Option (List ℤ) := (scanned lease p).map fun s => s.2.live s.1

/-- The pass removes the lease. -/
def release (signals : List (ℤ × Signal)) (result : ReapResult) : Outcome where
  lease := none
  action := .reaped
  signals := signals
  stopped := scopeToStop lease p
  log := scopeLines lease p (scopeToStop lease p) ++
    if lease.orphanReap.isSome ∨ ¬ result.complete then [reapLogLine lease.id result] else []

/-- What a pass signals, and what it keeps of it. -/
structure Sweep where
  phaseKill : Bool
  signalled : List ℤ
  termed : List Key
  killed : List Key
  killAt : Option ℤ

def Sweep.signals (sw : Sweep) : List (ℤ × Signal) :=
  sw.signalled.map fun pid => (pid, if sw.phaseKill then .sigkill else .sigterm)

/-- The grace period is over, on a pass that is not the first and can read the table. -/
def pastGrace : Bool :=
  (readRows p.reads).isSome ∧ lease.orphanReap.isSome ∧ grace ≤ p.now - (lease.reapState p).termAt

/-- **The signals of a pass**: TERM to every live member that has not had it, and from the first
KILL or the end of the grace period on KILL likewise. -/
def sweep : Sweep :=
  let state := lease.reapState p
  let phaseKill := state.killAt.isSome || pastGrace grace lease p
  let sent := if phaseKill then state.killed else state.termed
  let done := ((scanned lease p).map fun s => s.2.signalLive s.1 sent).getD ([], sent)
  { phaseKill := phaseKill
    signalled := done.1
    termed := if phaseKill then state.termed else done.2
    killed := if phaseKill then done.2 else state.killed
    -- a member that could not be signalled must not start the clock
    killAt := state.killAt <|> if pastGrace grace lease p ∧ done.1 ≠ [] then some p.now else none }

/-- The pass keeps the lease, with what it found. -/
def hold : Outcome :=
  let state := lease.reapState p
  let sw := sweep grace lease p
  let recorded := ((scanned lease p).map fun s => s.2.recorded).getD
    (trackerForLease lease p).recorded
  { lease := some { lease with
      state := .orphaned
      descendants := recorded
      orphanReap := some
        { termAt := state.termAt
          scopeStopAttempted := lease.cpuScopeUnit.isSome
          killAt := sw.killAt
          signalled := state.signalled + sw.signalled.length
          termed := sw.termed
          killed := sw.killed } }
    action := .orphaned
    signals := sw.signals
    stopped := scopeToStop lease p
    log := scopeLines lease p (scopeToStop lease p) ++
      if sw.signalled = [] then [] else [reapLogLine lease.id ⟨sw.signalled.length, [], true⟩] }

/-- **A pass over a lease whose supervisor and group are dead.** -/
def stepOrphanReap : Outcome :=
  let state := lease.reapState p
  let live := liveNow lease p
  let sw := sweep grace lease p
  if live = some [] then release lease p [] ⟨state.signalled, [], true⟩
  else if live = none ∧ ORPHAN_UNREADABLE_GIVE_UP_MS ≤ p.now - state.termAt then
    release lease p [] ⟨state.signalled, [], false⟩
  else if state.killAt.any fun k => ORPHAN_KILL_GIVE_UP_MS ≤ p.now - k then
    release lease p [] ⟨state.signalled, live.getD [], false⟩
  else if sw.killAt = none ∧ ORPHAN_UNREADABLE_GIVE_UP_MS ≤ p.now - state.termAt then
    -- nothing could be killed, so the lease is released rather than its lane wedged
    release lease p sw.signals ⟨state.signalled + sw.signalled.length, live.getD [], false⟩
  else hold grace lease p

/-- The pass finds a lease of this boot with its supervisor and its group dead. -/
def stale : Bool := lease.bootId = p.currentBootId ∧ ¬ p.supervisorAlive ∧ ¬ p.groupAlive

/-- **One pass over one lease** (`reapIfStale`). -/
def reapIfStale : Outcome :=
  if lease.bootId ≠ p.currentBootId then { lease := none, action := .reaped }
  else if p.supervisorAlive then { lease := some lease, action := .kept }
  else if ¬ p.groupAlive then stepOrphanReap grace lease p
  else { lease := some { lease with state := .orphaned }, action := .orphaned }

/-! ### What a pass can come to -/

/-- **A KILL is possible on a pass**, as its table shows: the grace period is over, and a process of
the tree could be read and has a pid that can be signalled. -/
def KillPossible (start : ℤ) : Prop :=
  grace ≤ p.now - start ∧ ∃ t r, readRows p.reads = some t ∧
    InTree t p.protectedPids lease.descendants r ∧ 1 < r.pid ∧ r.unknown = false

/-- **No descendant is alive**, as the table shows: none of the tree is there, and what was recorded
is gone. -/
def NoneAlive : Prop := ∃ t, readRows p.reads = some t ∧
  (∀ r, ¬ InTree t p.protectedPids lease.descendants r) ∧
    ∀ e ∈ lease.descendants.entries, e.1 ∉ p.protectedPids → ¬ Alive t e.1 e.2

variable {grace lease p}

theorem InTree.tracked {t : Table} {r : Row}
    (h : InTree t p.protectedPids lease.descendants r) :
    InTree t (trackerForLease lease p).protectedPids (trackerForLease lease p).recorded r := by
  induction h with
  | recorded hr hprot hrec =>
    exact .recorded hr hprot (mem_fromSnapshot_iff.2 ⟨hrec, hprot⟩)
  | marked hr hprot hmark => exact .marked hr hprot hmark
  | child _ hr hprot hppid ih => exact .child ih hr hprot hppid

theorem noneAlive_of_live (h : liveNow lease p = some []) : NoneAlive lease p := by
  obtain ⟨⟨t, tracker⟩, hscan, hlive⟩ := Option.map_eq_some_iff.1 h
  obtain ⟨t, hread, hpair⟩ := Option.map_eq_some_iff.1 hscan
  obtain ⟨rfl, rfl⟩ := Prod.mk.inj hpair
  have hnone : ∀ pid, pid ∉ ((trackerForLease lease p).scan t).live t := by
    intro pid hpid
    rw [hlive] at hpid
    exact List.not_mem_nil hpid
  refine ⟨t, hread, fun r hr => hnone r.pid hr.tracked.live, fun e he hprot halive => ?_⟩
  exact hnone e.1 (halive.live hprot (mem_fromSnapshot_iff.2 ⟨he, hprot⟩))

theorem liveNow_eq_none (h : liveNow lease p = none) : readRows p.reads = none := by
  simpa [liveNow, scanned] using h

theorem pastGrace_iff : pastGrace grace lease p = true ↔ (readRows p.reads).isSome = true ∧
    lease.orphanReap.isSome = true ∧ grace ≤ p.now - (lease.reapState p).termAt := by
  simp [pastGrace]

/-- **What the signals of a pass are.** -/
theorem sweep_kill (h : (sweep grace lease p).phaseKill = true) :
    (lease.reapState p).killAt.isSome = true ∨
      lease.orphanReap.isSome = true ∧ grace ≤ p.now - (lease.reapState p).termAt := by
  obtain hkill | hgrace := Bool.or_eq_true_iff.1 h
  · exact .inl hkill
  · exact .inr (pastGrace_iff.1 hgrace).2

theorem sweep_signals (s : ℤ × Signal) (h : s ∈ (sweep grace lease p).signals)
    (hkill : s.2 = .sigkill) :
    (sweep grace lease p).phaseKill = true ∧ (sweep grace lease p).signalled ≠ [] := by
  obtain ⟨pid, hpid, rfl⟩ := List.mem_map.1 h
  refine ⟨?_, List.ne_nil_of_mem hpid⟩
  by_contra hterm
  simp [hterm] at hkill

theorem sweep_kills_iff : ((sweep grace lease p).signals.any fun s => s.2 = .sigkill) = true ↔
    (sweep grace lease p).phaseKill = true ∧ (sweep grace lease p).signalled ≠ [] := by
  constructor
  · intro h
    obtain ⟨s, hs, hkill⟩ := List.any_eq_true.1 h
    exact sweep_signals s hs (by simpa using hkill)
  · rintro ⟨hphase, hsome⟩
    obtain ⟨pid, hpid⟩ := List.exists_mem_of_ne_nil _ hsome
    exact List.any_eq_true.2 ⟨(pid, .sigkill), List.mem_map.2 ⟨pid, hpid, by simp [hphase]⟩, by simp⟩

/-- The clock of the KILL starts with the first pass that sends one. -/
theorem sweep_killAt : (sweep grace lease p).killAt = ((lease.reapState p).killAt <|>
    if ((sweep grace lease p).signals.any fun s => s.2 = .sigkill) = true then some p.now
    else none) := by
  match hkill : (lease.reapState p).killAt with
  | some k =>
    show ((lease.reapState p).killAt <|> _) = _
    rw [hkill]
    rfl
  | none =>
    have hphase : (sweep grace lease p).phaseKill = pastGrace grace lease p := by
      show ((lease.reapState p).killAt.isSome || pastGrace grace lease p) = _
      rw [hkill]
      rfl
    show ((lease.reapState p).killAt <|>
      if pastGrace grace lease p = true ∧ (sweep grace lease p).signalled ≠ [] then some p.now
      else none) = _
    rw [hkill]
    exact if_congr (by rw [sweep_kills_iff, hphase]) rfl rfl

/-- A pass on which a KILL is possible sends one, if none was sent before. -/
theorem sweep_of_killPossible (hfirst : lease.orphanReap.isSome = true)
    (hunsent : (lease.reapState p).killed = [])
    (h : KillPossible grace lease p (lease.reapState p).termAt) :
    (sweep grace lease p).killAt ≠ none := by
  obtain ⟨hgrace, t, r, hread, htree, hlow, hknown⟩ := h
  have hpast : pastGrace grace lease p = true :=
    pastGrace_iff.2 ⟨by rw [hread]; rfl, hfirst, hgrace⟩
  have hsignalled : r.pid ∈ (sweep grace lease p).signalled := by
    have hmem := htree.tracked.signalled hlow hknown
    simpa [sweep, hpast, hunsent, scanned, hread] using hmem
  have hkills : ((sweep grace lease p).signals.any fun s => s.2 = .sigkill) = true :=
    sweep_kills_iff.2 ⟨by simp [sweep, hpast], List.ne_nil_of_mem hsignalled⟩
  rw [sweep_killAt, if_pos hkills]
  cases (lease.reapState p).killAt <;> simp

/-- A pass adds a key for every KILL it sends. -/
theorem sweep_keys (h : (sweep grace lease p).phaseKill = true) : ∃ keys : List Key,
    (sweep grace lease p).signalled = keys.map Prod.fst ∧
      (sweep grace lease p).killed = (lease.reapState p).killed ++ keys := by
  have hphase : ((lease.reapState p).killAt.isSome || pastGrace grace lease p) = true := h
  match hread : readRows p.reads with
  | none => exact ⟨[], by simp [sweep, scanned, hread], by simp [sweep, scanned, hread, hphase]⟩
  | some t =>
    obtain ⟨keys, hkeys, -⟩ := signalLive_spec ((trackerForLease lease p).scan t) t
      (lease.reapState p).killed
    exact ⟨keys, by simp [sweep, scanned, hread, hphase, hkeys],
      by simp [sweep, scanned, hread, hphase, hkeys]⟩

/-- What is kept of the KILLs sent is nothing while none was sent. -/
theorem sweep_killed (h : (sweep grace lease p).killAt = none)
    (hunsent : (lease.reapState p).killed = []) : (sweep grace lease p).killed = [] := by
  rw [sweep_killAt] at h
  by_cases hphase : (sweep grace lease p).phaseKill = true
  · -- a pass in the phase of the KILL that sends none adds no key
    have hnone : (sweep grace lease p).signalled = [] := by
      by_contra hsome
      rw [if_pos (sweep_kills_iff.2 ⟨hphase, hsome⟩)] at h
      cases hkill : (lease.reapState p).killAt <;> simp [hkill] at h
    obtain ⟨keys, hkeys, hkilled⟩ := sweep_keys hphase
    rw [hkilled, hunsent, List.map_eq_nil_iff.1 (hkeys.symm.trans hnone)]
    rfl
  · have hkept : (sweep grace lease p).killed = (lease.reapState p).killed := by
      show ite _ _ _ = _
      exact if_neg hphase
    rw [hkept, hunsent]

/-- **What a pass over an orphan can come to.** -/
inductive Stepped (grace : ℤ) (lease : Lease) (p : Pass) (o : Outcome) : Prop
  | gone (halive : NoneAlive lease p) (hlease : o.lease = none) (hsignals : o.signals = [])
  | unreadable (hread : readRows p.reads = none)
      (hlong : ORPHAN_UNREADABLE_GIVE_UP_MS ≤ p.now - (lease.reapState p).termAt)
      (hlease : o.lease = none) (hsignals : o.signals = [])
  | unkillable (k : ℤ) (hkill : (lease.reapState p).killAt = some k)
      (hlong : ORPHAN_KILL_GIVE_UP_MS ≤ p.now - k)
      (hlease : o.lease = none) (hsignals : o.signals = [])
  | stuck (hkill : (sweep grace lease p).killAt = none)
      (hlong : ORPHAN_UNREADABLE_GIVE_UP_MS ≤ p.now - (lease.reapState p).termAt)
      (hlease : o.lease = none) (hsignals : o.signals = (sweep grace lease p).signals)
  | held (r : OrphanReap) (recorded : Recorded)
      (hlease : o.lease = some { lease with
        state := .orphaned, descendants := recorded, orphanReap := some r })
      (hterm : r.termAt = (lease.reapState p).termAt)
      (hkill : r.killAt = (sweep grace lease p).killAt)
      (hkilled : r.killed = (sweep grace lease p).killed)
      (hsignals : o.signals = (sweep grace lease p).signals)

theorem stepOrphanReap_stepped (grace : ℤ) (lease : Lease) (p : Pass) :
    Stepped grace lease p (stepOrphanReap grace lease p) := by
  unfold stepOrphanReap
  extract_lets state live sw
  split
  · next hlive => exact .gone (noneAlive_of_live hlive) rfl rfl
  split
  · next hunread => exact .unreadable (liveNow_eq_none hunread.1) hunread.2 rfl rfl
  split
  · next hany =>
    obtain ⟨k, hk, hlong⟩ := (Option.any_eq_true _ _).1 hany
    exact .unkillable k hk (by simpa using hlong) rfl rfl
  split
  · next hstuck => exact .stuck hstuck.1 hstuck.2 rfl rfl
  · exact .held _ _ rfl rfl rfl rfl rfl

/-! ### Runs -/

/-- One pass that found the lease stale. -/
structure Taken where
  lease : Lease
  pass : Pass
  signals : List (ℤ × Signal)

/-- A KILL went out on the pass. -/
def Taken.kills (e : Taken) : Bool := e.signals.any fun s => s.2 = .sigkill

/-- **The lease, and the passes that found it stale**, oldest first. -/
structure State where
  lease : Option Lease
  passes : List Taken

/-- When the first of the passes was. -/
def firstPass (passes : List Taken) : Option ℤ := passes.head?.map fun e => e.pass.now

/-- When a KILL first went out. -/
def firstKill (passes : List Taken) : Option ℤ :=
  (passes.find? Taken.kills).map fun e => e.pass.now

/-- **The passes over a lease**, until it is removed. -/
def reaping (grace : ℤ) : Machine State Pass where
  start s := s.passes = [] ∧ ∀ lease, s.lease = some lease → lease.orphanReap = none
  next s p := s.lease.map fun lease =>
    let o := reapIfStale grace lease p
    { lease := o.lease
      passes := if stale lease p then s.passes ++ [⟨lease, p, o.signals⟩] else s.passes }

/-- **What a lease says of the passes over it.** -/
structure Inv (grace : ℤ) (lease : Lease) (passes : List Taken) : Prop where
  start : lease.orphanReap.map OrphanReap.termAt = firstPass passes
  kill : lease.orphanReap.bind OrphanReap.killAt = firstKill passes
  /-- A KILL went out behind the grace period. -/
  late : ∀ r ∈ lease.orphanReap, ∀ k ∈ r.killAt, grace ≤ k - r.termAt
  unsent : ∀ r ∈ lease.orphanReap, r.killAt = none → r.killed = []
  /-- While none went out, none was possible behind the first pass. -/
  impossible : ∀ r ∈ lease.orphanReap, r.killAt = none →
    ∀ e ∈ passes.tail, ¬ KillPossible grace e.lease e.pass r.termAt

theorem firstPass_append {passes : List Taken} (h : passes ≠ []) (e : Taken) :
    firstPass (passes ++ [e]) = firstPass passes := by
  rw [firstPass, firstPass, List.head?_append_of_ne_nil _ h]

theorem firstKill_append (passes : List Taken) (e : Taken) :
    firstKill (passes ++ [e]) = (firstKill passes <|>
      if e.kills = true then some e.pass.now else none) := by
  rw [firstKill, List.find?_append]
  match hfind : passes.find? Taken.kills with
  | some e' => simp [firstKill, hfind]
  | none =>
    by_cases hkills : e.kills = true
    · simp [firstKill, hfind, hkills]
    · simp [firstKill, hfind, hkills]

/-- A lease that no pass has found stale. -/
theorem Inv.fresh (h : lease.orphanReap = none) : Inv grace lease [] := by
  constructor <;> simp [h, firstPass, firstKill]

/-- What is not of the passes may change. -/
theorem Inv.congr {passes : List Taken} {lease' : Lease} (h : Inv grace lease passes)
    (hsame : lease'.orphanReap = lease.orphanReap) : Inv grace lease' passes where
  start := hsame ▸ h.start
  kill := hsame ▸ h.kill
  late := hsame ▸ h.late
  unsent := hsame ▸ h.unsent
  impossible := hsame ▸ h.impossible

theorem Inv.no_passes {passes : List Taken} (h : Inv grace lease passes) :
    lease.orphanReap = none ↔ passes = [] := by
  have hstart := h.start
  constructor
  · intro hnone
    rw [hnone] at hstart
    exact List.head?_eq_none_iff.1 (Option.map_eq_none_iff.1 hstart.symm)
  · rintro rfl
    exact Option.map_eq_none_iff.1 hstart

section Held

variable {passes : List Taken} {r : OrphanReap} {recorded : Recorded} {o : Outcome}
  (hterm : r.termAt = (lease.reapState p).termAt) (hkill : r.killAt = (sweep grace lease p).killAt)
  (hkilled : r.killed = (sweep grace lease p).killed)
  (hsignals : o.signals = (sweep grace lease p).signals)

include hsignals in
theorem kills_of_sweep : (⟨lease, p, o.signals⟩ : Taken).kills =
    (sweep grace lease p).signals.any fun s => s.2 = .sigkill := by
  rw [Taken.kills, hsignals]

include hterm hkill hkilled hsignals

/-- The first pass sends no KILL. -/
theorem Inv.held_first (hstate : lease.orphanReap = none) :
    Inv grace { lease with state := .orphaned, descendants := recorded, orphanReap := some r }
      [⟨lease, p, o.signals⟩] := by
  have hfirst : lease.reapState p = { termAt := p.now } := by rw [Lease.reapState, hstate]; rfl
  have hquiet : ((sweep grace lease p).signals.any fun s => s.2 = .sigkill) ≠ true := by
    intro hany
    obtain hkill | ⟨hsome, -⟩ := sweep_kill (sweep_kills_iff.1 hany).1
    · simp [hfirst] at hkill
    · simp [hstate] at hsome
  have hnone : r.killAt = none := by rw [hkill, sweep_killAt, hfirst, if_neg hquiet]; rfl
  constructor
  · simp [firstPass, hterm, hfirst]
  · rw [← List.nil_append [_], firstKill_append, kills_of_sweep hsignals, if_neg hquiet]
    simp [hnone, firstKill]
  · intro r' hr' k hk
    obtain rfl := Option.some.inj hr'
    simp [hnone] at hk
  · intro r' hr' _
    obtain rfl := Option.some.inj hr'
    rw [hkilled]
    exact sweep_killed (hkill.symm.trans hnone) (by rw [hfirst])
  · simp

/-- A later pass goes on from what the lease says of those before. -/
theorem Inv.held_later (h : Inv grace lease passes) {r₀ : OrphanReap}
    (hstate : lease.orphanReap = some r₀) :
    Inv grace { lease with state := .orphaned, descendants := recorded, orphanReap := some r }
      (passes ++ [⟨lease, p, o.signals⟩]) := by
  have hfirst : lease.reapState p = r₀ := by rw [Lease.reapState, hstate]; rfl
  have hsome : passes ≠ [] := fun hnil => by simp [h.no_passes.2 hnil] at hstate
  have hquiet : r.killAt = none → r₀.killAt = none ∧ (sweep grace lease p).killAt = none := by
    intro hnone
    have hsweep : (sweep grace lease p).killAt = none := hkill.symm.trans hnone
    rw [sweep_killAt, hfirst] at hsweep
    exact ⟨((Option.orElse_eq_none _ _).1 hsweep).1, hkill.symm.trans hnone⟩
  rw [hfirst] at hterm
  rw [sweep_killAt, hfirst] at hkill
  constructor
  · rw [firstPass_append hsome, ← h.start, hstate]
    simp [hterm]
  · rw [firstKill_append, kills_of_sweep hsignals, ← h.kill, hstate]
    simpa using hkill
  · intro r' hr' k hk
    obtain rfl := Option.some.inj hr'
    rw [hterm]
    match hbefore : r₀.killAt with
    | some k₀ =>
      have hk₀ : k₀ = k := by simpa [hkill, hbefore] using hk
      exact hk₀ ▸ h.late r₀ hstate k₀ hbefore
    | none =>
      obtain ⟨hany, rfl⟩ : ((sweep grace lease p).signals.any fun s => s.2 = .sigkill) = true ∧
          p.now = k := by simpa [hkill, hbefore] using hk
      obtain hsent | ⟨-, hgrace⟩ := sweep_kill (sweep_kills_iff.1 hany).1
      · simp [hfirst, hbefore] at hsent
      · exact hfirst ▸ hgrace
  · intro r' hr' hnone
    obtain rfl := Option.some.inj hr'
    obtain ⟨hbefore, hkillAt⟩ := hquiet hnone
    rw [hkilled]
    exact sweep_killed hkillAt (by rw [hfirst, h.unsent r₀ hstate hbefore])
  · intro r' hr' hnone e he hposs
    obtain rfl := Option.some.inj hr'
    obtain ⟨hbefore, hkillAt⟩ := hquiet hnone
    rw [hterm] at hposs
    rw [List.tail_append_of_ne_nil hsome] at he
    obtain he | he := List.mem_append.1 he
    · exact h.impossible r₀ hstate hbefore e he hposs
    · obtain rfl := List.mem_singleton.1 he
      exact sweep_of_killPossible (by rw [hstate]; rfl)
        (by rw [hfirst, h.unsent r₀ hstate hbefore]) (by rw [hfirst]; exact hposs) hkillAt

/-- **The lease that a pass holds says of the pass what it says of those before.** -/
theorem Inv.held (h : Inv grace lease passes) :
    Inv grace { lease with state := .orphaned, descendants := recorded, orphanReap := some r }
      (passes ++ [⟨lease, p, o.signals⟩]) := by
  match hstate : lease.orphanReap with
  | none =>
    obtain rfl := h.no_passes.1 hstate
    exact Inv.held_first hterm hkill hkilled hsignals hstate
  | some r₀ => exact Inv.held_later hterm hkill hkilled hsignals h hstate

end Held

/-- **What one pass can come to.** -/
theorem reapIfStale_cases (grace : ℤ) (lease : Lease) (p : Pass) :
    (lease.bootId ≠ p.currentBootId ∧ (reapIfStale grace lease p).lease = none ∧
        (reapIfStale grace lease p).signals = []) ∨
      (stale lease p = false ∧ (reapIfStale grace lease p).signals = [] ∧
        ∃ state, (reapIfStale grace lease p).lease = some { lease with state := state }) ∨
      (stale lease p = true ∧ Stepped grace lease p (reapIfStale grace lease p)) := by
  unfold reapIfStale
  by_cases hboot : lease.bootId ≠ p.currentBootId
  · rw [if_pos hboot]
    exact .inl ⟨hboot, rfl, rfl⟩
  rw [if_neg hboot]
  by_cases hsup : p.supervisorAlive = true
  · rw [if_pos hsup]
    exact .inr (.inl ⟨by simp [stale, hsup], rfl, lease.state, rfl⟩)
  rw [if_neg hsup]
  by_cases hgroup : p.groupAlive = true
  · rw [if_neg (by simpa using hgroup)]
    exact .inr (.inl ⟨by simp [stale, hgroup], rfl, .orphaned, rfl⟩)
  · rw [if_pos (by simpa using hgroup)]
    refine .inr (.inr ⟨?_, stepOrphanReap_stepped grace lease p⟩)
    simpa [stale, hsup, hgroup] using hboot

/-- **A pass keeps the invariant** while it keeps the lease. -/
theorem inv_next {s s' : State} {lease' : Lease}
    (h : ∀ lease, s.lease = some lease → Inv grace lease s.passes)
    (hnext : (reaping grace).next s p = some s') (hlease : s'.lease = some lease') :
    Inv grace lease' s'.passes := by
  obtain ⟨lease, hbefore, rfl⟩ := Option.map_eq_some_iff.1 hnext
  have hinv := h lease hbefore
  replace hlease : (reapIfStale grace lease p).lease = some lease' := hlease
  show Inv grace lease' (if stale lease p = true then _ else _)
  obtain ⟨-, hnone, -⟩ | ⟨hstale, -, state, hkept⟩ | ⟨hstale, hstep⟩ :=
    reapIfStale_cases grace lease p
  · rw [hnone] at hlease
    cases hlease
  · obtain rfl := Option.some.inj (hkept.symm.trans hlease)
    rw [hstale, if_neg Bool.false_ne_true]
    exact hinv.congr rfl
  · rw [if_pos hstale]
    cases hstep with
    | gone _ hnone | unreadable _ _ hnone | unkillable _ _ _ hnone | stuck _ _ hnone =>
      cases hnone.symm.trans hlease
    | held r recorded hheld hterm hkill hkilled hsignals =>
      obtain rfl := Option.some.inj (hheld.symm.trans hlease)
      exact Inv.held hterm hkill hkilled hsignals hinv

theorem inv_of_reach {s : State} (h : (reaping grace).Reach (fun _ _ => True) s) :
    ∀ lease, s.lease = some lease → Inv grace lease s.passes := by
  refine h.invariant (fun s hs lease hlease => ?_)
    (fun s a s' hs _ hnext lease' hlease' => inv_next hs hnext hlease')
  obtain ⟨hnil, hfresh⟩ := hs
  exact hnil ▸ Inv.fresh (hfresh lease hlease)

/-! ### Why a lease is removed, and when a KILL goes out -/

/-- **The reasons to remove a lease** whose supervisor and group are dead, as this pass and those
before it give them. -/
inductive MayRelease (grace : ℤ) (passes : List Taken) (lease : Lease) (p : Pass) : Prop
  /-- None of the descendants is alive. -/
  | gone (halive : NoneAlive lease p)
  /-- A KILL went out half a minute ago. -/
  | killed (k : ℤ) (hkill : firstKill passes = some k) (hlong : 30000 ≤ p.now - k)
  /-- The first pass was a minute ago, and no pass could send a KILL, nor can this one. -/
  | unkillable (start : ℤ) (hstart : firstPass passes = some start)
      (hlong : 60000 ≤ p.now - start) (hnone : firstKill passes = none)
      (hpast : ∀ e ∈ passes.tail, ¬ KillPossible grace e.lease e.pass start)
      (hnow : ¬ KillPossible grace lease p start)
      (hquiet : (reapIfStale grace lease p).kills = false)
  /-- The first pass was a minute ago, and the table cannot be read. -/
  | unreadable (start : ℤ) (hstart : firstPass passes = some start)
      (hlong : 60000 ≤ p.now - start) (hread : readRows p.reads = none)

/-- Who is long behind the first pass has had one. -/
theorem Inv.started {passes : List Taken} (h : Inv grace lease passes)
    (hlong : ORPHAN_UNREADABLE_GIVE_UP_MS ≤ p.now - (lease.reapState p).termAt) :
    ∃ r, lease.orphanReap = some r ∧ lease.reapState p = r ∧
      firstPass passes = some r.termAt := by
  match hstate : lease.orphanReap with
  | none =>
    have hnow : lease.reapState p = { termAt := p.now } := by rw [Lease.reapState, hstate]; rfl
    rw [hnow] at hlong
    have hzero : (60000 : ℤ) ≤ p.now - p.now := hlong
    omega
  | some r =>
    exact ⟨r, rfl, by rw [Lease.reapState, hstate]; rfl, by rw [← h.start, hstate]; rfl⟩

theorem Inv.killAt {passes : List Taken} (h : Inv grace lease passes) {k : ℤ}
    (hk : (lease.reapState p).killAt = some k) : ∃ r, lease.orphanReap = some r ∧
      r.killAt = some k ∧ firstPass passes = some r.termAt ∧ firstKill passes = some k := by
  match hstate : lease.orphanReap with
  | none => simp [Lease.reapState, hstate] at hk
  | some r =>
    have hkill : r.killAt = some k := by simpa [Lease.reapState, hstate] using hk
    refine ⟨r, rfl, hkill, ?_, ?_⟩
    · rw [← h.start, hstate]
      rfl
    · rw [← h.kill, hstate]
      exact hkill

theorem kills_iff {o : Outcome} (h : o.signals = (sweep grace lease p).signals) :
    o.kills = (sweep grace lease p).signals.any fun s => s.2 = .sigkill := by
  rw [Outcome.kills, h]

/-- **A pass that removes an orphan has a reason.** -/
theorem Inv.mayRelease {passes : List Taken} (h : Inv grace lease passes)
    (hstep : Stepped grace lease p (reapIfStale grace lease p))
    (hremoved : (reapIfStale grace lease p).lease = none) :
    MayRelease grace passes lease p := by
  cases hstep with
  | gone halive => exact .gone halive
  | unreadable hread hlong =>
    obtain ⟨r, -, hnow, hstart⟩ := h.started hlong
    exact .unreadable r.termAt hstart (hnow ▸ hlong) hread
  | unkillable k hkill hlong =>
    obtain ⟨-, -, -, -, hfirst⟩ := h.killAt hkill
    exact .killed k hfirst hlong
  | stuck hkill hlong hlease hsignals =>
    obtain ⟨r, hstate, hnow, hstart⟩ := h.started hlong
    obtain ⟨hbefore, hquiet⟩ := (Option.orElse_eq_none _ _).1 (sweep_killAt.symm.trans hkill)
    rw [hnow] at hbefore
    have hnone : firstKill passes = none := by
      rw [← h.kill, hstate]
      exact hbefore
    refine .unkillable r.termAt hstart (hnow ▸ hlong) hnone
      (h.impossible r hstate hbefore) (fun hposs => ?_) ?_
    · -- a KILL that is possible would have been sent, and have started its clock
      exact sweep_of_killPossible (by rw [hstate]; rfl)
        (by rw [hnow, h.unsent r hstate hbefore]) (by rw [hnow]; exact hposs) hkill
    · rw [kills_iff hsignals]
      by_contra hany
      rw [if_pos (by simpa using hany)] at hquiet
      cases hquiet
  | held r recorded hlease => cases hlease.symm.trans hremoved

/-- **A pass that sends a KILL comes behind the grace period.** -/
theorem Inv.graceOver {passes : List Taken} (h : Inv grace lease passes)
    (hstep : Stepped grace lease p (reapIfStale grace lease p))
    (hkills : (reapIfStale grace lease p).kills = true) :
    ∃ start, firstPass passes = some start ∧ (grace ≤ p.now - start ∨
      ∃ e ∈ passes, e.kills = true ∧ grace ≤ e.pass.now - start) := by
  have hsweep : ((sweep grace lease p).signals.any fun s => s.2 = .sigkill) = true := by
    cases hstep with
    | gone _ _ hsignals | unreadable _ _ _ hsignals | unkillable _ _ _ _ hsignals =>
      simp [Outcome.kills, hsignals] at hkills
    | stuck _ _ _ hsignals | held _ _ _ _ _ _ hsignals => rwa [kills_iff hsignals] at hkills
  obtain hbefore | ⟨hsome, hgrace⟩ := sweep_kill (sweep_kills_iff.1 hsweep).1
  · obtain ⟨k, hk⟩ := Option.isSome_iff_exists.1 hbefore
    obtain ⟨r, hstate, hkill, hstart, hfirst⟩ := h.killAt hk
    obtain ⟨e, he, rfl⟩ := Option.map_eq_some_iff.1 hfirst
    refine ⟨r.termAt, hstart, .inr ⟨e, List.mem_of_find?_eq_some he, ?_, ?_⟩⟩
    · exact List.find?_some he
    · exact h.late r hstate _ hkill
  · obtain ⟨r, hstate⟩ := Option.isSome_iff_exists.1 hsome
    have hnow : lease.reapState p = r := by rw [Lease.reapState, hstate]; rfl
    exact ⟨r.termAt, by rw [← h.start, hstate]; rfl, .inl (hnow ▸ hgrace)⟩

/-- **Any run of passes over a lease.**  A pass of the lease's boot that removes it saw supervisor
and group dead, and has a reason.  A KILL it sends comes behind the grace period, which begins with
the first pass: by the clock of this pass, or of an earlier one that sent a KILL too, and so by the
clock of this pass where no earlier one was ahead of it. -/
theorem orphan_reap_waits {grace : ℤ} {s : State} {lease : Lease} {p : Pass}
    (h : (reaping grace).Reach (fun _ _ => True) s) (hlease : s.lease = some lease)
    (hboot : lease.bootId = p.currentBootId) :
    ((reapIfStale grace lease p).lease = none →
      p.supervisorAlive = false ∧ p.groupAlive = false ∧ MayRelease grace s.passes lease p) ∧
    ((reapIfStale grace lease p).kills = true → ∃ start, firstPass s.passes = some start ∧
      (grace ≤ p.now - start ∨
        ∃ e ∈ s.passes, e.kills = true ∧ grace ≤ e.pass.now - start) ∧
      ((∀ e ∈ s.passes, e.pass.now ≤ p.now) → grace ≤ p.now - start)) := by
  have hinv := inv_of_reach h lease hlease
  obtain ⟨hother, -⟩ | ⟨-, hsignals, state, hkept⟩ | ⟨hstale, hstep⟩ :=
    reapIfStale_cases grace lease p
  · exact absurd hboot hother
  · refine ⟨fun hremoved => ?_, fun hkills => ?_⟩
    · cases hkept.symm.trans hremoved
    · simp [Outcome.kills, hsignals] at hkills
  · obtain ⟨-, hsup, hgroup⟩ : lease.bootId = p.currentBootId ∧ p.supervisorAlive = false ∧
        p.groupAlive = false := by simpa [stale] using hstale
    refine ⟨fun hremoved => ⟨hsup, hgroup, hinv.mayRelease hstep hremoved⟩, fun hkills => ?_⟩
    obtain ⟨start, hstart, hgrace⟩ := hinv.graceOver hstep hkills
    refine ⟨start, hstart, hgrace, fun hclock => ?_⟩
    obtain hgrace | ⟨e, he, -, hgrace⟩ := hgrace
    · exact hgrace
    · have hle := hclock e he
      omega

/-- A lease with one process recorded. -/
def leaseOf40 : Lease where
  id := "orph-1"
  bootId := "b"
  state := .running
  descendants := ⟨[(40, some "a")], by simp⟩
  orphanReap := none
  cpuScopeUnit := none

/-- The table with that process in it. -/
def tableOf40 : Table := ⟨[{ pid := 40, ppid := 1, token := some "a" }], by simp⟩

/-- A pass that finds supervisor and group dead. -/
def passAt (now : ℤ) (table : Option Table) (parent : ℤ) : Pass where
  now := now
  currentBootId := "b"
  supervisorAlive := false
  groupAlive := false
  reads := [table, table, table]
  self := 101
  parent := parent

theorem any_passes (s : State) (ps : List Pass) :
    (reaping 10000).Along (fun _ _ => True) s ps :=
  Machine.along_of_forall (fun _ _ => trivial) ps s

/-- TERM, KILL behind the grace period, and half a minute later the lease is removed. -/
theorem orphan_reap_waits_halfMinute : ∃ s lease,
    (reaping 10000).Reach (fun _ _ => True) s ∧ s.lease = some lease ∧
      (reapIfStale 10000 lease (passAt 41000 (some tableOf40) 100)).lease = none ∧
      MayRelease 10000 s.passes lease (passAt 41000 (some tableOf40) 100) := by
  obtain ⟨s, hs, hcheck⟩ := Machine.exists_reach_of_exec (reaping 10000)
    ⟨some leaseOf40, []⟩
    [passAt 1000 (some tableOf40) 100, passAt 11000 (some tableOf40) 100]
    (fun s => s.lease.any fun l => l.bootId = "b" ∧
      (reapIfStale 10000 l (passAt 41000 (some tableOf40) 100)).lease.isNone)
    ⟨rfl, fun l hl => by cases hl; rfl⟩ (any_passes _ _)
    (by decide)
  obtain ⟨lease, hlease, hl⟩ := (Option.any_eq_true _ _).1 hcheck
  obtain ⟨hboot, hnone⟩ : lease.bootId = "b" ∧
      (reapIfStale 10000 lease (passAt 41000 (some tableOf40) 100)).lease = none := by
    simpa using hl
  exact ⟨s, lease, hs, hlease, hnone, ((orphan_reap_waits hs hlease hboot).1 hnone).2.2⟩

/-- **Not only for those reasons**: a minute behind the first pass a lease goes while the table
cannot be read, though the KILL is not half a minute old.  And a recorded process that is the parent
of the one making the pass is not looked at. -/
theorem orphan_released_behind_kill :
    (∃ s lease p, (reaping 10000).Reach (fun _ _ => True) s ∧ s.lease = some lease ∧
      lease.bootId = p.currentBootId ∧ (reapIfStale 10000 lease p).lease = none ∧
      ¬ NoneAlive lease p ∧ ∃ k, firstKill s.passes = some k ∧ p.now - k < 30000) ∧
    (∃ s lease p t, (reaping 10000).Reach (fun _ _ => True) s ∧ s.lease = some lease ∧
      lease.bootId = p.currentBootId ∧ (reapIfStale 10000 lease p).lease = none ∧
      s.passes = [] ∧ readRows p.reads = some t ∧
      ∃ e ∈ lease.descendants.entries, Alive t e.1 e.2) := by
  constructor
  · obtain ⟨s, hs, hcheck⟩ := Machine.exists_reach_of_exec (reaping 10000)
      ⟨some leaseOf40, []⟩
      [passAt 0 (some tableOf40) 100, passAt 55000 (some tableOf40) 100]
      (fun s => firstKill s.passes = some 55000 ∧ s.lease.any fun l => l.bootId = "b" ∧
        (reapIfStale 10000 l (passAt 60000 none 100)).lease.isNone)
      ⟨rfl, fun l hl => by cases hl; rfl⟩ (any_passes _ _)
      (by decide)
    obtain ⟨hkill, hany⟩ : firstKill s.passes = some 55000 ∧ (s.lease.any fun l =>
        l.bootId = "b" ∧ (reapIfStale 10000 l (passAt 60000 none 100)).lease.isNone) = true := by
      simpa using hcheck
    obtain ⟨lease, hlease, hl⟩ := (Option.any_eq_true _ _).1 hany
    obtain ⟨hboot, hnone⟩ : lease.bootId = "b" ∧
        (reapIfStale 10000 lease (passAt 60000 none 100)).lease = none := by simpa using hl
    refine ⟨s, lease, passAt 60000 none 100, hs, hlease, hboot, hnone, ?_, 55000, hkill, ?_⟩
    · rintro ⟨t, hread, -⟩
      cases hread
    · show (60000 : ℤ) - 55000 < 30000
      omega
  · refine ⟨⟨some leaseOf40, []⟩, leaseOf40, passAt 0 (some tableOf40) 40, tableOf40,
      .start ⟨rfl, fun l hl => by cases hl; rfl⟩, rfl, rfl, by decide, rfl, rfl,
      (40, some "a"), List.mem_singleton.2 rfl, ?_⟩
    exact ⟨_, List.mem_singleton.2 rfl, rfl, .inl rfl⟩


end Leases
end LaneBroker
