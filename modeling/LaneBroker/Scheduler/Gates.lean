/-
# The load gate and the CPU gate

Each gate is a record on the disk that every supervisor advances under the lock, with the sample it
has taken and the thresholds that it has loaded: `updateGateState` of `load.js`,
`updateCpuGateState` and what surrounds it in `admission.js`.  The record names the thresholds by a
fingerprint, from which they can be read off (`fingerprint_inj`), so it stands for a gate with
several rules (`Stands`), and what is known of those holds here (`gates_obey`): a closed gate opens
on the last of `openSamples` fresh samples in a row that were all judged under the thresholds in
force and were all below the one that opens.  A sample that is missing, stale or reused leaves no
trace.

The CPU gate closes at its threshold, the load gate only above (`load_at_close`).
-/

import LaneBroker.Basis.Double
import LaneBroker.Basis.Hysteresis
import LaneBroker.Basis.Machine
import LaneBroker.Scheduler.Admission
import Mathlib.Data.Rat.Encodable

namespace LaneBroker
namespace Scheduler
namespace Gates

open LaneBroker.Basis LaneBroker.Basis.Hysteresis

/-! ### Settings -/

/-- **The settings of the gates**, with the defaults of `DEFAULT_GLOBAL_CONFIG`. -/
structure GateConfig extends Config where
  loadClose : ℚ := 15
  loadOpen : ℚ := 11
  loadOpenSamples : ℕ := 3
  cpuOpenSamples : ℕ := 3

/-- **The thresholds of a gate.** -/
structure Thresholds where
  close : ℚ
  opens : ℚ
  openSamples : ℕ
  deriving DecidableEq, Repr

def GateConfig.loadThresholds (cfg : GateConfig) : Thresholds where
  close := cfg.loadClose
  opens := cfg.loadOpen
  openSamples := cfg.loadOpenSamples

def GateConfig.cpuThresholds (cfg : GateConfig) : Thresholds where
  close := cfg.cpuClosePercent
  opens := cfg.cpuOpenPercent
  openSamples := cfg.cpuOpenSamples

/-- What the loader checks of the counts. -/
def GateConfig.Valid (cfg : GateConfig) : Prop := 0 < cfg.loadOpenSamples ∧ 0 < cfg.cpuOpenSamples

instance (cfg : GateConfig) : Decidable cfg.Valid := inferInstanceAs (Decidable (_ ∧ _))

/-! ### Fingerprints -/

/-- The code unit of `|`. -/
def bar : UInt16 := 0x7c

/-- **`String(x)` of a number**: different numbers have different texts, without a bar. -/
structure NumberText where
  text : ℚ → JsString
  injective : Function.Injective text
  bar_notMem : ∀ x, bar ∉ text x

/-- **`fingerprintOf`**, of numbers: every caller passes numbers, and `encodeFingerprintValue` is
then `String(value)`. -/
def fingerprintOf (N : NumberText) (values : List ℚ) : JsString :=
  [bar].intercalate (values.map N.text)

/-- The fingerprint of thresholds. -/
def Thresholds.fingerprint (N : NumberText) (c : Thresholds) : JsString :=
  fingerprintOf N [c.close, c.opens, c.openSamples]

/-- **A fingerprint says what it was made of.** -/
theorem fingerprintOf_inj {N : NumberText} {values values' : List ℚ} (hne : values ≠ [])
    (hne' : values' ≠ []) (h : fingerprintOf N values = fingerprintOf N values') :
    values = values' := by
  have hsplit : ∀ vs : List ℚ, vs ≠ [] →
      (fingerprintOf N vs).splitOn bar = vs.map N.text := by
    intro vs hvs
    refine List.splitOn_intercalate bar (fun l hl => ?_) (by simpa using hvs)
    obtain ⟨x, -, rfl⟩ := List.mem_map.1 hl
    exact N.bar_notMem x
  have hmap : values.map N.text = values'.map N.text := by rw [← hsplit _ hne, h, hsplit _ hne']
  exact List.map_injective_iff.2 N.injective hmap

theorem Thresholds.fingerprint_inj {N : NumberText} {c c' : Thresholds} :
    c.fingerprint N = c'.fingerprint N ↔ c = c' := by
  refine ⟨fun h => ?_, fun h => h ▸ rfl⟩
  have hvalues := fingerprintOf_inj (by simp) (by simp) h
  simp only [List.cons.injEq, Nat.cast_inj, and_true] at hvalues
  obtain ⟨hclose, hopens, hsamples⟩ := hvalues
  cases c
  cases c'
  simp_all

/-! ### The transition -/

/-- **The state of a gate**, as far as anything reads it. -/
structure GateState where
  closed : Bool := false
  consecutiveUnder : ℚ := 0
  fingerprint : Option JsString := none
  deriving DecidableEq

/-- **The transition of either gate**, with what the comparisons say of the sample. -/
def updateState (N : NumberText) (c : Thresholds) (isOver under : Bool) (prev : Option GateState) :
    GateState :=
  let fingerprint := c.fingerprint N
  let state := prev.getD {}
  let state :=
    if state.fingerprint ≠ some fingerprint then
      { state with consecutiveUnder := 0, fingerprint := some fingerprint }
    else state
  if isOver then { state with closed := true, consecutiveUnder := 0 }
  else if state.closed then
    if under then
      if c.openSamples ≤ state.consecutiveUnder + 1 then
        { state with closed := false, consecutiveUnder := 0 }
      else { state with consecutiveUnder := state.consecutiveUnder + 1 }
    else { state with consecutiveUnder := 0 }
  else state

/-- **What a load sampler gives**: a number, or what a comparison of numbers also meets. -/
inductive Load
  | number (x : ℚ)
  | infinite (negative : Bool)
  | nan
  deriving DecidableEq, Repr

/-- `load > x`. -/
def Load.above (x : ℚ) : Load → Bool
  | number y => x < y
  | infinite negative => !negative
  | nan => false

/-- `load < x`. -/
def Load.below (x : ℚ) : Load → Bool
  | number y => y < x
  | infinite negative => negative
  | nan => false

/-- **`updateGateState`** of `load.js`. -/
def updateGateState (N : NumberText) (prev : Option GateState) (load : Load) (cfg : GateConfig) :
    GateState :=
  updateState N cfg.loadThresholds (load.above cfg.loadClose) (load.below cfg.loadOpen) prev

/-- **`updateCpuGateState`** of `admission.js`. -/
def updateCpuGateState (N : NumberText) (prev : Option GateState) (busyPercent : ℚ)
    (cfg : GateConfig) : GateState :=
  updateState N cfg.cpuThresholds (cfg.cpuClosePercent ≤ busyPercent)
    (busyPercent < cfg.cpuOpenPercent) prev

/-! ### The records on the disk -/

/-- **A parsed gate record**, which may be anything; a field that is not there is undefined. -/
structure RawGate where
  closed : JsVal
  consecutiveUnder : JsVal
  fingerprint : JsVal
  deriving DecidableEq

/-- What is written. -/
def GateState.raw (s : GateState) : RawGate where
  closed := .bool s.closed
  consecutiveUnder := .num s.consecutiveUnder
  fingerprint :=
    match s.fingerprint with
    | some text => .str text
    | none => .null

/-- **`sanitizeGateState`.** -/
def sanitizeGateState (raw : Option RawGate) : GateState where
  closed := raw.any fun raw => raw.closed = .bool true
  consecutiveUnder :=
    match raw.map RawGate.consecutiveUnder with
    | some (.num x) => if 0 ≤ x then x else 0
    | _ => 0
  fingerprint :=
    match raw.map RawGate.fingerprint with
    | some (.str text) => some text
    | _ => none

/-- **A sample of the CPU**; `none` for what is not a finite number. -/
structure CpuReading where
  hostBusyCores : Option ℚ
  cores : Option ℚ
  preemptibleBusyCores : ℚ := 0
  stale : Bool := false
  reused : Bool := false
  deriving DecidableEq, Repr

/-- The busy share of a sample, whatever its age. -/
def CpuReading.busyPercent (cfg : GateConfig) (r : CpuReading) : Option ℚ :=
  match r.hostBusyCores, r.cores with
  | some busy, some cores =>
    if 0 < cores then
      some (nonPreemptibleBusy
        { hostBusyCores := some busy, cores, preemptibleBusyCores := r.preemptibleBusyCores } busy
        cfg.toConfig / cores * 100)
    else none
  | _, _ => none

/-- **The busy share of a fresh sample.** -/
def freshPercent (cfg : GateConfig) (sample : Option CpuReading) : Option ℚ :=
  sample.bind fun r => if r.reused || r.stale then none else r.busyPercent cfg

/-- **`sampleAndUpdateCpuGate`**: what it returns, and the file behind it; the write may not land. -/
def sampleAndUpdateCpuGate (N : NumberText) (cfg : GateConfig) (sample : Option CpuReading)
    (lands : Bool) (file : Option RawGate) : GateState × Option RawGate :=
  let prev := sanitizeGateState file
  match sample with
  | none => (prev, file)
  | some r =>
    if r.reused then
      if (r.busyPercent cfg).any fun busyPercent => cfg.cpuClosePercent ≤ busyPercent then
        ({ prev with closed := true }, file)
      else (prev, file)
    else if r.stale then (prev, file)
    else
      match r.busyPercent cfg with
      | none => (prev, file)
      | some busyPercent =>
        let next := updateCpuGateState N (some prev) busyPercent cfg
        (next, if lands then some next.raw else file)

/-- **`sampleAndUpdateGate`**: what it returns, and the file behind it; where the write does not
land it throws, and returns nothing. -/
def sampleAndUpdateGate (N : NumberText) (cfg : GateConfig) (load : Load) (lands : Bool)
    (file : Option GateState) : Option GateState × Option GateState :=
  let next := updateGateState N file load cfg
  if lands then (some next, some next) else (none, file)

/-! ### What the records stand for -/

/-- **A record stands for a gate** whose rule is not a text but the thresholds themselves. -/
structure Stands (N : NumberText) (s : GateState) (g : Gate Thresholds) : Prop where
  closed : s.closed = g.closed
  count : ∀ c, (if s.fingerprint = some (c.fingerprint N) then s.consecutiveUnder else 0) =
    g.countFor c

section Stands

variable {N : NumberText} {s : GateState} {g : Gate Thresholds} {c : Thresholds}

/-- A record with nothing counted. -/
theorem stands_start (h : s.consecutiveUnder = 0 ∨ s.fingerprint = none) :
    Stands N s { closed := s.closed } where
  closed := rfl
  count c := by
    show (if s.fingerprint = some (c.fingerprint N) then s.consecutiveUnder else 0) = _
    rcases h with h | h
    · simp [h, Gate.countFor]
    · simp [h, Gate.countFor]

/-- What a record that was just stamped counts. -/
theorem stands_stamped {closed closed' : Bool} {n : ℕ} (h : closed = closed') :
    Stands N { closed, consecutiveUnder := n, fingerprint := some (c.fingerprint N) }
      { closed := closed', count := n, rule := some c } where
  closed := h
  count c' := by
    simp only [Option.some.injEq, Thresholds.fingerprint_inj, Gate.countFor]
    split_ifs with hsame
    · rfl
    · exact Nat.cast_zero.symm

/-- **The transition is that of the gate.** -/
theorem Stands.updateState {ρ : Type} {J : Judging Thresholds ρ} {r : ρ} (h : Stands N s g)
    (hneed : J.need c = c.openSamples) :
    Stands N (Gates.updateState N c (J.isOver c r) (J.under c r) (some s)) (g.judge J c r) := by
  obtain ⟨hclosed, hcount⟩ := h
  -- Only the counter depends on whether the stamp is this one; from there on it is `countFor`.
  have hstamped : (if s.fingerprint ≠ some (c.fingerprint N) then
      { s with consecutiveUnder := 0, fingerprint := some (c.fingerprint N) } else s) =
      { closed := g.closed, consecutiveUnder := g.countFor c,
        fingerprint := some (c.fingerprint N) : GateState } := by
    rw [← hcount c, ← hclosed]
    by_cases hstamp : s.fingerprint = some (c.fingerprint N)
    · rw [if_neg (not_not.2 hstamp), if_pos hstamp, ← hstamp]
    · rw [if_pos hstamp, if_neg hstamp]
  have hfull : (c.openSamples : ℚ) ≤ (g.countFor c : ℚ) + 1 ↔ J.need c ≤ g.countFor c + 1 := by
    rw [hneed]
    norm_cast
  unfold Gates.updateState Gate.judge
  simp only [Option.getD_some, hstamped, hfull]
  split_ifs with hover hwas
  · exact_mod_cast stands_stamped (n := 0) rfl
  · exact_mod_cast stands_stamped (n := 0) rfl
  · exact_mod_cast stands_stamped (n := g.countFor c + 1) hwas
  · exact_mod_cast stands_stamped (n := 0) hwas
  · exact stands_stamped (Bool.eq_false_of_not_eq_true hwas)

end Stands

/-- The counter is not negative. -/
theorem updateState_nonneg {N : NumberText} {c : Thresholds} {isOver under : Bool} {s : GateState}
    (h : 0 ≤ s.consecutiveUnder) : 0 ≤ (updateState N c isOver under (some s)).consecutiveUnder := by
  unfold updateState
  simp only [Option.getD_some]
  split_ifs <;> simp only [le_refl, h] <;> linarith

theorem sanitizeGateState_nonneg (raw : Option RawGate) :
    0 ≤ (sanitizeGateState raw).consecutiveUnder := by
  unfold sanitizeGateState
  split
  · split_ifs with h
    · exact h
    · exact le_refl 0
  · exact le_refl 0

/-- **What is written is read back.** -/
theorem sanitizeGateState_raw {s : GateState} (h : 0 ≤ s.consecutiveUnder) :
    sanitizeGateState (some s.raw) = s := by
  obtain ⟨closed, count, stamp⟩ := s
  cases stamp with
  | none | some text => simp [sanitizeGateState, GateState.raw, show 0 ≤ count from h]

/-! ### The runs of a gate -/

/-- **A call on a gate** by some process: the configuration it has loaded, the sample it has taken,
and whether its write lands. -/
structure Call (ξ : Type) where
  cfg : GateConfig
  sample : ξ
  lands : Bool := true

/-- **A gate of the broker**, with files `φ`, samples `ξ`, and `ρ` for what is judged of a fresh
sample. -/
structure Gatekeeper (φ ξ ρ : Type) where
  /-- What a file is read as. -/
  read : φ → GateState
  /-- What is returned, if anything is, and the file after it. -/
  update : Call ξ → φ → Option GateState × φ
  thresholds : GateConfig → Thresholds
  fresh : GateConfig → ξ → Option ρ
  judging : Judging Thresholds ρ

/-- **The load gate.** -/
def loadGate (N : NumberText) : Gatekeeper (Option GateState) Load Load where
  read file := file.getD {}
  update call file := sampleAndUpdateGate N call.cfg call.sample call.lands file
  thresholds := GateConfig.loadThresholds
  fresh _ load := some load
  judging :=
    { isOver := fun c load => load.above c.close
      under := fun c load => load.below c.opens
      need := Thresholds.openSamples }

/-- **The CPU gate.** -/
def cpuGate (N : NumberText) : Gatekeeper (Option RawGate) (Option CpuReading) ℚ where
  read := sanitizeGateState
  update call file := (sampleAndUpdateCpuGate N call.cfg call.sample call.lands file).map some id
  thresholds := GateConfig.cpuThresholds
  fresh := freshPercent
  judging :=
    { isOver := fun c busyPercent => c.close ≤ busyPercent
      under := fun c busyPercent => busyPercent < c.opens
      need := Thresholds.openSamples }

namespace Gatekeeper

variable {φ ξ ρ : Type} (K : Gatekeeper φ ξ ρ)

/-- **The state of a gate in a run**: its file, and the fresh samples that were recorded, the latest
first, each with the thresholds it was judged under. -/
structure State (φ ρ : Type) where
  file : φ
  history : List (Thresholds × ρ) := []
  deriving DecidableEq

/-- The state after a call. -/
def after (s : State φ ρ) (call : Call ξ) : State φ ρ where
  file := (K.update call s.file).2
  history :=
    match K.fresh call.cfg call.sample with
    | some r => if call.lands then (K.thresholds call.cfg, r) :: s.history else s.history
    | none => s.history

/-- **The runs of a gate**, from any file in which nothing is counted yet; the calls come one after
another, since each is made under the lock. -/
def machine : Machine (State φ ρ) (Call ξ) where
  start s := s.history = [] ∧
    ((K.read s.file).consecutiveUnder = 0 ∨ (K.read s.file).fingerprint = none)
  next s call := some (K.after s call)

/-- **The last samples were judged under the same thresholds, and all of them were under.** -/
def LastUnder (c : Thresholds) (history : List (Thresholds × ρ)) : Prop :=
  c.openSamples ≤ history.length ∧ ∀ e ∈ history.take c.openSamples,
    e.1 = c ∧ K.judging.under c e.2 = true ∧ K.judging.isOver c e.2 = false

/-- **What a gate does on a call.** -/
structure Obeys (s : State φ ρ) (call : Call ξ) : Prop where
  /-- A fresh sample that is over closes it. -/
  closes : ∀ r next, K.fresh call.cfg call.sample = some r →
    K.judging.isOver (K.thresholds call.cfg) r = true →
    (K.update call s.file).1 = some next → next.closed = true
  /-- A closed gate opens on the last of enough samples, and on no other. -/
  opens : ∀ next, (K.read s.file).closed = true → (K.update call s.file).1 = some next →
    (next.closed = false ↔ ∃ r, K.fresh call.cfg call.sample = some r ∧
      K.LastUnder (K.thresholds call.cfg) ((K.thresholds call.cfg, r) :: s.history))
  /-- What comes of a fresh sample is what the next call finds, if the write lands. -/
  recorded : ∀ r next, K.fresh call.cfg call.sample = some r → call.lands = true →
    (K.update call s.file).1 = some next → K.read (K.after s call).file = next
  /-- What is not a fresh sample leaves no trace. -/
  passes : K.fresh call.cfg call.sample = none → K.after s call = s

/-- **What a call on a gate is**: a fresh sample is judged, and what is not one changes nothing. -/
structure Judges (N : NumberText) : Prop where
  need : K.judging.need = Thresholds.openSamples
  judged : ∀ (call : Call ξ) file r, K.fresh call.cfg call.sample = some r →
    ∃ next, next = updateState N (K.thresholds call.cfg)
        (K.judging.isOver (K.thresholds call.cfg) r) (K.judging.under (K.thresholds call.cfg) r)
        (some (K.read file)) ∧
      (∀ state, (K.update call file).1 = some state → state = next) ∧
      (call.lands = true → K.read (K.update call file).2 = next) ∧
      (call.lands = false → (K.update call file).2 = file)
  passed : ∀ (call : Call ξ) file, K.fresh call.cfg call.sample = none →
    (K.update call file).2 = file ∧ ∀ state, (K.update call file).1 = some state →
      (K.read file).closed = true → state.closed = true

variable {K} {N : NumberText} {s : State φ ρ} {call : Call ξ}

/-- **The record stands for a gate that counts the history.** -/
def Standing (K : Gatekeeper φ ξ ρ) (N : NumberText) (s : State φ ρ) : Prop :=
  ∃ g, Stands N (K.read s.file) g ∧ Counts K.judging s.history g

/-- One call keeps the record right. -/
theorem Standing.after (hK : K.Judges N) (h : K.Standing N s) : K.Standing N (K.after s call) := by
  obtain ⟨g, hstands, hcounts⟩ := h
  cases hfresh : K.fresh call.cfg call.sample with
  | none =>
    have hfile : (K.update call s.file).2 = s.file := (hK.passed call s.file hfresh).1
    refine ⟨g, ?_, ?_⟩
    · show Stands N (K.read (K.update call s.file).2) g
      rw [hfile]
      exact hstands
    · unfold Gatekeeper.after
      simp only [hfresh]
      exact hcounts
  | some r =>
    obtain ⟨next, hnext, -, hlands, hfails⟩ := hK.judged call s.file r hfresh
    cases hland : call.lands with
    | false =>
      refine ⟨g, ?_, ?_⟩
      · show Stands N (K.read (K.update call s.file).2) g
        rw [hfails hland]
        exact hstands
      · unfold Gatekeeper.after
        simp only [hfresh, hland, Bool.false_eq_true, if_false]
        exact hcounts
    | true =>
      refine ⟨g.judge K.judging (K.thresholds call.cfg) r, ?_, ?_⟩
      · show Stands N (K.read (K.update call s.file).2) _
        rw [hlands hland, hnext]
        exact hstands.updateState (congrFun hK.need _)
      · unfold Gatekeeper.after
        simp only [hfresh, hland, if_true]
        exact hcounts.judge

/-- **In every run, the record stands for a gate that counts the history.** -/
theorem standing (hK : K.Judges N) {ok : State φ ρ → Call ξ → Prop} (h : K.machine.Reach ok s) :
    K.Standing N s := by
  refine h.invariant (P := K.Standing N) ?_ ?_
  · rintro s ⟨hhistory, hcount⟩
    refine ⟨_, stands_start hcount, ?_⟩
    rw [hhistory]
    exact counts_nil (.inr rfl)
  · rintro s call s' hs - hnext
    obtain rfl : K.after s call = s' := Option.some.inj hnext
    exact hs.after hK

/-- A streak is what the last samples are. -/
theorem lastUnder_iff (hK : K.Judges N) {c : Thresholds} {history : List (Thresholds × ρ)} :
    K.LastUnder c history ↔ K.judging.need c ≤ K.judging.streak c history := by
  have hcounts : ∀ e : Thresholds × ρ, K.judging.counts c e = true ↔
      e.1 = c ∧ K.judging.under c e.2 = true ∧ K.judging.isOver c e.2 = false := by
    intro e
    simp [Judging.counts, and_assoc]
  unfold LastUnder
  simp only [le_streak_iff, hcounts, hK.need]

/-- **A gate obeys where its record is right.** -/
theorem Standing.obeys (hK : K.Judges N) (h : K.Standing N s)
    (hneed : 0 < (K.thresholds call.cfg).openSamples) : K.Obeys s call := by
  obtain ⟨g, hstands, hcounts⟩ := h
  have hjudged : ∀ r next, K.fresh call.cfg call.sample = some r →
      (K.update call s.file).1 = some next →
      next.closed = (g.judge K.judging (K.thresholds call.cfg) r).closed := by
    intro r next hfresh hupdate
    obtain ⟨_, rfl, hreturned, -⟩ := hK.judged call s.file r hfresh
    rw [hreturned next hupdate]
    exact (hstands.updateState (congrFun hK.need _)).closed
  constructor
  · intro r next hfresh hover hupdate
    rw [hjudged r next hfresh hupdate]
    exact closed_of_over hover
  · intro next hclosed hupdate
    cases hfresh : K.fresh call.cfg call.sample with
    | none =>
      have hstill := (hK.passed call s.file hfresh).2 next hupdate hclosed
      simp [hstill]
    | some r =>
      have hneed' : 0 < K.judging.need (K.thresholds call.cfg) := by rwa [hK.need]
      have hwas : g.closed = true := by rw [← hstands.closed, hclosed]
      rw [hjudged r next hfresh hupdate, hcounts.opens_iff hwas hneed']
      simp only [Option.some.injEq, exists_eq_left', lastUnder_iff hK]
      obtain ⟨-, hlt⟩ := hcounts hwas _ hneed'
      rw [streak_cons]
      split_ifs <;> omega
  · intro r next hfresh hlands hupdate
    obtain ⟨_, -, hreturned, hread, -⟩ := hK.judged call s.file r hfresh
    rw [hreturned next hupdate]
    exact hread hlands
  · intro hfresh
    have hfile : (K.update call s.file).2 = s.file := (hK.passed call s.file hfresh).1
    unfold Gatekeeper.after
    rw [hfile, hfresh]

end Gatekeeper

/-- Every load is a fresh sample. -/
theorem loadGate_judges (N : NumberText) : (loadGate N).Judges N where
  need := rfl
  judged call file r hfresh := by
    obtain rfl : call.sample = r := Option.some.inj hfresh
    refine ⟨_, rfl, ?_, ?_, ?_⟩
    · intro state hstate
      simp only [loadGate, sampleAndUpdateGate] at hstate
      split_ifs at hstate
      exact (Option.some.inj hstate).symm
    · intro hlands
      simp only [loadGate, sampleAndUpdateGate, hlands, if_true, Option.getD_some]
      rfl
    · intro hfails
      simp only [loadGate, sampleAndUpdateGate, hfails, Bool.false_eq_true, if_false]
  passed _ _ hfresh := by cases hfresh

/-- **Only a new measurement of the CPU is a fresh sample.** -/
theorem cpuGate_judges (N : NumberText) : (cpuGate N).Judges N where
  need := rfl
  judged call file r hfresh := by
    obtain ⟨reading, hsample, hreading⟩ := Option.bind_eq_some_iff.1 hfresh
    split_ifs at hreading with hold
    obtain ⟨hreused, hstale⟩ : reading.reused = false ∧ reading.stale = false := by simpa using hold
    refine ⟨_, rfl, ?_, ?_, ?_⟩
    · intro state hstate
      simp only [cpuGate, sampleAndUpdateCpuGate, hsample, hreused, hstale, hreading,
        Bool.false_eq_true, if_false, Prod.map_fst, Option.some.injEq] at hstate
      exact hstate.symm
    · intro hlands
      simp only [cpuGate, sampleAndUpdateCpuGate, hsample, hreused, hstale, hreading, hlands,
        Bool.false_eq_true, if_false, if_true, Prod.map_snd, id]
      exact sanitizeGateState_raw (updateState_nonneg (sanitizeGateState_nonneg file))
    · intro hfails
      simp only [cpuGate, sampleAndUpdateCpuGate, hsample, hreused, hstale, hreading, hfails,
        Bool.false_eq_true, if_false, Prod.map_snd, id]
  passed call file hfresh := by
    have hkept : ∀ prev : GateState, ∀ state, some prev = some state → prev.closed = true →
        state.closed = true := fun prev state hstate hclosed => Option.some.inj hstate ▸ hclosed
    simp only [cpuGate, sampleAndUpdateCpuGate]
    cases hsample : call.sample with
    | none => exact ⟨rfl, hkept _⟩
    | some reading =>
      cases hreused : reading.reused with
      | true =>
        simp only [hreused, if_true]
        split_ifs with hover
        · exact ⟨rfl, fun state hstate _ => Option.some.inj hstate ▸ rfl⟩
        · exact ⟨rfl, hkept _⟩
      | false =>
        cases hstale : reading.stale with
        | true =>
          simp only [hreused, hstale, Bool.false_eq_true, if_false, if_true]
          exact ⟨rfl, hkept _⟩
        | false =>
          have hbusy : reading.busyPercent call.cfg = none := by
            simpa [cpuGate, freshPercent, hsample, hreused, hstale] using hfresh
          simp only [hreused, hstale, hbusy, Bool.false_eq_true, if_false]
          exact ⟨rfl, hkept _⟩

section Main

variable {N : NumberText}

/-- **Both gates obey, in every run**: whoever calls, in whatever order, with whatever thresholds
they have loaded. -/
theorem gates_obey {s : Gatekeeper.State (Option GateState) Load}
    {t : Gatekeeper.State (Option RawGate) ℚ} (load : Call Load) (cpu : Call (Option CpuReading))
    (hs : (loadGate N).machine.Reach (fun _ call => call.cfg.Valid) s)
    (ht : (cpuGate N).machine.Reach (fun _ call => call.cfg.Valid) t)
    (hload : load.cfg.Valid) (hcpu : cpu.cfg.Valid) :
    (loadGate N).Obeys s load ∧ (cpuGate N).Obeys t cpu :=
  ⟨(Gatekeeper.standing (loadGate_judges N) hs).obeys (loadGate_judges N) hload.1,
    (Gatekeeper.standing (cpuGate_judges N) ht).obeys (cpuGate_judges N) hcpu.2⟩

/-- **The texts of numbers**: `Number::toString`, and for what is no double some text of its own. -/
def numberText : NumberText where
  text x :=
    if h : toDouble |x| = |x| ∧ |x| < 2 ^ 1024 then Double.text ⟨x, h.1, h.2⟩
    else 0x71 :: JsonText.decimalText (Encodable.encode x)
  injective := by
    -- no number has the letter in front
    have hletter : ∀ (x : Double) (s : JsString), Double.text x ≠ 0x71 :: s := by
      intro x s h
      have hmem : (0x71 : UInt16) ∈ Double.text x := by simp [h]
      exact absurd (Double.mem_text hmem) (by decide)
    intro x y h
    simp only at h
    split_ifs at h
    · exact congrArg Double.value (Double.text_injective h)
    · exact absurd h (hletter _ _)
    · exact absurd h.symm (hletter _ _)
    · have hcode := @JsonText.decimalText_inj (Encodable.encode x) (Encodable.encode y) 0x2c [] []
        (.inl (by decide)) (by rw [(List.cons.inj h).2])
      exact Encodable.encode_injective hcode.1
  bar_notMem x := by
    split_ifs
    · exact fun hbar => absurd (Double.mem_text hbar) (by decide)
    · rintro (_ | ⟨_, hbar⟩)
      exact JsonText.not_mem_decimalText (.inr (by decide)) hbar

/-- A load gate that has closed and has then seen two quiet samples. -/
def quietLoad : Gatekeeper.State (Option GateState) Load :=
  [.number 16, .number 10, .number 10].foldl
    (fun s load => (loadGate numberText).after s { cfg := {}, sample := load }) { file := none }

/-- A CPU gate that has closed and has then seen two quiet samples. -/
def quietCpu : Gatekeeper.State (Option RawGate) ℚ :=
  [10, 1, 1].foldl (fun s busy => (cpuGate numberText).after s
    { cfg := {}, sample := some { hostBusyCores := some busy, cores := some 10 } }) { file := none }

theorem gates_obey_quiet :
    (loadGate numberText).Obeys quietLoad { cfg := {}, sample := .number 10 } ∧
      (cpuGate numberText).Obeys quietCpu
        { cfg := {}, sample := some { hostBusyCores := some 1, cores := some 10 } } :=
  gates_obey _ _
    (.step (.step (.step (.start ⟨rfl, .inl rfl⟩) (by decide) rfl) (by decide) rfl) (by decide) rfl)
    (.step (.step (.step (.start ⟨rfl, .inl rfl⟩) (by decide) rfl) (by decide) rfl) (by decide) rfl)
    (by decide) (by decide)

/-- **A load at the threshold does not close the gate.** -/
theorem load_at_close : ¬ ∀ (N : NumberText) (call : Call Load) (x : ℚ) (next : GateState),
    call.cfg.Valid → call.sample = .number x → call.cfg.loadClose ≤ x →
      ((loadGate N).update call none).1 = some next → next.closed = true := by
  intro h
  have hclosed := h numberText { cfg := {}, sample := .number 15 } 15 _ (by decide) rfl (by decide)
    rfl
  have hopen : (updateGateState numberText none (.number 15) {}).closed = false := by
    simp [updateGateState, updateState, Load.above, GateConfig.loadThresholds]
  exact absurd hclosed (by rw [hopen]; decide)

end Main

end Gates
end Scheduler
end LaneBroker
