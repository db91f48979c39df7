/-
# The usage of a scheduling parent

`decayed`, `usage_now`, `usage_cores` and `add_running`, over the real numbers: what a parent
used fades with a half-life of 30 minutes, and the cores it holds accrue until they are
settled.  Reads and settlement go by one closed form, so a settlement in between is never seen
(`settlements_unseen`): not by a read at that moment, and not by any later one.

A row that was never settled has no time to count from, but it has no usage and no cores
either.
-/

import LaneBroker.Basis.Decay
import Mathlib.Analysis.SpecialFunctions.Pow.Real

namespace LaneBroker
namespace LaneDb
namespace Usage

open LaneBroker.Basis.Decay

/-- **What is read of a row of `sched_parents`**, as the row is inserted; times are in seconds. -/
structure Parent where
  runningCpu : ℝ := 0
  usageDecayed : ℝ := 0
  usageAt : Option ℝ := none

/-- A call of `add_running` for the parent. -/
structure Call where
  delta : ℝ
  now : ℝ

section Source

variable (p : Parent) (now : ℝ)

/-- `greatest(0, extract(epoch FROM p_now - coalesce(p.usage_at, p_now))) / 1800`. -/
noncomputable def halfLives : ℝ := max 0 (now - p.usageAt.getD now) / 1800

/-- `decayed`. -/
noncomputable def decayed : ℝ := p.usageDecayed * (1 / 2 : ℝ) ^ halfLives p now

/-- **`usage_now`**: the decayed history and what the cores held since have accrued. -/
noncomputable def usageNow : ℝ :=
  decayed p now + p.runningCpu * (1800 / Real.log 2) * (1 - (1 / 2 : ℝ) ^ halfLives p now)

/-- `usage_cores`. -/
noncomputable def usageCores : ℝ := p.runningCpu + usageNow p now / 1800

/-- **`add_running`.** -/
noncomputable def addRunning (delta : ℝ) : Parent :=
  { usageDecayed := usageNow p now
    usageAt := some now
    runningCpu := max 0 (p.runningCpu + delta) }

end Source

/-- A settlement. -/
def settlement (now : ℝ) : Call := { delta := 0, now }

/-- The row after the calls. -/
noncomputable def run (p : Parent) (calls : List Call) : Parent :=
  calls.foldl (fun p call => addRunning p call.now call.delta) p

/-- **A history with settlements inserted.** -/
inductive Inserted : List Call → List Call → Prop
  | nil : Inserted [] []
  | call {calls calls' : List Call} (call : Call) :
      Inserted calls calls' → Inserted (call :: calls) (call :: calls')
  | settle {calls calls' : List Call} (now : ℝ) :
      Inserted calls calls' → Inserted calls (settlement now :: calls')

/-! ### The closed form -/

/-- Half of it is left after 30 minutes. -/
noncomputable def halving : Fading ℝ where
  factor t := (1 / 2 : ℝ) ^ (t / 1800)
  factor_zero := by simp
  factor_add s t _ _ := by rw [add_div, Real.rpow_add (by norm_num)]

/-- What the usage tends to while the cores are held. -/
noncomputable def Parent.inflow (p : Parent) : ℝ := p.runningCpu * (1800 / Real.log 2)

variable {p q : Parent} {t now : ℝ}

theorem usageNow_eq (p : Parent) (now : ℝ) :
    usageNow p now = halving.after p.usageDecayed p.inflow (max 0 (now - p.usageAt.getD now)) := by
  rfl

/-- A settled row goes on from its settlement. -/
theorem usageNow_of_settled (hat : p.usageAt = some t) (hle : t ≤ now) :
    usageNow p now = halving.after p.usageDecayed p.inflow (now - t) := by
  rw [usageNow_eq, hat, Option.getD_some, max_eq_right (by linarith)]

/-- **A read before a settlement and the value it stores are the same number.** -/
theorem usageNow_addRunning_self (p : Parent) (now delta : ℝ) :
    usageNow (addRunning p now delta) now = usageNow p now := by
  rw [usageNow_of_settled (p := addRunning p now delta) rfl le_rfl, sub_self,
    halving.after_zero]
  rfl

/-! ### Rows that are read alike -/

/-- **What is true of a row at `t`**: it was settled by then, or has nothing to settle. -/
structure Parent.SettledBy (p : Parent) (t : ℝ) : Prop where
  nonneg : 0 ≤ p.runningCpu
  settled : (∃ at', p.usageAt = some at' ∧ at' ≤ t) ∨
    p.usageAt = none ∧ p.runningCpu = 0 ∧ p.usageDecayed = 0

/-- **Rows that are read alike from `t` on.** -/
structure Alike (p q : Parent) (t : ℝ) : Prop where
  cores : p.runningCpu = q.runningCpu
  usage : ∀ now, t ≤ now → usageNow p now = usageNow q now

theorem settledBy_fresh (t : ℝ) : Parent.SettledBy {} t := ⟨le_rfl, .inr ⟨rfl, rfl, rfl⟩⟩

theorem settledBy_addRunning (p : Parent) (t delta : ℝ) : (addRunning p t delta).SettledBy t :=
  ⟨le_max_left _ _, .inl ⟨t, rfl, le_rfl⟩⟩

theorem Parent.SettledBy.mono (h : p.SettledBy t) (hle : t ≤ now) : p.SettledBy now :=
  ⟨h.nonneg, h.settled.imp_left fun ⟨at', hat, hle'⟩ => ⟨at', hat, hle'.trans hle⟩⟩

theorem Alike.mono (h : Alike p q t) (hle : t ≤ now) : Alike p q now :=
  ⟨h.cores, fun later hlater => h.usage later (hle.trans hlater)⟩

/-- **A call keeps two rows alike.** -/
theorem Alike.addRunning (h : Alike p q t) (delta : ℝ) :
    Alike (addRunning p t delta) (addRunning q t delta) t := by
  have hcores : (Usage.addRunning p t delta).runningCpu =
      (Usage.addRunning q t delta).runningCpu := by
    simp only [Usage.addRunning, h.cores]
  refine ⟨hcores, fun now hnow => ?_⟩
  rw [usageNow_of_settled (p := Usage.addRunning p t delta) rfl hnow,
    usageNow_of_settled (p := Usage.addRunning q t delta) rfl hnow, Parent.inflow, Parent.inflow,
    hcores]
  simp only [Usage.addRunning, h.usage t le_rfl]

/-- **A settlement changes nothing that is read later.** -/
theorem alike_settlement (h : p.SettledBy t) : Alike p (Usage.addRunning p t 0) t := by
  have hcores : p.runningCpu = (addRunning p t 0).runningCpu := by
    simp only [addRunning, add_zero, max_eq_right h.nonneg]
  refine ⟨hcores, fun now hnow => ?_⟩
  have hinflow : (addRunning p t 0).inflow = p.inflow := by
    rw [Parent.inflow, Parent.inflow, hcores]
  rw [usageNow_of_settled (p := addRunning p t 0) rfl hnow, hinflow]
  rcases h.settled with ⟨at', hat, hle⟩ | ⟨-, hrunning, hdecayed⟩
  · -- the two whiles, up to the settlement and from there, are the while up to the read
    calc usageNow p now = halving.after p.usageDecayed p.inflow ((t - at') + (now - t)) := by
          rw [usageNow_of_settled hat (hle.trans hnow)]
          congr 1
          ring
      _ = halving.after (halving.after p.usageDecayed p.inflow (t - at')) p.inflow (now - t) :=
          (halving.after_after _ _ _ _ (by linarith) (by linarith)).symm
      _ = halving.after (addRunning p t 0).usageDecayed p.inflow (now - t) := by
          rw [← usageNow_of_settled hat hle]
          rfl
  · -- nothing was used and nothing is held
    have hzero : p.inflow = 0 := by rw [Parent.inflow, hrunning, zero_mul]
    have hnothing : ∀ u, usageNow p u = 0 := fun u => by
      rw [usageNow_eq, hdecayed, hzero, halving.after_nothing]
    rw [hnothing now]
    simp only [addRunning, hnothing t, hzero, halving.after_nothing]

/-! ### Histories -/

/-- **Settlements are not seen**, whatever the history goes on with. -/
theorem alike_run {calls calls' : List Call} (h : Inserted calls calls') (hq : q.SettledBy t)
    (halike : Alike p q t) (hordered : (calls'.map Call.now).Pairwise (· ≤ ·))
    (hfrom : ∀ c ∈ calls', t ≤ c.now) (hlater : ∀ c ∈ calls', c.now ≤ now) (hnow : t ≤ now) :
    Alike (run p calls) (run q calls') now := by
  induction h generalizing p q t with
  | nil => exact halike.mono hnow
  | call call _ ih =>
    rw [List.map_cons, List.pairwise_cons] at hordered
    have hle := hfrom call List.mem_cons_self
    exact ih (settledBy_addRunning q call.now call.delta)
      ((halike.mono hle).addRunning call.delta) hordered.2
      (fun c hc => hordered.1 c.now (List.mem_map_of_mem hc))
      (fun c hc => hlater c (List.mem_cons_of_mem _ hc)) (hlater call List.mem_cons_self)
  | settle at' _ ih =>
    rw [List.map_cons, List.pairwise_cons] at hordered
    have hle : t ≤ at' := hfrom (settlement at') List.mem_cons_self
    have hsettled := alike_settlement (hq.mono hle)
    refine ih (settledBy_addRunning q at' 0)
      ⟨halike.cores.trans hsettled.cores, fun later hlater' => ?_⟩ hordered.2
      (fun c hc => hordered.1 c.now (List.mem_map_of_mem hc))
      (fun c hc => hlater c (List.mem_cons_of_mem _ hc)) (hlater _ List.mem_cons_self)
    exact (halike.usage later (hle.trans hlater')).trans (hsettled.usage later hlater')

/-- **No settlement is seen**: inserted anywhere in a history, settlements change no later value of
the usage, and at the moment of one the usage is what it was. -/
theorem settlements_unseen {calls calls' : List Call} (h : Inserted calls calls')
    (hordered : (calls'.map Call.now).Pairwise (· ≤ ·)) :
    (∀ now, (∀ c ∈ calls', c.now ≤ now) →
      usageNow (run {} calls') now = usageNow (run {} calls) now ∧
      usageCores (run {} calls') now = usageCores (run {} calls) now) ∧
    ∀ now, usageNow (addRunning (run {} calls) now 0) now = usageNow (run {} calls) now := by
  refine ⟨fun now hlater => ?_, fun now => usageNow_addRunning_self _ now 0⟩
  -- the first call, or else the read, is where the histories begin
  have halike : Alike (run {} calls) (run {} calls') now := by
    cases calls' with
    | nil =>
      cases h
      exact ⟨rfl, fun _ _ => rfl⟩
    | cons first rest =>
      refine alike_run h (settledBy_fresh first.now) ⟨rfl, fun _ _ => rfl⟩ hordered
        (fun c hc => ?_) hlater (hlater first List.mem_cons_self)
      rcases List.mem_cons.1 hc with rfl | hc
      · exact le_rfl
      · rw [List.map_cons, List.pairwise_cons] at hordered
        exact hordered.1 c.now (List.mem_map_of_mem hc)
  have husage := (halike.usage now le_rfl).symm
  exact ⟨husage, by rw [usageCores, usageCores, husage, halike.cores]⟩

/-- Two cores are held for an hour, with a settlement ahead of the first call and one in between. -/
theorem settlements_unseen_hour :
    usageNow (run {} [settlement 0, { delta := 2, now := 10 }, settlement 1800,
        { delta := -2, now := 3610 }]) 7200 =
      usageNow (run {} [{ delta := 2, now := 10 }, { delta := -2, now := 3610 }]) 7200 := by
  have hinserted : Inserted [{ delta := 2, now := 10 }, { delta := -2, now := 3610 }]
      [settlement 0, { delta := 2, now := 10 }, settlement 1800, { delta := -2, now := 3610 }] :=
    .settle 0 (.call _ (.settle 1800 (.call _ .nil)))
  exact ((settlements_unseen hinserted (by norm_num [settlement])).1 7200
    (by norm_num [settlement])).1

end Usage
end LaneDb
end LaneBroker
