/-
# The damped urgency of a group

`urgency` and `record_eta`: a forecast cycle stores the forecast and the urgency that the
scheduler reads from then on.  The urgency follows the slack of the deadline while the boost
is on, and goes to zero while it is off, by at most 25 points a cycle and what the rounding to the
`real` of the column adds (`recordEta_slew`); the boost comes on and goes off at different slacks,
and stays for three cycles once it has changed, so it changes at most 7 times in 20 cycles
(`urgency_damped`).

Between two cycles everything else may change: the deadline, whether it is valid, and whether
deadlines count at all.
-/

import LaneBroker.Basis.PgFloat
import LaneBroker.LaneDb.Tables
import Mathlib.Algebra.Order.AbsoluteValue.Basic

namespace LaneBroker
namespace LaneDb

open LaneBroker.Basis

namespace Urgency

/-- **A row of `group_eta`**, as it is inserted ahead of the first forecast. -/
structure EtaRow where
  etaP90S : PgFloat := .num 0
  lowConfidence : Bool := false
  cycle : ℕ := 0
  urgency : Option ℚ := none
  boostOn : Bool := false
  lastFlipCycle : Option ℕ := none
  deriving DecidableEq, Repr

/-- **A call of `record_eta`**, with the setting and the group that it finds. -/
structure Call where
  deadlinesEnabled : Bool := true
  g : Group
  etaP90S : PgFloat
  lowConfidence : Bool := false
  now : Time

/-! ### The source -/

/-- `s0`. -/
def slackScale (eta : PgFloat) : PgFloat := .greatest (.num 900) (.scale (1 / 2) eta)

/-- `extract(epoch FROM g.deadline_at - p_now) - eta`, in doubles. -/
def slackOf (deadline now : Time) (eta : PgFloat) : PgFloat :=
  .sub (.num (double.round (deadline - now))) eta

/-- **The urgency that is not damped**: `150 * least(1, greatest(0, 1 - slack / s0))`, half of it at
low confidence. -/
def rawUrgency (deadline now : Time) (eta : PgFloat) (lowConfidence : Bool) : ℚ :=
  double.round ((if lowConfidence then 1 / 2 else 1) * 150 *
    PgFloat.clamp 0 1 (.sub (.num 1) (.div (slackOf deadline now eta) (slackScale eta))))

/-- **`urgency`**: what the scheduler reads of a group and its row. -/
def urgency (deadlinesEnabled : Bool) (g : Group) (row : Option EtaRow) (now : Time) : ℚ :=
  match g.deadlineAt with
  | none => 0
  | some deadline =>
    if !deadlinesEnabled || !g.deadlineValid then 0
    else if deadline < now then 75
    else
      match row.bind EtaRow.urgency with
      | some urgency => urgency
      | none =>
        rawUrgency deadline now ((row.map EtaRow.etaP90S).getD (.num 0))
          ((row.map EtaRow.lowConfidence).getD false)

/-- `v_on` ahead of the dwell: on below the scale, off above 1.25 of it. -/
def wantsBoost (boostOn : Bool) (slack scale : PgFloat) : Bool :=
  if boostOn then !PgFloat.lt (.scale (5 / 4) scale) slack else PgFloat.lt slack scale

/-- `v_on`: too soon to change again, it stays as it is. -/
def boostAfter (e : EtaRow) (slack scale : PgFloat) : Bool :=
  let wanted := wantsBoost e.boostOn slack scale
  if wanted ≠ e.boostOn ∧ (e.lastFlipCycle.any fun last => e.cycle + 1 < last + 3) = true then
    e.boostOn
  else wanted

/-- `v_prev + least(25, greatest(-25, target - v_prev))`, in doubles, and in the `real` of the
column. -/
def slewed (prev target : ℚ) : ℚ :=
  single.round (double.round (prev + min 25 (max (-25) (double.round (target - prev)))))

/-- **`record_eta`**, of a group that is there; what is stored after it. -/
def recordEta (row : Option EtaRow) (call : Call) : Option EtaRow :=
  match call.g.deadlineAt with
  | none => row
  | some deadline =>
    let e := row.getD {}
    let prev := e.urgency.getD (urgency call.deadlinesEnabled call.g (some e) call.now)
    let on := boostAfter e (slackOf deadline call.now call.etaP90S) (slackScale call.etaP90S)
    let target :=
      if on then rawUrgency deadline call.now call.etaP90S call.lowConfidence else 0
    some
      { etaP90S := call.etaP90S
        lowConfidence := call.lowConfidence
        cycle := e.cycle + 1
        urgency := some (slewed prev target)
        boostOn := on
        lastFlipCycle := if on ≠ e.boostOn then some (e.cycle + 1) else e.lastFlipCycle }

/-- What is stored after the calls. -/
def run (row : Option EtaRow) (calls : List Call) : Option EtaRow := calls.foldl recordEta row

/-- The cycle, where there was none 0. -/
def cycleOf (row : Option EtaRow) : ℕ := (row.getD {}).cycle

/-- The boost. -/
def boostOf (row : Option EtaRow) : Bool := (row.getD {}).boostOn

/-- **How often the boost changes** in the course of the calls. -/
def flips (row : Option EtaRow) : List Call → ℕ
  | [] => 0
  | call :: calls =>
    (if boostOf (recordEta row call) ≠ boostOf row then 1 else 0) +
      flips (recordEta row call) calls

/-- **A row without a damped urgency**: there is none yet, or it is older than the damping. -/
def Undamped (row : Option EtaRow) : Prop :=
  ∀ e ∈ row, e.urgency = none ∧ e.boostOn = false ∧ e.lastFlipCycle = none

/-! ### One cycle -/

section Cycle

variable {row : Option EtaRow} {call : Call}

/-- **An urgency of the scale**, in a double. -/
structure OnScale (u : ℚ) : Prop where
  nonneg : 0 ≤ u
  le : u ≤ 150
  isDouble : double.round u = u

theorem onScale_zero : OnScale 0 := ⟨le_rfl, by norm_num, by decide +kernel⟩

/-- What rounds to the scale was near it. -/
theorem double_round_le {q : ℚ} (h : q ≤ 150) : double.round q ≤ 150 := by
  have hself : double.round 150 = 150 := by decide +kernel
  rw [← hself]
  exact Format.round_mono (by decide) h

theorem onScale_rawUrgency (deadline now : Time) (eta : PgFloat) (lowConfidence : Bool) :
    OnScale (rawUrgency deadline now eta lowConfidence) := by
  obtain ⟨hlow, hhigh⟩ := PgFloat.clamp_mem (zero_le_one (α := ℚ))
    (.sub (.num 1) (.div (slackOf deadline now eta) (slackScale eta)))
  unfold rawUrgency
  refine ⟨Format.round_nonneg ?_, double_round_le ?_, Format.round_round (by decide) _⟩
  · cases lowConfidence with
    | true => simp only [if_true]; linarith
    | false => simp only [Bool.false_eq_true, if_false]; linarith
  · cases lowConfidence with
    | true => simp only [if_true]; linarith
    | false => simp only [Bool.false_eq_true, if_false]; linarith

/-- **A row as the damping keeps it**: the urgency is one of the scale. -/
def Scaled (row : Option EtaRow) : Prop :=
  ∀ e ∈ row, ∀ urgency ∈ e.urgency, OnScale urgency

theorem undamped_none : Undamped none := by
  intro e he
  cases he

theorem Undamped.scaled (h : Undamped row) : Scaled row := by
  intro e he urgency hurgency
  rw [(h e he).1] at hurgency
  cases hurgency

/-- **What the scheduler reads is on the scale.** -/
theorem onScale_urgency (h : Scaled row) (deadlinesEnabled : Bool) (g : Group) (now : Time) :
    OnScale (urgency deadlinesEnabled g row now) := by
  unfold urgency
  split
  · exact onScale_zero
  · split_ifs
    · exact onScale_zero
    · exact ⟨by norm_num, by norm_num, by decide +kernel⟩
    · split
      · rename_i urgency hurgency
        obtain ⟨e, he, hurgency⟩ := Option.bind_eq_some_iff.1 hurgency
        exact h e he urgency hurgency
      · exact onScale_rawUrgency _ _ _ _

/-- What a double on the scale is rounded by, at most. -/
theorem abs_double_round_sub_le {q : ℚ} (h : |q| ≤ 200) : |double.round q - q| ≤ 1 / 2 ^ 40 := by
  have hbits : (2 : ℚ) ^ (-double.bits : ℤ) = 1 / 2 ^ 53 := by decide +kernel
  have hleast : (2 : ℚ) ^ (double.least - 1) ≤ 1 / 2 ^ 50 := by
    refine (zpow_le_zpow_right₀ (by norm_num) (show double.least - 1 ≤ -50 by decide)).trans ?_
    norm_num
  have hoff := Format.abs_round_sub_le (f := double) q
  rw [hbits] at hoff
  linarith

theorem abs_single_round_sub_le {q : ℚ} (h : |q| ≤ 200) : |single.round q - q| ≤ 1 / 2 ^ 16 * 4 / 5 := by
  have hbits : (2 : ℚ) ^ (-single.bits : ℤ) = 1 / 2 ^ 24 := by decide +kernel
  have hleast : (2 : ℚ) ^ (single.least - 1) ≤ 1 / 2 ^ 50 := by
    refine (zpow_le_zpow_right₀ (by norm_num) (show single.least - 1 ≤ -50 by decide)).trans ?_
    norm_num
  have hoff := Format.abs_round_sub_le (f := single) q
  rw [hbits] at hoff
  linarith

section Slew

variable {prev target : ℚ}

/-- How far a cycle moves the urgency, before the sum is rounded. -/
def moved (prev target : ℚ) : ℚ := min 25 (max (-25) (double.round (target - prev)))

theorem abs_moved_le (prev target : ℚ) : |moved prev target| ≤ 25 := by
  have hle := min_le_left 25 (max (-25) (double.round (target - prev)))
  have hge : -25 ≤ min 25 (max (-25) (double.round (target - prev))) :=
    le_min (by norm_num) (le_max_left _ _)
  rw [moved, abs_le]
  exact ⟨hge, hle⟩

/-- A move ends on the scale, or off it by the rounding of the difference. -/
theorem moved_mem (hprev : OnScale prev) (htarget : OnScale target) :
    0 ≤ prev + moved prev target ∧ prev + moved prev target ≤ 150 + 1 / 2 ^ 40 := by
  obtain ⟨hlow, hhigh, hdouble⟩ := hprev
  obtain ⟨hlow', hhigh', -⟩ := htarget
  have hback : -prev ≤ double.round (target - prev) := by
    rw [← hdouble, ← Format.round_neg, hdouble]
    exact Format.round_mono (by decide) (by linarith)
  have hoff := abs_le.1 (abs_double_round_sub_le (q := target - prev)
    (abs_le.2 ⟨by linarith, by linarith⟩))
  unfold moved
  constructor
  · have : -prev ≤ min 25 (max (-25) (double.round (target - prev))) :=
      le_min (by linarith) (hback.trans (le_max_right _ _))
    linarith
  · have hle := min_le_right 25 (max (-25) (double.round (target - prev)))
    rcases max_cases (-25) (double.round (target - prev)) with ⟨hmax, -⟩ | ⟨hmax, -⟩
    · rw [hmax] at hle ⊢
      linarith
    · rw [hmax] at hle ⊢
      linarith [hoff.2]

/-- **An urgency that moves to a target stays on the scale**, and in a double. -/
theorem onScale_slewed (hprev : OnScale prev) (htarget : OnScale target) :
    OnScale (slewed prev target) := by
  obtain ⟨hlow, hhigh⟩ := moved_mem hprev htarget
  have hself : single.round (double.round (150 + 1 / 2 ^ 40)) = 150 := by decide +kernel
  refine ⟨Format.round_nonneg (Format.round_nonneg hlow), ?_,
    Format.round_wider (by decide) (by decide) _⟩
  rw [← hself]
  exact Format.round_mono (by decide) (Format.round_mono (by decide) hhigh)

/-- **A cycle moves the urgency by 25 points at most**, and by the rounding to the column. -/
theorem abs_slewed_sub_le (hprev : OnScale prev) (htarget : OnScale target) :
    |slewed prev target - prev| ≤ 25 + 1 / 2 ^ 16 := by
  obtain ⟨hlow, hhigh⟩ := moved_mem hprev htarget
  have hmoved := abs_le.1 (abs_moved_le prev target)
  have hsum := abs_le.1 (abs_double_round_sub_le (q := prev + moved prev target)
    (abs_le.2 ⟨by linarith, by linarith⟩))
  have hstored := abs_le.1 (abs_single_round_sub_le
    (q := double.round (prev + moved prev target)) (abs_le.2 ⟨by linarith, by linarith⟩))
  have hslewed : slewed prev target = single.round (double.round (prev + moved prev target)) := rfl
  rw [hslewed, abs_le]
  constructor <;> linarith

end Slew

/-- A placeholder says what no row says. -/
theorem urgency_getD (deadlinesEnabled : Bool) (g : Group) (row : Option EtaRow) (now : Time) :
    urgency deadlinesEnabled g (some (row.getD {})) now = urgency deadlinesEnabled g row now := by
  cases row <;> rfl

/-- **The cycle starts from what the scheduler uses**, where it uses the damped urgency or has none
yet. -/
theorem scaled_recordEta (h : Scaled row) : Scaled (recordEta row call) := by
  unfold recordEta
  cases hdeadline : call.g.deadlineAt with
  | none => exact h
  | some deadline =>
    intro e he urgency hurgency
    obtain rfl := Option.some.inj he
    obtain rfl := Option.some.inj hurgency
    refine onScale_slewed ?_ ?_
    · cases hprev : (row.getD {}).urgency with
      | none =>
        rw [Option.getD_none, urgency_getD]
        exact onScale_urgency h _ _ _
      | some prev =>
        cases row with
        | none => cases hprev
        | some e => exact h e rfl prev hprev
    · split_ifs
      · exact onScale_rawUrgency _ _ _ _
      · exact onScale_zero

/-- **A call moves what the scheduler reads by at most 25 points**, and the rounding. -/
theorem recordEta_slew (h : Scaled row) (call : Call) :
    |urgency call.deadlinesEnabled call.g (recordEta row call) call.now -
      urgency call.deadlinesEnabled call.g row call.now| ≤ 25 + 1 / 2 ^ 16 := by
  have hsame : ∀ x : ℚ, |x - x| ≤ 25 + 1 / 2 ^ 16 := fun x => by norm_num
  have hprev := onScale_urgency h call.deadlinesEnabled call.g call.now
  unfold recordEta
  cases hdeadline : call.g.deadlineAt with
  | none => exact hsame _
  | some deadline =>
    simp only
    by_cases hcounts : (!call.deadlinesEnabled || !call.g.deadlineValid) = true
    · -- the deadline does not count, whatever is stored
      simp only [urgency, hdeadline, hcounts, if_true]
      exact hsame 0
    · by_cases hmissed : deadline < call.now
      · simp only [urgency, hdeadline, hcounts, Bool.false_eq_true, if_false, hmissed, if_true]
        exact hsame 75
      · -- the urgency that is stored is read, and it came from the one that was read before
        have hafter : ∀ e : EtaRow, ∀ u, e.urgency = some u →
            urgency call.deadlinesEnabled call.g (some e) call.now = u := fun e u hu => by
          simp only [urgency, hdeadline, hcounts, Bool.false_eq_true, if_false, hmissed,
            Option.bind_some, hu]
        have hbefore : (row.getD {}).urgency.getD
            (urgency call.deadlinesEnabled call.g (some (row.getD {})) call.now) =
              urgency call.deadlinesEnabled call.g row call.now := by
          rw [← urgency_getD call.deadlinesEnabled call.g row call.now]
          cases hprev : (row.getD {}).urgency with
          | none => rfl
          | some prev => exact (hafter _ prev hprev).symm
        rw [hafter _ _ rfl, hbefore]
        refine abs_slewed_sub_le hprev ?_
        split_ifs
        · exact onScale_rawUrgency _ _ _ _
        · exact onScale_zero

/-! ### The dwell -/

/-- How far the boost is into its dwell, two cycles at most. -/
def dwelt (e : EtaRow) : ℕ := (e.lastFlipCycle.map fun last => min 2 (e.cycle - last)).getD 2

/-- A change comes three cycles after the last one. -/
theorem dwell_of_flip {e : EtaRow} {slack scale : PgFloat}
    (h : boostAfter e slack scale ≠ e.boostOn) : ∀ last ∈ e.lastFlipCycle, last + 3 ≤ e.cycle + 1 := by
  intro last hlast
  unfold boostAfter at h
  simp only at h
  split_ifs at h with hdwell
  · exact absurd rfl h
  · rw [not_and, Option.mem_def.1 hlast, Option.any_some, decide_eq_true_iff] at hdwell
    have hlate := hdwell h
    omega

/-- **A change uses up the dwell**, and a cycle without one adds to it. -/
theorem dwelt_recordEta (hdeadline : call.g.deadlineAt ≠ none) :
    cycleOf (recordEta row call) = cycleOf row + 1 ∧
      if boostOf (recordEta row call) ≠ boostOf row then
        dwelt (row.getD {}) = 2 ∧ dwelt ((recordEta row call).getD {}) = 0
      else dwelt ((recordEta row call).getD {}) ≤ dwelt (row.getD {}) + 1 := by
  obtain ⟨deadline, hdeadline⟩ := Option.ne_none_iff_exists'.1 hdeadline
  simp only [recordEta, hdeadline, cycleOf, boostOf, Option.getD_some, true_and]
  generalize row.getD {} = e
  by_cases hflip : boostAfter e (slackOf deadline call.now call.etaP90S)
      (slackScale call.etaP90S) ≠ e.boostOn
  · -- a change that the dwell let through
    rw [if_pos hflip, if_pos hflip]
    refine ⟨?_, by simp [dwelt]⟩
    have hlast := dwell_of_flip hflip
    unfold dwelt
    cases hlastFlip : e.lastFlipCycle with
    | none => rfl
    | some last =>
      have hdwell := hlast last hlastFlip
      show min 2 (e.cycle - last) = 2
      omega
  · rw [if_neg hflip, if_neg hflip]
    unfold dwelt
    cases e.lastFlipCycle with
    | none => exact Nat.le_succ 2
    | some last =>
      show min 2 (e.cycle + 1 - last) ≤ min 2 (e.cycle - last) + 1
      omega

theorem recordEta_of_no_deadline (h : call.g.deadlineAt = none) : recordEta row call = row := by
  simp [recordEta, h]

theorem dwelt_le (e : EtaRow) : dwelt e ≤ 2 := by
  unfold dwelt
  cases e.lastFlipCycle with
  | none => exact le_rfl
  | some last => exact min_le_left _ _

/-- **Three cycles for each change**, but for what was dwelt before. -/
theorem flips_le (row : Option EtaRow) (calls : List Call) :
    3 * flips row calls + cycleOf row ≤ cycleOf (run row calls) + dwelt (row.getD {}) := by
  induction calls generalizing row with
  | nil =>
    show 3 * 0 + cycleOf row ≤ cycleOf row + dwelt (row.getD {})
    omega
  | cons call calls ih =>
    have hrest := ih (recordEta row call)
    show 3 * ((if boostOf (recordEta row call) ≠ boostOf row then 1 else 0) +
      flips (recordEta row call) calls) + cycleOf row ≤
        cycleOf (run (recordEta row call) calls) + dwelt (row.getD {})
    by_cases hdeadline : call.g.deadlineAt = none
    · rw [recordEta_of_no_deadline hdeadline] at hrest ⊢
      rw [if_neg (by simp)]
      omega
    · obtain ⟨hcycle, hdwelt⟩ := @dwelt_recordEta row call hdeadline
      split_ifs at hdwelt ⊢ with hflip
      · omega
      · omega

end Cycle

/-! ### Runs -/

theorem scaled_run {row : Option EtaRow} (h : Scaled row) (calls : List Call) :
    Scaled (run row calls) := by
  induction calls generalizing row with
  | nil => exact h
  | cons call calls ih => exact ih (scaled_recordEta h)

/-- **The urgency is damped**: in every run of forecast cycles it stays between 0 and 150, no call
moves it by more than 25 points, and the rounding of the column, from what the scheduler was using,
and the boost changes at most 7 times while 20 cycles go by. -/
theorem urgency_damped {row : Option EtaRow} (hrow : Undamped row) (calls : List Call) :
    (∀ deadlinesEnabled g now, 0 ≤ urgency deadlinesEnabled g (run row calls) now ∧
      urgency deadlinesEnabled g (run row calls) now ≤ 150) ∧
    (∀ call : Call, |urgency call.deadlinesEnabled call.g (recordEta (run row calls) call)
        call.now - urgency call.deadlinesEnabled call.g (run row calls) call.now| ≤
          25 + 1 / 2 ^ 16) ∧
    ∀ more : List Call, cycleOf (run row (calls ++ more)) ≤ cycleOf (run row calls) + 20 →
      flips (run row calls) more ≤ 7 := by
  have hscaled := scaled_run hrow.scaled calls
  refine ⟨fun enabled g now => ?_, fun call => recordEta_slew hscaled call,
    fun more hcycles => ?_⟩
  · obtain ⟨hlow, hhigh, -⟩ := onScale_urgency hscaled enabled g now
    exact ⟨hlow, hhigh⟩
  have hflips := flips_le (run row calls) more
  have hdwelt := dwelt_le ((run row calls).getD {})
  rw [run, List.foldl_append] at hcycles
  change cycleOf (run (run row calls) more) ≤ _ at hcycles
  omega

/-- A group whose deadline is an hour away. -/
def hourly : Group :=
  { id := 0, account := 0, owner := 0, parentId := 0, deadlineAt := some 3600
    deadlineValid := true }

/-- Its forecast is now late, now early. -/
def jumpy (late : Bool) : Call :=
  { g := hourly, etaP90S := .num (if late then 7200 else 0), now := 0 }

theorem urgency_damped_jumpy : Undamped none ∧
    flips none (List.replicate 10 [jumpy true, jumpy false]).flatten ≤ 7 := by
  refine ⟨undamped_none, ?_⟩
  exact (urgency_damped undamped_none []).2.2
    (List.replicate 10 [jumpy true, jumpy false]).flatten (by decide +kernel)

/-- A group whose deadline is ten minutes away. -/
def near : Call :=
  { g := { hourly with deadlineAt := some 601 }, etaP90S := .num 7200, now := 0 }

/-- **The rounding of the column adds to the 25 points**: from 49.83333333333333, which the scheduler
reads without a forecast, to 74.83333587646484. -/
theorem slew_above_25 :
    ¬ ∀ call : Call, |urgency call.deadlinesEnabled call.g (recordEta none call) call.now -
      urgency call.deadlinesEnabled call.g none call.now| ≤ 25 := by
  intro h
  exact absurd (h near) (by decide +kernel)

end Urgency
end LaneDb
end LaneBroker
