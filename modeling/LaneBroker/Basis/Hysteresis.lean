/-
# A gate with two thresholds

A gate closes on a reading that is over, and a closed gate opens again on the last of several
readings in a row that are under.  Whoever reads brings a rule of their own, which says what is
over, what is under and how many it takes; a count that was begun under one rule is not gone on with
under another.  A state has the count only.  What it stands for is said of the history: the count is
the length of the streak, the readings at the end of the history that were judged under this rule
and were under (`Counts`).  So the gate opens just when the streak is as long as the rule asks
(`Counts.opens_iff`).
-/

import Mathlib.Order.Basic
import Mathlib.Data.List.Basic

namespace LaneBroker
namespace Basis
namespace Hysteresis

/-- **What rules say**, of rules `κ` and readings `ρ`. -/
structure Judging (κ ρ : Type) where
  isOver : κ → ρ → Bool
  under : κ → ρ → Bool
  /-- How many readings in a row open the gate. -/
  need : κ → ℕ

/-- **The state of a gate**: whether it is closed, the count, and the rule it was made under. -/
structure Gate (κ : Type) where
  closed : Bool := false
  count : ℕ := 0
  rule : Option κ := none
  deriving DecidableEq

variable {κ ρ : Type} [DecidableEq κ] (J : Judging κ ρ)

/-- The count as it is under a rule. -/
def Gate.countFor (g : Gate κ) (c : κ) : ℕ := if g.rule = some c then g.count else 0

/-- **A reading is judged.** -/
def Gate.judge (g : Gate κ) (c : κ) (r : ρ) : Gate κ :=
  if J.isOver c r then { closed := true, count := 0, rule := some c }
  else if g.closed then
    if J.under c r then
      if J.need c ≤ g.countFor c + 1 then { closed := false, count := 0, rule := some c }
      else { closed := true, count := g.countFor c + 1, rule := some c }
    else { closed := true, count := 0, rule := some c }
  else { closed := false, count := g.countFor c, rule := some c }

/-- A reading counts for a rule: it was judged under it, and was under. -/
def Judging.counts (c : κ) (e : κ × ρ) : Bool := e.1 = c && J.under c e.2 && !J.isOver c e.2

/-- **The streak**: how many of the last readings count, the latest being the first. -/
def Judging.streak (c : κ) (history : List (κ × ρ)) : ℕ := (history.takeWhile (J.counts c)).length

@[simp] theorem streak_nil (c : κ) : J.streak c [] = 0 := rfl

theorem streak_cons (c : κ) (e : κ × ρ) (history : List (κ × ρ)) :
    J.streak c (e :: history) = if J.counts c e then J.streak c history + 1 else 0 := by
  unfold Judging.streak
  rw [List.takeWhile_cons]
  split_ifs
  · rfl
  · rfl

/-- **A streak of some length.** -/
theorem le_streak_iff (c : κ) (history : List (κ × ρ)) (n : ℕ) :
    n ≤ J.streak c history ↔
      n ≤ history.length ∧ ∀ e ∈ history.take n, J.counts c e = true := by
  induction history generalizing n with
  | nil => simp
  | cons e history ih =>
    rw [streak_cons]
    cases n with
    | zero => simp
    | succ n =>
      rw [List.take_succ_cons, List.forall_mem_cons, List.length_cons]
      split_ifs with hcounts
      · rw [Nat.add_le_add_iff_right, Nat.add_le_add_iff_right, ih]
        simp [hcounts]
      · simp [hcounts]

/-- **The count stands for the streak.** -/
def Counts (history : List (κ × ρ)) (g : Gate κ) : Prop :=
  g.closed = true → ∀ c, 0 < J.need c → g.countFor c = J.streak c history ∧
    J.streak c history < J.need c

variable {J} {history : List (κ × ρ)} {g : Gate κ} {c : κ} {r : ρ}

/-- Nothing is counted at first. -/
theorem counts_nil (h : g.count = 0 ∨ g.rule = none) : Counts J [] g := by
  intro _ c hneed
  refine ⟨?_, hneed⟩
  unfold Gate.countFor
  rcases h with h | h
  · rw [h, ite_self, streak_nil]
  · rw [h, if_neg (by simp), streak_nil]

/-- A gate is closed by what is over. -/
theorem closed_of_over (h : J.isOver c r = true) : (g.judge J c r).closed = true := by
  unfold Gate.judge
  rw [if_pos h]

/-- **A gate opens just when the streak is as long as the rule asks.** -/
theorem Counts.opens_iff (h : Counts J history g) (hclosed : g.closed = true)
    (hneed : 0 < J.need c) :
    (g.judge J c r).closed = false ↔ J.streak c ((c, r) :: history) = J.need c := by
  obtain ⟨hcount, hlt⟩ := h hclosed c hneed
  rw [streak_cons]
  unfold Gate.judge Judging.counts
  cases hover : J.isOver c r with
  | true =>
    simp only [if_true, Bool.not_true, Bool.and_false, Bool.false_eq_true, if_false,
      Bool.true_eq_false, false_iff]
    omega
  | false =>
    cases hunder : J.under c r with
    | false =>
      simp only [hclosed, Bool.false_eq_true, if_false, if_true, Bool.and_false, Bool.false_and,
        Bool.true_eq_false, false_iff]
      omega
    | true =>
      simp only [hclosed, hcount, Bool.false_eq_true, if_false, if_true, decide_true,
        Bool.not_false, Bool.and_true]
      split_ifs with hfull
      · simp only [true_iff]
        omega
      · simp only [false_iff]
        omega

/-- Under another rule there is no streak. -/
theorem counts_of_ne {c' : κ} (hne : c ≠ c') : J.counts c' (c, r) = false := by
  simp [Judging.counts, hne]

/-- **A reading more is counted.** -/
theorem Counts.judge (h : Counts J history g) : Counts J ((c, r) :: history) (g.judge J c r) := by
  intro hclosed c' hneed
  rw [streak_cons]
  unfold Gate.judge at hclosed ⊢
  cases hover : J.isOver c r with
  | true =>
    have hcounts : J.counts c' (c, r) = false := by
      by_cases hsame : c = c'
      · subst hsame
        simp [Judging.counts, hover]
      · exact counts_of_ne hsame
    simp [Gate.countFor, hcounts, hneed]
  | false =>
    simp only [hover, Bool.false_eq_true, if_false] at hclosed ⊢
    cases hwas : g.closed with
    | false =>
      simp [hwas] at hclosed
    | true =>
      simp only [hwas, if_true] at hclosed ⊢
      obtain ⟨hcount, hlt⟩ := h hwas c' hneed
      cases hunder : J.under c r with
      | false =>
        have hcounts : J.counts c' (c, r) = false := by
          by_cases hsame : c = c'
          · subst hsame
            simp [Judging.counts, hunder]
          · exact counts_of_ne hsame
        simp [Gate.countFor, hcounts, hneed]
      | true =>
        simp only [hunder, if_true] at hclosed ⊢
        by_cases hfull : J.need c ≤ g.countFor c + 1
        · simp [hfull] at hclosed
        · rw [if_neg hfull]
          by_cases hsame : c = c'
          · subst hsame
            have hcounts : J.counts c (c, r) = true := by simp [Judging.counts, hunder, hover]
            have hfor : Gate.countFor { closed := true, count := g.countFor c + 1, rule := some c } c =
                g.countFor c + 1 := by simp [Gate.countFor]
            rw [hfor, hcounts, if_pos rfl]
            omega
          · simp [Gate.countFor, counts_of_ne hsame, hsame, hneed]

end Hysteresis
end Basis
end LaneBroker
