/-
# Shares in turns

Two parties are served in turns: a turn goes to a party only while it is not ahead of the other one
by more than `ε`, each counted from where it started (`Turns`).  When the starts are level, closer
than the smallest turn, the service of the two never differs by more than their two largest turns
(`Turns.service_le`).
-/

import Mathlib.Algebra.BigOperators.Group.List.Basic
import Mathlib.Algebra.Order.Field.Rat
import Mathlib.Tactic.Linarith

namespace LaneBroker
namespace Basis
namespace Stride

variable {κ : Type} [DecidableEq κ]

/-- What a party was served. -/
def service (c : κ) (turns : List (κ × ℚ)) : ℚ := ((turns.filter fun t => t.1 = c).map Prod.snd).sum

/-- The largest turn of a party, 0 if it had none. -/
def largest (c : κ) (turns : List (κ × ℚ)) : ℚ :=
  ((turns.filter fun t => t.1 = c).map Prod.snd).foldr max 0

/-- A party had a turn. -/
def served (c : κ) (turns : List (κ × ℚ)) : Bool := turns.any fun t => t.1 = c

variable {a b c : κ} {w ε γ : ℚ} {v : κ → ℚ} {turns : List (κ × ℚ)}

theorem service_snoc_self : service c (turns ++ [(c, w)]) = service c turns + w := by
  simp [service]

theorem service_snoc_of_ne (h : a ≠ c) : service c (turns ++ [(a, w)]) = service c turns := by
  simp [service, h]

theorem largest_nonneg (c : κ) (turns : List (κ × ℚ)) : 0 ≤ largest c turns := by
  unfold largest
  induction (turns.filter fun t => t.1 = c).map Prod.snd with
  | nil => exact le_rfl
  | cons x xs ih => exact ih.trans (le_max_right x _)

theorem le_foldr_max_snoc (xs : List ℚ) (x : ℚ) : x ≤ (xs ++ [x]).foldr max 0 := by
  induction xs with
  | nil => exact le_max_left x 0
  | cons y ys ih => exact ih.trans (le_max_right y _)

theorem le_largest_snoc (c : κ) (w : ℚ) (turns : List (κ × ℚ)) :
    w ≤ largest c (turns ++ [(c, w)]) := by
  simpa [largest] using le_foldr_max_snoc ((turns.filter fun t => t.1 = c).map Prod.snd) w

theorem largest_snoc_of_ne (h : a ≠ c) : largest c (turns ++ [(a, w)]) = largest c turns := by
  simp [largest, h]

theorem served_snoc : served c (turns ++ [(a, w)]) = (served c turns || decide (a = c)) := by
  simp [served]

/-- **Service in turns**: who gets a turn is not ahead of the other by more than `ε`, and a turn of
either is worth at least `γ`. -/
inductive Turns (v : κ → ℚ) (ε γ : ℚ) (a b : κ) : List (κ × ℚ) → Prop
  | nil : Turns v ε γ a b []
  | snoc {turns : List (κ × ℚ)} {c : κ} {w : ℚ} : Turns v ε γ a b turns →
      (c = a → v a + service a turns ≤ v b + service b turns + ε ∧ γ ≤ w) →
      (c = b → v b + service b turns ≤ v a + service a turns + ε ∧ γ ≤ w) →
        Turns v ε γ a b (turns ++ [(c, w)])

theorem Turns.symm (h : Turns v ε γ a b turns) : Turns v ε γ b a turns := by
  induction h with
  | nil => exact .nil
  | snoc _ ha hb ih => exact .snoc ih hb ha

theorem service_of_not_served (h : served c turns = false) : service c turns = 0 := by
  have hnil : turns.filter (fun t => t.1 = c) = [] := by
    simpa [served, List.filter_eq_nil_iff] using h
  simp [service, hnil]

/-- A party that had a turn has had its worth. -/
theorem Turns.le_service (hγ : 0 ≤ γ) (h : Turns v ε γ a b turns) (hs : served a turns = true) :
    γ ≤ service a turns ∧ γ ≤ largest a turns := by
  induction h with
  | nil => simp [served] at hs
  | @snoc turns c w _ ha _ ih =>
    by_cases hca : c = a
    · subst hca
      obtain ⟨-, hw⟩ := ha rfl
      refine ⟨?_, hw.trans (le_largest_snoc c w turns)⟩
      rw [service_snoc_self]
      cases hserved : served c turns with
      | false => linarith [service_of_not_served hserved]
      | true => linarith [(ih hserved).1]
    · rw [service_snoc_of_ne hca, largest_snoc_of_ne hca]
      exact ih (by simpa [served_snoc, hca] using hs)

theorem Turns.service_nonneg (hγ : 0 ≤ γ) (h : Turns v ε γ a b turns) : 0 ≤ service a turns := by
  cases hserved : served a turns with
  | false => exact (service_of_not_served hserved).ge
  | true => exact hγ.trans (h.le_service hγ hserved).1

/-- **A party that had a turn is ahead of the other by one turn at most.** -/
theorem Turns.lead_le (hne : a ≠ b) (hγ : 0 ≤ γ) (h : Turns v ε γ a b turns)
    (hs : served a turns = true) :
    v a + service a turns ≤ v b + service b turns + ε + largest a turns := by
  induction h with
  | nil => simp [served] at hs
  | @snoc turns c w _ ha hb ih =>
    by_cases hca : c = a
    · subst hca
      obtain ⟨hturn, -⟩ := ha rfl
      have hw := le_largest_snoc c w turns
      rw [service_snoc_self, service_snoc_of_ne hne]
      linarith
    · have hlead := ih (by simpa [served_snoc, hca] using hs)
      rw [service_snoc_of_ne hca, largest_snoc_of_ne hca]
      by_cases hcb : c = b
      · subst hcb
        obtain ⟨-, hw⟩ := hb rfl
        rw [service_snoc_self]
        linarith
      · rwa [service_snoc_of_ne hcb]

/-- Where the starts are level, a second turn has to wait for the other party. -/
theorem Turns.service_le_of_not_served (hne : a ≠ b) (hγ : 0 ≤ γ) (hlevel : v b - v a + ε < γ)
    (h : Turns v ε γ a b turns) (hb : served b turns = false) :
    service a turns ≤ largest a turns := by
  induction h with
  | nil => exact le_rfl
  | @snoc turns c w hturns ha _ ih =>
    have hbefore : served b turns = false := by
      simp only [served_snoc, Bool.or_eq_false_iff] at hb
      exact hb.1
    by_cases hca : c = a
    · subst hca
      obtain ⟨hturn, -⟩ := ha rfl
      have hw := le_largest_snoc c w turns
      rw [service_snoc_self]
      cases hserved : served c turns with
      | false => linarith [service_of_not_served hserved]
      | true =>
        have := (hturns.le_service hγ hserved).1
        linarith [service_of_not_served hbefore]
    · rw [service_snoc_of_ne hca, largest_snoc_of_ne hca]
      exact ih hbefore

/-- One half of the bound. -/
theorem Turns.service_sub_le (hne : a ≠ b) (hγ : 0 ≤ γ) (hlevel : v b - v a + ε < γ)
    (h : Turns v ε γ a b turns) :
    service a turns - service b turns ≤ largest a turns + largest b turns := by
  cases ha : served a turns with
  | false =>
    have := h.symm.service_nonneg hγ
    have := largest_nonneg a turns
    have := largest_nonneg b turns
    linarith [service_of_not_served ha]
  | true =>
    cases hb : served b turns with
    | false =>
      have := h.service_le_of_not_served hne hγ hlevel hb
      have := largest_nonneg b turns
      linarith [service_of_not_served hb]
    | true =>
      have := h.lead_le hne hγ ha
      have := (h.symm.le_service hγ hb).2
      linarith

/-- **Two parties that start level are served alike**: the difference is at most the sum of their
largest turns. -/
theorem Turns.service_le (hne : a ≠ b) (hγ : 0 ≤ γ) (hlevel : |v a - v b| + ε < γ)
    (h : Turns v ε γ a b turns) :
    |service a turns - service b turns| ≤ largest a turns + largest b turns := by
  have hab : v b - v a + ε < γ := by linarith [neg_abs_le (v a - v b)]
  have hba : v a - v b + ε < γ := by linarith [le_abs_self (v a - v b)]
  have hle := h.service_sub_le hne hγ hab
  have hge := h.symm.service_sub_le hne.symm hγ hba
  rw [abs_le]
  constructor <;> linarith

end Stride
end Basis
end LaneBroker
