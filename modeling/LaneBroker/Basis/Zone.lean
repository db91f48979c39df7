/-
# Clocks that are set forward and back

The clock of a timezone reads the instant and an offset.  The offset changes at most once within a
day, and then by a few hours at most; so a change leaves a gap, whose times are never read, or an
overlap, whose times are read twice.

On any three instants within a day the offset has at most two values (`Zone.two_values`), and over
more than six hours the clock goes forward whatever happens (`Zone.wall_lt_of_far`).  From this the
instants that read a time are found: with the offset `p` at the instant of the same number, and the
offset `q` a first guess later, they are `w - p` or `w - q`, unless the guess was right at once
(`Zone.reads_cases`), and a third look says whether the time is read at all
(`Zone.skipped_iff`).
-/

import Mathlib.Data.Int.LeastGreatest
import Mathlib.Algebra.Order.Group.Int
import Mathlib.Algebra.Order.Group.Abs
import Mathlib.Order.Bounds.Basic

namespace LaneBroker
namespace Basis

/-- **The clock of a timezone**: its offsets, in milliseconds. -/
structure Zone where
  off : ℤ → ℤ
  whole : ∀ t, 1000 ∣ off t
  /-- Less than a day. -/
  bound : ∀ t, -86400000 < off t ∧ off t < 86400000
  /-- Within a day, a few hours at most. -/
  jump : ∀ {t u}, t ≤ u → u ≤ t + 86400000 →
    off t - 21600000 ≤ off u ∧ off u ≤ off t + 21600000
  /-- Within a day, one change at most. -/
  once : ∀ {t u v}, t ≤ u → u ≤ v → v ≤ t + 86400000 → off u = off t ∨ off u = off v

namespace Zone

variable (z : Zone)

/-- **What the clock reads.** -/
def wall (t : ℤ) : ℤ := t + z.off t

/-- The time is in a gap. -/
def Skipped (w : ℤ) : Prop := ∀ t, z.wall t ≠ w

/-- The end of the gap: the first instant at which the clock is past the time. -/
def GapEnd (w : ℤ) (T : ℤ) : Prop := IsLeast {t | w < z.wall t} T

/-- **An instant that a time may stand for**: one that reads it, or, for a time that is skipped,
one not before the end of the gap. -/
def Denotes (w t : ℤ) : Prop := z.wall t = w ∨ z.Skipped w ∧ ∃ T, z.GapEnd w T ∧ T ≤ t

/-- A choice of instants for all times. -/
def Interprets (meant : ℤ → ℤ) : Prop := ∀ w, z.Denotes w (meant w)

variable {z} {t u v w : ℤ}

/-! ### How far the clock goes -/

/-- **Two values at most.** -/
theorem two_values (htu : |t - u| ≤ 86400000) (htv : |t - v| ≤ 86400000)
    (huv : |u - v| ≤ 86400000) : z.off t = z.off u ∨ z.off t = z.off v ∨ z.off u = z.off v := by
  rw [abs_le] at htu htv huv
  rcases le_total t u with h₁ | h₁ <;> rcases le_total u v with h₂ | h₂ <;>
    rcases le_total t v with h₃ | h₃
  · rcases z.once h₁ h₂ (by omega) with h | h <;> omega
  · rcases z.once h₁ h₂ (by omega) with h | h <;> omega
  · rcases z.once h₃ h₂ (by omega) with h | h <;> omega
  · rcases z.once h₃ h₁ (by omega) with h | h <;> omega
  · rcases z.once h₁ h₃ (by omega) with h | h <;> omega
  · rcases z.once h₂ h₃ (by omega) with h | h <;> omega
  · rcases z.once h₂ h₁ (by omega) with h | h <;> omega
  · rcases z.once h₂ h₁ (by omega) with h | h <;> omega

theorem off_near (h : |t - u| ≤ 86400000) : |z.off t - z.off u| ≤ 21600000 := by
  rw [abs_le] at h ⊢
  rcases le_total t u with hle | hle
  · have := z.jump hle (by omega)
    omega
  · have := z.jump hle (by omega)
    omega

/-- The clock goes back by a few hours at most. -/
theorem wall_le_of_le (h : t ≤ u) : z.wall t ≤ z.wall u + 21600000 := by
  obtain ⟨n, hn⟩ : ∃ n : ℕ, u ≤ t + 86400000 * n := ⟨(u - t).toNat, by omega⟩
  induction n generalizing t with
  | zero =>
    obtain rfl : t = u := by omega
    omega
  | succ n ih =>
    rcases le_or_gt u (t + 86400000) with hday | hday
    · have := z.jump h hday
      simp only [wall]
      omega
    · have hrest := ih (le_of_lt hday) (by push_cast at hn; omega)
      have := z.jump (le_add_of_nonneg_right (by omega : (0 : ℤ) ≤ 86400000)) (le_refl (t + 86400000))
      simp only [wall] at hrest ⊢
      omega

/-- **Over more than a few hours the clock goes forward.** -/
theorem wall_lt_of_far (h : t + 21600000 < u) : z.wall t < z.wall u := by
  rcases le_or_gt u (t + 86400000) with hday | hday
  · have := z.jump (by omega) hday
    simp only [wall]
    omega
  · have hrest := z.wall_le_of_le (le_of_lt hday)
    have := z.jump (le_add_of_nonneg_right (by omega : (0 : ℤ) ≤ 86400000)) (le_refl (t + 86400000))
    simp only [wall] at hrest ⊢
    omega

/-! ### Gaps -/

/-- **What the clock is past it stays past**, where a time is never read. -/
theorem Skipped.past (h : z.Skipped w) (hle : t ≤ u) (ht : w < z.wall t) : w < z.wall u := by
  by_contra hu
  have hu : z.wall u < w := lt_of_le_of_ne (not_lt.1 hu) (h u)
  have hnear := wall_lt_of_far.mt (not_lt.2 (hu.le.trans ht.le))
  simp only [wall] at ht hu
  -- `w - off t` would read the time
  have hread := h (w - z.off t)
  simp only [wall] at hread
  have hjump := z.jump hle (by omega)
  rcases z.once (t := w - z.off t) (u := t) (v := u) (by omega) hle (by omega) with hoff | hoff
  · omega
  · omega

theorem exists_gapEnd (z : Zone) (w : ℤ) : ∃ T, z.GapEnd w T := by
  obtain ⟨T, hT, hleast⟩ := Int.exists_least_of_bdd (P := fun t => w < z.wall t)
    ⟨w - 86400000, fun t ht => by
      have := z.bound t
      simp only [wall] at ht
      omega⟩
    ⟨w + 86400000, by
      have := z.bound (w + 86400000)
      simp only [wall]
      omega⟩
  exact ⟨T, hT, hleast⟩

/-- **Not before the end of the gap** is past the time. -/
theorem denotes_iff : z.Denotes w t ↔ z.wall t = w ∨ z.Skipped w ∧ w < z.wall t := by
  have hpast (h : z.Skipped w) : (∃ T, z.GapEnd w T ∧ T ≤ t) ↔ w < z.wall t := by
    obtain ⟨T, hT⟩ := z.exists_gapEnd w
    constructor
    · rintro ⟨T', hT', hle⟩
      exact h.past hle hT'.1
    · exact fun ht => ⟨T, hT, hT.2 ht⟩
  exact or_congr Iff.rfl (and_congr_right hpast)

theorem Denotes.le_wall (h : z.Denotes w t) : w ≤ z.wall t := by
  rcases denotes_iff.1 h with h | h
  · exact h.ge
  · exact h.2.le

theorem exists_denotes (z : Zone) (w : ℤ) : ∃ t, z.Denotes w t := by
  by_cases h : z.Skipped w
  · obtain ⟨T, hT⟩ := z.exists_gapEnd w
    exact ⟨T, .inr ⟨h, T, hT, le_rfl⟩⟩
  · obtain ⟨t, ht⟩ := not_forall_not.1 h
    exact ⟨t, .inl ht⟩

/-! ### Looking for the instant -/

/-- The instant that three looks at the offset come to, the first of them at the instant of the same
number. -/
def found (z : Zone) (w : ℤ) : ℤ := w - z.off (w - z.off (w - z.off w))

/-- The third look goes back to the first guess. -/
def Kept (z : Zone) (w : ℤ) : Prop := z.off (w - z.off (w - z.off w)) = z.off w

instance : Decidable (z.Kept w) := decEq _ _

theorem abs_off_le (t : ℤ) : |z.off t| ≤ 86400000 := by
  have := z.bound t
  rw [abs_le]
  omega

theorem abs_guess_sub (w : ℤ) : |w - (w - z.off w)| ≤ 86400000 := by
  rw [sub_sub_cancel]
  exact abs_off_le w

/-- Two guesses are a few hours apart. -/
theorem abs_guesses (hw : |w - t| ≤ 86400000) :
    |w - z.off w - (w - z.off t)| ≤ 86400000 := by
  rw [sub_sub_sub_cancel_left, abs_sub_comm]
  exact (off_near hw).trans (by decide)

/-- **The third look finds nothing new.** -/
theorem found_cases (w : ℤ) :
    z.Kept w ∨ z.off (w - z.off (w - z.off w)) = z.off (w - z.off w) := by
  have hthird : |w - (w - z.off (w - z.off w))| ≤ 86400000 := by
    rw [sub_sub_cancel]
    exact abs_off_le _
  rcases two_values (abs_guess_sub (z := z) w) hthird (abs_guesses (abs_guess_sub w)) with h | h | h
  · exact .inr (by rw [← h, ← h])
  · exact .inl h.symm
  · exact .inr h.symm

/-- **The instants that read a time.** -/
theorem reads_cases (h : z.wall t = w) :
    z.off (w - z.off w) = z.off w ∨ t = w - z.off w ∨ t = w - z.off (w - z.off w) := by
  have heq : t = w - z.off t := by
    simp only [wall] at h
    omega
  have hnear : |w - t| ≤ 86400000 := by
    rw [heq, sub_sub_cancel]
    exact abs_off_le t
  have hguess : |w - z.off w - t| ≤ 86400000 := by
    have := abs_guesses (z := z) hnear
    rwa [← heq] at this
  rcases two_values (abs_guess_sub (z := z) w) hnear hguess with h | h | h
  · exact .inl h.symm
  · exact .inr (.inl (by rw [h]; exact heq))
  · exact .inr (.inr (by rw [h]; exact heq))

theorem wall_found_of_not_kept (h : ¬ z.Kept w) : z.wall (z.found w) = w := by
  have hthird := (found_cases w).resolve_left h
  rw [wall, found, hthird, hthird, sub_add_cancel]

/-- **A time is skipped** where the second guess is another than the first and the third is not. -/
theorem skipped_iff : z.Skipped w ↔ z.Kept w ∧ z.off (w - z.off w) ≠ z.off w := by
  constructor
  · intro h
    refine ⟨by_contra fun hkept => h _ (wall_found_of_not_kept hkept), fun heq => ?_⟩
    exact h (w - z.off w) (by rw [wall, heq, sub_add_cancel])
  · rintro ⟨hkept, hne⟩ t ht
    rcases reads_cases ht with h | rfl | rfl
    · exact hne h
    · rw [wall] at ht
      omega
    · rw [wall, show z.off (w - z.off (w - z.off w)) = z.off w from hkept] at ht
      omega

theorem found_of_kept (h : z.Kept w) : z.found w = w - z.off w := by
  rw [found, show z.off (w - z.off (w - z.off w)) = z.off w from h]

/-- **What is found is right** but for a skipped time that counts with the offset behind the gap. -/
theorem denotes_found_iff :
    z.Denotes w (z.found w) ↔ ¬ (z.Kept w ∧ z.off (w - z.off w) < z.off w) := by
  rw [denotes_iff]
  by_cases hkept : z.Kept w
  · rw [skipped_iff, found_of_kept hkept, wall]
    constructor
    · rintro (h | ⟨-, h⟩) ⟨-, hlt⟩
      · omega
      · omega
    · intro h
      have hle : z.off w ≤ z.off (w - z.off w) := not_lt.1 fun hlt => h ⟨hkept, hlt⟩
      by_cases heq : z.off (w - z.off w) = z.off w
      · exact .inl (by omega)
      · exact .inr ⟨⟨hkept, heq⟩, by omega⟩
  · exact iff_of_true (.inl (wall_found_of_not_kept hkept)) fun h => hkept h.1

/-- **A time that is found at the second look** is read once. -/
theorem eq_found_of_reads (h : ¬ z.Kept w) (ht : z.wall t = w) : t = z.found w := by
  have hthird := (found_cases w).resolve_left h
  have hread := ht
  rw [wall] at hread
  rcases reads_cases ht with heq | heq | heq
  · refine absurd ?_ h
    rw [Kept, heq, heq]
  · rw [heq] at hread
    refine absurd ?_ h
    have hfirst : z.off (w - z.off w) = z.off w := by omega
    rw [Kept, hfirst, hfirst]
  · rw [found, hthird]
    exact heq

/-- **Behind such an instant the clock is past the time**, and before it the clock has not come to
it. -/
theorem found_le_iff (h : ¬ z.Kept w) : z.found w ≤ t ↔ w ≤ z.wall t := by
  have hread := wall_found_of_not_kept h
  have hoff := hread
  rw [wall] at hoff
  constructor
  · intro hle
    by_contra hlt
    rw [not_le] at hlt
    have hnear : t ≤ z.found w + 21600000 := by
      by_contra hfar
      have := wall_lt_of_far (z := z) (not_le.1 hfar)
      omega
    rw [wall] at hlt
    have hjump := z.jump hle (by omega)
    -- the time is read a second time, with the offset that the clock has gone back to
    have hagain : z.wall (w - z.off t) = w := by
      rw [wall]
      rcases z.once (t := z.found w) (u := t) (v := w - z.off t) hle (by omega) (by omega) with h | h
        <;> omega
    have := eq_found_of_reads h hagain
    omega
  · intro hw
    by_contra hlt
    rw [not_le] at hlt
    rcases hw.lt_or_eq with hw | hw
    · have hnear : z.found w ≤ t + 21600000 := by
        by_contra hfar
        have := wall_lt_of_far (z := z) (not_le.1 hfar)
        omega
      rw [wall] at hw
      have hjump := z.jump hlt.le (by omega)
      have hagain : z.wall (w - z.off t) = w := by
        rw [wall]
        rcases z.once (t := w - z.off t) (u := t) (v := z.found w) (by omega) hlt.le (by omega) with
          h | h <;> omega
      have := eq_found_of_reads h hagain
      omega
    · have := eq_found_of_reads h hw.symm
      omega

/-- What is found reads the time up to a few hours. -/
theorem wall_found_near (z : Zone) (w : ℤ) :
    w - 21600000 ≤ z.wall (z.found w) ∧ z.wall (z.found w) ≤ w + 21600000 := by
  by_cases h : z.Kept w
  · rw [found_of_kept h, wall]
    have := off_near (z := z) (abs_guess_sub (z := z) w)
    rw [abs_le] at this
    omega
  · rw [wall_found_of_not_kept h]
    omega

/-- The clock reads less before. -/
theorem lt_of_wall_far (h : z.wall t + 21600000 < z.wall u) : t < u := by
  by_contra hle
  have := wall_le_of_le (z := z) (not_lt.1 hle)
  omega

end Zone
end Basis
end LaneBroker
