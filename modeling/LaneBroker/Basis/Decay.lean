/-
# A stock that fades

What is left of a stock after a while fades by a factor, and what flows in meanwhile at a constant
rate fades as well.  If the factors of two whiles multiply to the factor of both, then looking at
the stock in between, and going on from what was seen, makes no difference (`after_after`); so the
closed form may be settled as often as one likes.
-/

import Mathlib.Tactic.Ring

namespace LaneBroker
namespace Basis
namespace Decay

/-- **A law of fading**: the factor that is left after a while. -/
structure Fading (K : Type) [CommRing K] [LE K] where
  factor : K → K
  factor_zero : factor 0 = 1
  factor_add : ∀ s t, 0 ≤ s → 0 ≤ t → factor (s + t) = factor s * factor t

section After

variable {K : Type} [CommRing K] [LE K] (law : Fading K) (stock inflow s t : K)

/-- **The stock after a while**: what is left of it, and of what flowed in; `inflow` is what the
stock would tend to. -/
def Fading.after (t : K) : K := stock * law.factor t + inflow * (1 - law.factor t)

@[simp] theorem Fading.after_zero : law.after stock inflow 0 = stock := by
  simp [Fading.after, law.factor_zero]

/-- **Whiles add up.** -/
theorem Fading.after_after (hs : 0 ≤ s) (ht : 0 ≤ t) :
    law.after (law.after stock inflow s) inflow t = law.after stock inflow (s + t) := by
  unfold Fading.after
  rw [law.factor_add s t hs ht]
  ring

/-- Nothing comes of nothing. -/
@[simp] theorem Fading.after_nothing : law.after 0 0 t = 0 := by
  simp [Fading.after]

end After

end Decay
end Basis
end LaneBroker
