/-
# The first row in an order

`ORDER BY … LIMIT 1` is `List.argmin` of a sort key in a linear order, and `DISTINCT ON … ORDER BY …`
takes the first row of every part (`distinctOn`), which is one that no row of the part precedes
(`exists_mem_distinctOn`).
-/

import Mathlib.Data.List.MinMax
import Mathlib.Data.List.Dedup
import Mathlib.Data.Prod.Lex

namespace LaneBroker
namespace Basis
namespace Choice

variable {α κ β : Type} [DecidableEq κ] [LinearOrder β] {part : α → κ} {key : α → β}
  {rows : List α} {a b : α}

/-- **`DISTINCT ON`**: of the rows with one value of `part` the first in the order of `key`. -/
def distinctOn (part : α → κ) (key : α → β) (rows : List α) : List α :=
  (rows.map part).dedup.filterMap fun k => (rows.filter fun a => part a = k).argmin key

theorem mem_distinctOn :
    a ∈ distinctOn part key rows ↔ a ∈ (rows.filter fun b => part b = part a).argmin key := by
  rw [distinctOn, List.mem_filterMap]
  constructor
  · rintro ⟨k, -, h⟩
    obtain rfl : part a = k := by simpa using (List.mem_filter.1 (List.argmin_mem h)).2
    exact h
  · intro h
    refine ⟨part a, List.mem_dedup.2 (List.mem_map_of_mem ?_), h⟩
    exact (List.mem_filter.1 (List.argmin_mem h)).1

theorem mem_of_mem_distinctOn (h : a ∈ distinctOn part key rows) : a ∈ rows :=
  (List.mem_filter.1 (List.argmin_mem (mem_distinctOn.1 h))).1

/-- **Every row is covered** by the row that stands for its part. -/
theorem exists_mem_distinctOn (part : α → κ) (key : α → β) (h : b ∈ rows) :
    ∃ a ∈ distinctOn part key rows, part a = part b ∧ key a ≤ key b := by
  have hb : b ∈ rows.filter fun c => part c = part b := by simpa using h
  obtain ⟨a, ha⟩ : ∃ a, a ∈ (rows.filter fun c => part c = part b).argmin key := by
    refine Option.isSome_iff_exists.1 (Option.isSome_iff_ne_none.2 fun hnone => ?_)
    exact List.ne_nil_of_mem hb (List.argmin_eq_none.1 hnone)
  have hpart : part a = part b := by simpa using (List.mem_filter.1 (List.argmin_mem ha)).2
  exact ⟨a, mem_distinctOn.2 (hpart ▸ ha), hpart, List.le_of_mem_argmin hb ha⟩

/-- A maximum is one of the elements alone. -/
theorem max?_congr {l l' : List β} (h : ∀ x, x ∈ l ↔ x ∈ l') : l.max? = l'.max? := by
  ext x
  rw [List.max?_eq_some_iff, List.max?_eq_some_iff]
  simp only [h]

theorem min?_congr {l l' : List β} (h : ∀ x, x ∈ l ↔ x ∈ l') : l.min? = l'.min? := by
  ext x
  rw [List.min?_eq_some_iff, List.min?_eq_some_iff]
  simp only [h]

end Choice
end Basis
end LaneBroker
