/-
# The nearest of the beginnings of a list

A search that goes over beginnings of one list, the longer ones first, and stops at the first
that will do.  What it finds is the longest of them that will (`find?_eq_some_iff`).  Two such
searches over different beginnings find the same, unless the longest that will do is looked at
by one of them only (`find?_eq_find?_iff`).
-/

import Mathlib.Data.List.Infix

namespace LaneBroker
namespace Basis
namespace Nearest

variable {α : Type} {s d : List α} {dirs dirs' : List (List α)} {p : List α → Bool}

/-- **Beginnings of a list**, the longer ones first. -/
structure Descends (s : List α) (dirs : List (List α)) : Prop where
  inside : ∀ d ∈ dirs, d <+: s
  sorted : dirs.Pairwise fun a b => b.length ≤ a.length

/-- The longest that will do. -/
structure IsNearest (p : List α → Bool) (dirs : List (List α)) (d : List α) : Prop where
  mem : d ∈ dirs
  found : p d = true
  longest : ∀ e ∈ dirs, p e = true → e.length ≤ d.length

theorem Descends.find?_eq_some_iff (h : Descends s dirs) :
    dirs.find? p = some d ↔ IsNearest p dirs d := by
  constructor
  · intro hfind
    obtain ⟨hp, before, after, rfl, hbefore⟩ := List.find?_eq_some_iff_append.1 hfind
    have hsorted := (List.pairwise_append.1 h.sorted).2.1
    refine ⟨by simp, hp, fun e he hpe => ?_⟩
    rw [List.mem_append, List.mem_cons] at he
    obtain he | rfl | he := he
    · have hnot := hbefore e he
      rw [hpe] at hnot
      cases hnot
    · exact le_rfl
    · exact (List.pairwise_cons.1 hsorted).1 e he
  · intro hnearest
    obtain ⟨e, he⟩ := Option.isSome_iff_exists.1
      (List.find?_isSome.2 ⟨d, hnearest.mem, hnearest.found⟩)
    obtain ⟨hpe, before, after, heq, hbefore⟩ := List.find?_eq_some_iff_append.1 he
    have hmem : e ∈ dirs := List.mem_of_find?_eq_some he
    have hd := hnearest.mem
    rw [heq, List.mem_append, List.mem_cons] at hd
    have hsame : e = d := by
      obtain hd | rfl | hd := hd
      · have hnot := hbefore d hd
        rw [hnearest.found] at hnot
        cases hnot
      · rfl
      · have hsorted := h.sorted
        rw [heq] at hsorted
        have hle := (List.pairwise_cons.1 (List.pairwise_append.1 hsorted).2.1).1 d hd
        have hge := hnearest.longest e hmem hpe
        exact (List.prefix_of_prefix_length_le (h.inside e hmem) (h.inside d hnearest.mem)
          hge).eq_of_length (le_antisymm hge hle)
    rw [he, hsame]

/-- **Two searches find the same**, unless the nearest of all is looked at by one only. -/
theorem find?_eq_find?_iff (h : Descends s dirs) (h' : Descends s dirs') :
    dirs.find? p = dirs'.find? p ↔ ¬∃ d, p d = true ∧ (d ∈ dirs ↔ d ∉ dirs') ∧
      ∀ e, e ∈ dirs ∨ e ∈ dirs' → p e = true → e.length ≤ d.length := by
  constructor
  · rintro heq ⟨d, hp, hone, hlongest⟩
    by_cases hd : d ∈ dirs
    · have hfind := h.find?_eq_some_iff.2 ⟨hd, hp, fun e he => hlongest e (.inl he)⟩
      rw [heq] at hfind
      exact hone.1 hd (List.mem_of_find?_eq_some hfind)
    · have hd' : d ∈ dirs' := by
        by_contra hnot
        exact hd (hone.2 hnot)
      have hfind := h'.find?_eq_some_iff.2 ⟨hd', hp, fun e he => hlongest e (.inr he)⟩
      rw [← heq] at hfind
      exact hd (List.mem_of_find?_eq_some hfind)
  · intro hnone
    cases hfind : dirs.find? p with
    | none =>
      cases hfind' : dirs'.find? p with
      | none => rfl
      | some d' =>
        have hnearest' := h'.find?_eq_some_iff.1 hfind'
        have hmiss := List.find?_eq_none.1 hfind
        refine absurd ⟨d', hnearest'.found, ?_, ?_⟩ hnone
        · exact ⟨fun hd => absurd hnearest'.found (hmiss d' hd),
            fun hd => absurd hnearest'.mem hd⟩
        · rintro e (he | he) hpe
          · exact absurd hpe (hmiss e he)
          · exact hnearest'.longest e he hpe
    | some d =>
      have hnearest := h.find?_eq_some_iff.1 hfind
      cases hfind' : dirs'.find? p with
      | none =>
        have hmiss := List.find?_eq_none.1 hfind'
        refine absurd ⟨d, hnearest.found, ?_, ?_⟩ hnone
        · exact ⟨fun _ hd => absurd hnearest.found (hmiss d hd), fun _ => hnearest.mem⟩
        · rintro e (he | he) hpe
          · exact hnearest.longest e he hpe
          · exact absurd hpe (hmiss e he)
      | some d' =>
        have hnearest' := h'.find?_eq_some_iff.1 hfind'
        by_contra hne
        rw [Option.some.injEq] at hne
        have hlen : d.length ≠ d'.length := fun hlen =>
          hne ((List.prefix_of_prefix_length_le (h.inside d hnearest.mem)
            (h'.inside d' hnearest'.mem) hlen.le).eq_of_length hlen)
        obtain hlt | hlt := Nat.lt_or_gt_of_ne hlen
        · refine hnone ⟨d', hnearest'.found, ?_, ?_⟩
          · refine ⟨fun hd => ?_, fun hd => absurd hnearest'.mem hd⟩
            exact absurd (hnearest.longest d' hd hnearest'.found) (Nat.not_le.2 hlt)
          · rintro e (he | he) hpe
            · exact (hnearest.longest e he hpe).trans hlt.le
            · exact hnearest'.longest e he hpe
        · refine hnone ⟨d, hnearest.found, ?_, ?_⟩
          · refine ⟨fun _ hd => ?_, fun _ => hnearest.mem⟩
            exact absurd (hnearest'.longest d hd hnearest.found) (Nat.not_le.2 hlt)
          · rintro e (he | he) hpe
            · exact hnearest.longest e he hpe
            · exact (hnearest'.longest e he hpe).trans hlt.le

end Nearest
end Basis
end LaneBroker
