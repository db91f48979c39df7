/-
# Trees under names that are not told apart

A volume may take several names for one, as one that does not tell `a` from `A`.  A place is
then a list of names as the volume takes them, and what stands there stands under the name it
was made with.  What stands in such a tree stands in a directory (`Closed`), so where nothing
stands nothing stands below, and making the directories above a place leaves a tree of the
same kind in which only they are new.
-/

import Mathlib.Data.List.Infix
import Mathlib.Logic.Function.Basic

namespace LaneBroker
namespace Basis

/-- **What a volume makes of names.** -/
structure Naming (ν : Type) where
  /-- Two names that this takes to one are one. -/
  fold : ν → ν
  /-- How a name reads that something was made with. -/
  stores : ν → ν
  /-- A file that is replaced keeps the name that it stood under. -/
  keepsName : Bool

namespace NamedTree

inductive Kind (β : Type)
  | file (bytes : β)
  | dir
  | link
  | special
  deriving DecidableEq

/-- **What stands at a place**, and under which name. -/
structure Stored (ν β : Type) where
  name : ν
  kind : Kind β
  deriving DecidableEq

end NamedTree

open NamedTree

/-- **What stands where.** -/
abbrev NamedTree (ν β : Type) := List ν → Option (Stored ν β)

namespace NamedTree

variable {ν β : Type} {tree : NamedTree ν β} {loc l : List ν}

/-- There is a directory. -/
def IsDir (tree : NamedTree ν β) (loc : List ν) : Prop := ∃ name, tree loc = some ⟨name, .dir⟩

/-- There is a directory, or place for one. -/
def Clear (tree : NamedTree ν β) (loc : List ν) : Prop := tree loc = none ∨ IsDir tree loc

/-- **The way to a place is clear.** -/
def Reaches (tree : NamedTree ν β) (loc : List ν) : Prop := ∀ l, l <+: loc.dropLast → Clear tree l

/-- **What stands somewhere stands in a directory.** -/
structure Closed (tree : NamedTree ν β) : Prop where
  root : IsDir tree []
  above : ∀ loc n, tree (loc ++ [n]) ≠ none → IsDir tree loc

theorem IsDir.ne_none (h : IsDir tree loc) : tree loc ≠ none := by
  obtain ⟨name, h⟩ := h
  simp [h]

theorem IsDir.clear (h : IsDir tree loc) : Clear tree loc := .inr h

theorem Clear.isDir (h : Clear tree loc) (hne : tree loc ≠ none) : IsDir tree loc :=
  h.resolve_left hne

theorem not_clear_file {name : ν} {bytes : β} (h : tree loc = some ⟨name, .file bytes⟩) :
    ¬Clear tree loc := by
  rintro (hnone | ⟨_, hdir⟩)
  · simp [h] at hnone
  · simp [h] at hdir

theorem IsDir.congr {tree' : NamedTree ν β} (heq : tree loc = tree' loc) (h : IsDir tree loc) :
    IsDir tree' loc := by
  obtain ⟨name, h⟩ := h
  exact ⟨name, heq ▸ h⟩

/-- **Whatever stands below a place stands below a directory.** -/
theorem Closed.dir_above (h : Closed tree) {below : List ν} (hne : below ≠ [])
    (hthere : tree (loc ++ below) ≠ none) : IsDir tree loc := by
  induction below generalizing loc with
  | nil => exact absurd rfl hne
  | cons n below ih =>
    rw [List.append_cons] at hthere
    by_cases hnil : below = []
    · subst hnil
      rw [List.append_nil] at hthere
      exact h.above loc n hthere
    · exact h.above loc n (ih hnil hthere).ne_none

theorem Closed.dir_of_prefix (h : Closed tree) (hl : l <+: loc.dropLast)
    (hthere : tree loc ≠ none) :
    IsDir tree l := by
  obtain ⟨m, hm⟩ := hl
  obtain rfl | hne := eq_or_ne loc []
  · have : l = [] := by simp at hm; exact hm.1
    exact this ▸ h.root
  · obtain ⟨init, n, rfl⟩ := (List.eq_nil_or_concat loc).resolve_left hne
    rw [List.concat_eq_append, List.dropLast_concat] at hm
    subst hm
    have hbelow : m ++ [n] ≠ [] := List.append_ne_nil_of_right_ne_nil m (List.cons_ne_nil n [])
    exact h.dir_above hbelow (by simpa using hthere)

theorem Closed.none_below (h : Closed tree) (hnone : tree loc = none) (below : List ν) :
    tree (loc ++ below) = none := by
  by_cases hnil : below = []
  · simpa [hnil] using hnone
  · by_contra hthere
    exact (h.dir_above hnil hthere).ne_none hnone

variable [DecidableEq ν] (v : Naming ν)

/-- **Making the directories along a path**, where every one that stands is a directory. -/
def makeDirs (tree : NamedTree ν β) : List ν → List ν → NamedTree ν β
  | _, [] => tree
  | loc, n :: names =>
    let here := loc ++ [v.fold n]
    makeDirs
      (if (tree here).isNone then Function.update tree here (some ⟨v.stores n, .dir⟩) else tree)
      here names

variable {v} {names : List ν}

theorem makeDirs_of_ne_none (h : tree l ≠ none) : makeDirs v tree loc names l = tree l := by
  induction names generalizing tree loc with
  | nil => rfl
  | cons n names ih =>
    rw [makeDirs]
    split
    case isTrue hnone =>
      have hne : l ≠ loc ++ [v.fold n] := by
        rintro rfl
        exact h (Option.isNone_iff_eq_none.1 hnone)
      have heq := Function.update_of_ne hne (some ⟨v.stores n, .dir⟩) tree
      rw [ih (by rwa [heq]), heq]
    case isFalse => exact ih h

/-- **Nothing is made beside the path.** -/
theorem makeDirs_elsewhere (h : ∀ p, p <+: names.map v.fold → p ≠ [] → l ≠ loc ++ p) :
    makeDirs v tree loc names l = tree l := by
  induction names generalizing tree loc with
  | nil => rfl
  | cons n names ih =>
    have hne : l ≠ loc ++ [v.fold n] := h [v.fold n] (by simp) (by simp)
    have hrest : ∀ p, p <+: names.map v.fold → p ≠ [] → l ≠ loc ++ [v.fold n] ++ p := by
      intro p hp _
      simpa using h (v.fold n :: p) (by simpa using hp) (by simp)
    rw [makeDirs]
    split
    · rw [ih hrest, Function.update_of_ne hne]
    · exact ih hrest

/-- **Where nothing stood on the path a directory stands.** -/
theorem isDir_makeDirs {p : List ν} (hp : p <+: names.map v.fold) (hne : p ≠ [])
    (h : Clear tree (loc ++ p)) : IsDir (makeDirs v tree loc names) (loc ++ p) := by
  induction names generalizing tree loc p with
  | nil => exact absurd (by simpa using hp) hne
  | cons n names ih =>
    obtain ⟨q, rfl⟩ : ∃ q, p = v.fold n :: q := by
      cases p with
      | nil => exact absurd rfl hne
      | cons m q =>
        rw [List.map_cons, List.cons_prefix_cons] at hp
        exact ⟨q, by rw [hp.1]⟩
    have hq : q <+: names.map v.fold := by simpa using hp
    rw [List.append_cons] at h ⊢
    rw [makeDirs]
    by_cases hnil : q = []
    · subst hnil
      rw [List.append_nil] at h ⊢
      split
      case isTrue hnone =>
        have hhere : IsDir (Function.update tree (loc ++ [v.fold n]) (some ⟨v.stores n, .dir⟩))
            (loc ++ [v.fold n]) := ⟨v.stores n, Function.update_self ..⟩
        exact hhere.congr (makeDirs_of_ne_none hhere.ne_none).symm
      case isFalse hnone =>
        have hhere := h.isDir fun heq => hnone (by simp [heq])
        exact hhere.congr (makeDirs_of_ne_none hhere.ne_none).symm
    · split
      · have hother : loc ++ [v.fold n] ++ q ≠ loc ++ [v.fold n] := by simpa using hnil
        refine ih hq hnil ?_
        rwa [Clear, IsDir, Function.update_of_ne hother]
      · exact ih hq hnil h

/-- **Making directories on a clear way leaves a closed tree.** -/
theorem Closed.makeDirs (h : Closed tree) (hclear : ∀ p, p <+: names.map v.fold → Clear tree p) :
    Closed (makeDirs v tree [] names) where
  root := h.root.congr (makeDirs_of_ne_none h.root.ne_none).symm
  above loc n hthere := by
    by_cases hon : (loc ++ [n]) <+: names.map v.fold
    · have hloc : loc <+: names.map v.fold := (List.prefix_append loc [n]).trans hon
      by_cases hnil : loc = []
      · subst hnil
        exact h.root.congr (makeDirs_of_ne_none h.root.ne_none).symm
      · exact isDir_makeDirs hloc hnil (hclear loc hloc)
    · rw [makeDirs_elsewhere fun p hp _ heq => hon (by simpa [heq] using hp)] at hthere
      have hdir := h.above loc n hthere
      exact hdir.congr (makeDirs_of_ne_none hdir.ne_none).symm

/-- **A file put into a directory leaves a closed tree**, where no directory stands. -/
theorem Closed.put (h : Closed tree) {n name : ν} {bytes : β} (hdir : IsDir tree loc)
    (hnot : ¬IsDir tree (loc ++ [n])) :
    Closed (Function.update tree (loc ++ [n]) (some ⟨name, .file bytes⟩)) where
  root := by
    refine h.root.congr (Function.update_of_ne ?_ ..).symm
    simp
  above m k hthere := by
    have hm : IsDir tree m := by
      by_cases heq : m ++ [k] = loc ++ [n]
      · obtain ⟨rfl, -⟩ := List.append_inj' heq rfl
        exact hdir
      · rw [Function.update_of_ne heq] at hthere
        exact h.above m k hthere
    refine hm.congr (Function.update_of_ne ?_ ..).symm
    rintro rfl
    exact hnot hm

end NamedTree
end Basis
end LaneBroker
