/-
# The names of a lockfile's entries

An entry of `packages` is called by the path at which its package stands: the package that it
stands in is what comes before the last `/node_modules/` of it, and that is a shorter name.
-/

import LaneBroker.Basis.JsText
import Mathlib.Data.List.Infix

namespace LaneBroker
namespace Caches
namespace LockPaths

open LaneBroker.Basis

/-- `node_modules/`. -/
def underModules : JsString := js "node_modules/"

/-- `/node_modules/`. -/
def nestedMark : JsString := JsString.slash :: underModules

/-- **`name.lastIndexOf('/node_modules/')`**, as what stands before it and after it. -/
def lastNested : JsString → Option (JsString × JsString)
  | [] => none
  | u :: rest =>
    match lastNested rest with
    | some (before, after) => some (u :: before, after)
    | none =>
      if nestedMark.isPrefixOf (u :: rest) then
        some ([], (u :: rest).drop nestedMark.length)
      else none

theorem lastNested_eq_some {s before after : JsString} (h : lastNested s = some (before, after)) :
    s = before ++ (nestedMark ++ after) := by
  induction s generalizing before with
  | nil => cases h
  | cons u rest ih =>
    unfold lastNested at h
    cases hrest : lastNested rest with
    | some found =>
      obtain ⟨before', after'⟩ := found
      rw [hrest] at h
      obtain ⟨rfl, rfl⟩ := Prod.mk.inj (Option.some.inj h)
      rw [List.cons_append, ← ih hrest]
    | none =>
      rw [hrest] at h
      simp only at h
      split_ifs at h with hmark
      obtain ⟨rfl, rfl⟩ := Prod.mk.inj (Option.some.inj h)
      rw [List.nil_append]
      exact (List.prefix_iff_eq_append.1 (List.isPrefixOf_iff_prefix.1 hmark)).symm

/-- The methods that every object inherits. -/
def inheritedMethods : List JsString :=
  ["constructor", "__defineGetter__", "__defineSetter__", "hasOwnProperty", "__lookupGetter__",
    "__lookupSetter__", "isPrototypeOf", "propertyIsEnumerable", "toString", "valueOf",
    "toLocaleString"].map js

/-- The order of `sort()`. -/
def inOrder (a b : JsString) : Bool := a ≤ b

end LockPaths
end Caches
end LaneBroker
