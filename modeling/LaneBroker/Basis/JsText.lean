/-
# JavaScript strings and values

A JavaScript string is a sequence of 16-bit code units, and nothing keeps a surrogate from
standing alone: what a JSON text escapes as a lone surrogate is a string that no UTF-8 text
spells.  So strings are lists of code units here.  A value read from a JSON text is undefined
(an absent field), a primitive or an object; two values from different texts are never the
same object, so `===` between them is false where either is one.
-/

import Mathlib.Data.Rat.Defs
import Mathlib.Data.List.Basic

namespace LaneBroker
namespace Basis

/-- **A JavaScript string**: its code units. -/
abbrev JsString := List UInt16

instance : LawfulBEq JsString := inferInstance

instance : LawfulBEq (List JsString) := inferInstance

/-- A text as a JavaScript string, in UTF-16. -/
def js (text : String) : JsString :=
  text.toList.flatMap fun c =>
    if c.toNat < 0x10000 then [c.toNat.toUInt16]
    else
      [(0xd800 + (c.toNat - 0x10000) / 0x400).toUInt16,
        (0xdc00 + (c.toNat - 0x10000) % 0x400).toUInt16]

namespace JsString

/-- The code unit of `/`. -/
def slash : UInt16 := 0x2f

/-- `s.split('/')`. -/
def segments (s : JsString) : List JsString := s.splitOn slash

/-- `segs.join('/')`. -/
def joinSegments (segs : List JsString) : JsString := [slash].intercalate segs

/-- `path.isAbsolute(s)`, on a POSIX host. -/
def isAbsolute (s : JsString) : Bool := s.head? = some slash

end JsString

/-- **A value of a parsed JSON text**, an absent field being undefined. -/
inductive JsVal
  | undefined
  | null
  | bool (b : Bool)
  | num (q : Rat)
  /-- A number too large for a double. -/
  | infinite (negative : Bool)
  | str (s : JsString)
  /-- An object or an array. -/
  | obj
  deriving DecidableEq

namespace JsVal

/-- `a === b`, for values of two different JSON texts. -/
def strictEq (a b : JsVal) : Bool := a ≠ .obj ∧ a = b

/-- `!!a`. -/
def truthy : JsVal → Bool
  | undefined | null => false
  | bool b => b
  | num q => q ≠ 0
  | infinite _ | obj => true
  | str s => s ≠ []

/-- `a === true`. -/
def isTrue : JsVal → Bool
  | bool b => b
  | _ => false

/-- `Number.isInteger(a)`, and then the integer. -/
def integer? : JsVal → Option Int
  | num q => if q.den = 1 then some q.num else none
  | _ => none

theorem strictEq_eq_true {a b : JsVal} : a.strictEq b = true ↔ a ≠ .obj ∧ a = b := by
  simp [strictEq]

end JsVal
end Basis
end LaneBroker
