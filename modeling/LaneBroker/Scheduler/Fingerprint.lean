/-
# Fingerprints of settings

`fingerprintOf` of `state.js`: the values that a gate was judged under, each written so that
it can be told where it ends, with bars between them.  A number is written bare, everything
else as its JSON text, and both are JSON texts of their values.  So a fingerprint can be read
from the front, and different values never have the same one (`fingerprintOf_injective`).
-/

import LaneBroker.Basis.Double

namespace LaneBroker
namespace Scheduler
namespace Fingerprint

open LaneBroker.Basis

/-! ### The source -/

/-- A value that a fingerprint is made of. -/
inductive Scalar
  | num (x : Double)
  | str (s : JsString)
  | bool (b : Bool)
  | null

/-- **`encodeFingerprintValue`.** -/
def encodeFingerprintValue : Scalar → JsString
  | .num x => x.text
  | .str s => JsonText.quote s
  | .bool true => js "true"
  | .bool false => js "false"
  | .null => js "null"

/-- The code unit of `|`. -/
def bar : UInt16 := 0x7c

/-- **`fingerprintOf`.** -/
def fingerprintOf (values : List Scalar) : JsString :=
  [bar].intercalate (values.map encodeFingerprintValue)

/-! ### Reading it -/

/-- What is read of a value. -/
def Scalar.json : Scalar → Json
  | num x => .num x.shown
  | str s => .str s
  | bool b => .bool b
  | null => .null

theorem Scalar.json_injective : Function.Injective Scalar.json := by
  intro v w h
  cases v <;> cases w <;> simp_all [Scalar.json, Double.shown_injective.eq_iff]

/-- **A value is read off the front**, where a bar or nothing follows it. -/
theorem value_encode (v : Scalar) {rest : JsString} (hrest : ∀ u ∈ rest.head?, u = bar) :
    JsonText.value 1 (encodeFingerprintValue v ++ rest) = some (v.json, rest) := by
  have hends : JsonText.Ends rest := by
    intro u hu
    rw [hrest u hu]
    decide
  cases v with
  | num x => exact x.value_text hends 0
  | str s => exact (JsonText.written_quote s).reads 1 le_rfl rest hends
  | bool b => cases b <;> rfl
  | null => rfl

/-- What follows the first value of a fingerprint. -/
def rest : List Scalar → JsString
  | [] => []
  | values => bar :: fingerprintOf values

theorem fingerprintOf_cons (v : Scalar) (values : List Scalar) :
    fingerprintOf (v :: values) = encodeFingerprintValue v ++ rest values := by
  cases values with
  | nil => simp [fingerprintOf, rest]
  | cons w values =>
    unfold fingerprintOf rest
    rw [List.map_cons, List.map_cons, List.intercalate_cons_cons]
    simp [fingerprintOf]

theorem value_fingerprintOf (v : Scalar) (values : List Scalar) :
    JsonText.value 1 (fingerprintOf (v :: values)) = some (v.json, rest values) := by
  rw [fingerprintOf_cons]
  refine value_encode v fun u hu => ?_
  cases values with
  | nil => cases hu
  | cons w values => exact (Option.some.inj hu).symm

/-- **A fingerprint says what it was made of.** -/
theorem fingerprintOf_injective : Function.Injective fingerprintOf := by
  have hnothing : JsonText.value 1 (fingerprintOf []) = none := by rfl
  intro values
  induction values with
  | nil =>
    intro values' h
    cases values' with
    | nil => rfl
    | cons v' values' =>
      rw [h, value_fingerprintOf] at hnothing
      cases hnothing
  | cons v values ih =>
    intro values' h
    cases values' with
    | nil =>
      rw [← h, value_fingerprintOf] at hnothing
      cases hnothing
    | cons v' values' =>
      have hread := value_fingerprintOf v values
      rw [h, value_fingerprintOf, Option.some.injEq, Prod.mk.injEq] at hread
      obtain ⟨hvalue, hrest⟩ := hread
      obtain rfl := Scalar.json_injective hvalue
      cases values with
      | nil =>
        cases values' with
        | nil => rfl
        | cons w' values' => cases hrest
      | cons w values =>
        cases values' with
        | nil => cases hrest
        | cons w' values' => rw [ih (List.cons.inj hrest).2.symm]

end Fingerprint
end Scheduler
end LaneBroker
