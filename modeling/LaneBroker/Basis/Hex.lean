/-
# Hexadecimal

Bytes in lower-case hexadecimal, two digits each.  The digits are plain characters, and the bytes
come back from them (`hexText_inj`).
-/

import LaneBroker.Basis.Utf8

namespace LaneBroker
namespace Basis

/-- A hexadecimal digit. -/
def hexDigit (n : Nat) : UInt16 := if n < 10 then (0x30 + n).toUInt16 else (0x57 + n).toUInt16

/-- `digest('hex')` of a hash. -/
def hexText (bytes : List UInt8) : JsString :=
  bytes.flatMap fun b => [hexDigit (b.toNat / 16), hexDigit (b.toNat % 16)]

theorem toNat_hexDigit {n : Nat} (h : n < 16) :
    (hexDigit n).toNat = if n < 10 then 0x30 + n else 0x57 + n := by
  unfold hexDigit
  split_ifs <;> exact Utf8.toNat_unit (by omega)

theorem hexDigit_inj {n m : Nat} (hn : n < 16) (hm : m < 16) (h : hexDigit n = hexDigit m) :
    n = m := by
  have := congrArg UInt16.toNat h
  rw [toNat_hexDigit hn, toNat_hexDigit hm] at this
  split_ifs at this <;> omega

/-- The digits are plain characters. -/
theorem toNat_mem_hexText {bytes : List UInt8} : ∀ u ∈ hexText bytes,
    0x30 ≤ u.toNat ∧ u.toNat < 0x80 := by
  intro u hu
  obtain ⟨b, -, hu⟩ := List.mem_flatMap.1 hu
  have hlt := b.toNat_lt
  simp only [List.mem_cons, List.not_mem_nil, or_false] at hu
  rcases hu with rfl | rfl
  · rw [toNat_hexDigit (by omega)]
    split_ifs <;> omega
  · rw [toNat_hexDigit (by omega)]
    split_ifs <;> omega

theorem hexText_inj {bytes bytes' : List UInt8} (h : hexText bytes = hexText bytes') :
    bytes = bytes' := by
  induction bytes generalizing bytes' with
  | nil =>
    cases bytes' with
    | nil => rfl
    | cons b' bytes' => cases h
  | cons b bytes ih =>
    cases bytes' with
    | nil => cases h
    | cons b' bytes' =>
      have hlt := b.toNat_lt
      have hlt' := b'.toNat_lt
      simp only [hexText, List.flatMap_cons, List.cons_append, List.nil_append,
        List.cons.injEq] at h
      obtain ⟨hhigh, hlow, hrest⟩ := h
      have hh := hexDigit_inj (by omega) (by omega) hhigh
      have hl := hexDigit_inj (by omega) (by omega) hlow
      have hb : b = b' := UInt8.toNat_inj.1 (by omega)
      rw [hb, ih hrest]

end Basis
end LaneBroker
