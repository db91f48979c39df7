/-
# CRC-32

The checksum bit by bit: the remainder, reflected, of the message by the polynomial `0xedb88320`,
with both ends inverted.  One shift is linear in exclusive or (`shift_xor`), and from a word whose
low byte is clear eight shifts only move it down (`shifts_of_low_clear`); so eight shifts of a word
come to those of its low byte, from a table say, and the rest moved down (`shifts_eq`).
-/

import Mathlib.Data.BitVec
import Mathlib.Tactic.IntervalCases

namespace LaneBroker
namespace Basis
namespace Crc32

/-- The polynomial, reflected. -/
def polynomial : BitVec 32 := 0xedb88320#32

/-- **One bit.** -/
def shift (c : BitVec 32) : BitVec 32 :=
  if c.getLsbD 0 then polynomial ^^^ (c >>> 1) else c >>> 1

/-- So many bits. -/
def shifts : ℕ → BitVec 32 → BitVec 32
  | 0, c => c
  | n + 1, c => shifts n (shift c)

/-- A byte, into the remainder. -/
def byte (c : BitVec 32) (b : UInt8) : BitVec 32 := shifts 8 (c ^^^ b.toBitVec.setWidth 32)

/-- **The checksum.** -/
def crc32 (bytes : List UInt8) : BitVec 32 := ~~~ bytes.foldl byte (BitVec.allOnes 32)

theorem shift_xor (x y : BitVec 32) : shift (x ^^^ y) = shift x ^^^ shift y := by
  have hcancel : ∀ p a b : BitVec 32, p ^^^ a ^^^ (p ^^^ b) = a ^^^ b := by
    intro p a b
    rw [BitVec.xor_comm p a, BitVec.xor_assoc, ← BitVec.xor_assoc p p b, BitVec.xor_self,
      BitVec.zero_xor]
  unfold shift
  rw [BitVec.getLsbD_xor, BitVec.ushiftRight_xor_distrib]
  cases x.getLsbD 0 <;> cases y.getLsbD 0
  · rfl
  · show polynomial ^^^ (x >>> 1 ^^^ y >>> 1) = x >>> 1 ^^^ (polynomial ^^^ y >>> 1)
    rw [← BitVec.xor_assoc, BitVec.xor_comm polynomial, BitVec.xor_assoc]
  · show polynomial ^^^ (x >>> 1 ^^^ y >>> 1) = polynomial ^^^ x >>> 1 ^^^ y >>> 1
    rw [BitVec.xor_assoc]
  · show x >>> 1 ^^^ y >>> 1 = polynomial ^^^ x >>> 1 ^^^ (polynomial ^^^ y >>> 1)
    rw [hcancel]

theorem shifts_xor (n : ℕ) (x y : BitVec 32) : shifts n (x ^^^ y) = shifts n x ^^^ shifts n y := by
  induction n generalizing x y with
  | zero => rfl
  | succ n ih => rw [shifts, shifts, shifts, shift_xor, ih]

/-- **A word with a clear end only moves down.** -/
theorem shifts_of_low_clear (n : ℕ) {x : BitVec 32} (h : ∀ i < n, x.getLsbD i = false) :
    shifts n x = x >>> n := by
  induction n generalizing x with
  | zero => exact (BitVec.ushiftRight_zero x).symm
  | succ n ih =>
    have hshift : shift x = x >>> 1 := if_neg (by rw [h 0 (by omega)]; exact Bool.false_ne_true)
    rw [shifts, hshift, ih fun i hi => ?_, ← BitVec.shiftRight_add, Nat.add_comm]
    rw [BitVec.getLsbD_ushiftRight]
    exact h (1 + i) (by omega)

/-- The low byte and the rest. -/
theorem low_xor_high (x : BitVec 32) : x = (x &&& 0xff#32) ^^^ (x &&& ~~~0xff#32) := by
  refine BitVec.eq_of_getLsbD_eq fun i hi => ?_
  rw [BitVec.getLsbD_xor, BitVec.getLsbD_and, BitVec.getLsbD_and, BitVec.getLsbD_not]
  cases x.getLsbD i <;> cases (0xff#32).getLsbD i <;> simp [hi]

theorem getLsbD_low_mask {i : ℕ} (h : i < 32) : (0xff#32).getLsbD i = decide (i < 8) := by
  interval_cases i <;> rfl

/-- **Eight shifts**: those of the low byte, and the rest moved down. -/
theorem shifts_eq (x : BitVec 32) : shifts 8 x = shifts 8 (x &&& 0xff#32) ^^^ (x >>> 8) := by
  have hclear : ∀ i < 8, (x &&& ~~~0xff#32).getLsbD i = false := by
    intro i hi
    rw [BitVec.getLsbD_and, BitVec.getLsbD_not, getLsbD_low_mask (by omega), decide_eq_true hi]
    simp
  have hmoved : (x &&& ~~~0xff#32) >>> 8 = x >>> 8 := by
    refine BitVec.eq_of_getLsbD_eq fun i hi => ?_
    rw [BitVec.getLsbD_ushiftRight, BitVec.getLsbD_ushiftRight, BitVec.getLsbD_and,
      BitVec.getLsbD_not]
    by_cases hin : 8 + i < 32
    · rw [getLsbD_low_mask hin]
      simp [hin]
    · rw [BitVec.getLsbD_of_ge x (8 + i) (by omega), Bool.false_and]
  conv_lhs => rw [low_xor_high x]
  rw [shifts_xor, shifts_of_low_clear 8 hclear, hmoved]

end Crc32
end Basis
end LaneBroker
