/-
# Rounding to a binary format

A binary floating-point format has so many bits and a least exponent (`Format`).  A number is
rounded to the nearest one of the format, the even one of two (`Format.round`): the doubles of a
program (`double`) and the single-precision columns of a database (`single`).  Overflow is left
out: what is larger than every number of the format is rounded as if the exponents went on.

Rounding keeps the order (`Format.round_mono`), leaves alone what is a multiple of a power of two
that the format can hold beside it (`Format.round_multiple`), and is off by at most half of the
last bit (`Format.abs_round_sub_le`).  A sum of such multiples, added from the left and rounded
each time (`Format.sum`), is the sum wherever it stays below a number of the format
(`Format.sum_multiples`).
-/

import Mathlib.Algebra.Order.BigOperators.Group.List
import Mathlib.Algebra.Order.Field.Power
import Mathlib.Data.Int.Log
import Mathlib.Data.Rat.Floor
import Mathlib.Tactic.FieldSimp
import Mathlib.Tactic.Linarith
import Mathlib.Tactic.Positivity

namespace LaneBroker
namespace Basis

/-! ### The nearest integer -/

/-- The nearest integer, the even one of two. -/
def roundEven (q : ℚ) : ℤ :=
  let down := ⌊q⌋
  if q - down < 1 / 2 ∨ (q - down = 1 / 2 ∧ down % 2 = 0) then down else down + 1

section RoundEven

variable {p q : ℚ}

theorem roundEven_eq_or (q : ℚ) : roundEven q = ⌊q⌋ ∨ roundEven q = ⌊q⌋ + 1 := by
  unfold roundEven
  dsimp only
  split_ifs
  · exact .inl rfl
  · exact .inr rfl

/-- An integer is the nearest one to itself. -/
theorem roundEven_intCast (n : ℤ) : roundEven n = n := by
  simp [roundEven]

/-- The nearest integer is at most one half away. -/
theorem abs_roundEven_sub_le (q : ℚ) : |(roundEven q : ℚ) - q| ≤ 1 / 2 := by
  have hfloor := Int.floor_le q
  have hlt := Int.lt_floor_add_one q
  unfold roundEven
  dsimp only
  split_ifs with hdown
  · have hle : q - ⌊q⌋ ≤ 1 / 2 := by
      rcases hdown with hdown | hdown
      · exact hdown.le
      · exact hdown.1.le
    rw [abs_le]
    constructor <;> linarith
  · have hge : 1 / 2 ≤ q - ⌊q⌋ := not_lt.1 (not_or.1 hdown).1
    push_cast
    rw [abs_le]
    constructor <;> linarith

/-- **The nearest integers are in the order of the numbers.** -/
theorem roundEven_mono (h : p ≤ q) : roundEven p ≤ roundEven q := by
  rcases (Int.floor_mono h).lt_or_eq with hlt | heq
  · have hp : roundEven p ≤ ⌊p⌋ + 1 := by
      rcases roundEven_eq_or p with h | h <;> omega
    have hq : ⌊q⌋ ≤ roundEven q := by
      rcases roundEven_eq_or q with h | h <;> omega
    omega
  · -- between the same two integers: what lies lower is rounded down the sooner
    unfold roundEven
    dsimp only
    rw [heq]
    split_ifs with hp hq
    · exact le_rfl
    · omega
    · exfalso
      rename_i hq
      refine hp ?_
      rcases hq with hq | ⟨hq, heven⟩
      · exact .inl (by linarith)
      · rcases h.lt_or_eq with hlt | rfl
        · exact .inl (by linarith)
        · exact .inr ⟨hq, heven⟩
    · exact le_rfl

end RoundEven

/-! ### The formats -/

/-- **A binary format**: how many bits it has, and its least exponent. -/
structure Format where
  bits : ℕ
  least : ℤ

/-- The doubles. -/
def double : Format := ⟨53, -1074⟩

/-- The numbers of single precision. -/
def single : Format := ⟨24, -149⟩

namespace Format

variable (f : Format)

/-- The exponent of the last bit of the numbers around a magnitude. -/
def exponent (q : ℚ) : ℤ := max (Int.log 2 q - (f.bits - 1)) f.least

/-- The number of the format nearest to a magnitude. -/
def roundAbs (q : ℚ) : ℚ := roundEven (q / 2 ^ f.exponent q) * 2 ^ f.exponent q

/-- **The number of the format nearest to a number.** -/
def round (q : ℚ) : ℚ := if q < 0 then -f.roundAbs (-q) else f.roundAbs q

/-- A sum of two. -/
def add (a b : ℚ) : ℚ := f.round (a + b)

/-- A difference of two. -/
def sub (a b : ℚ) : ℚ := f.round (a - b)

/-- **A sum from the left**, as a loop makes it. -/
def sum (qs : List ℚ) : ℚ := qs.foldl f.add 0

/-! ### Magnitudes -/

section Magnitudes

variable {f : Format} {p q : ℚ}

theorem roundAbs_nonneg (h : 0 ≤ q) : 0 ≤ f.roundAbs q := by
  have hpow : (0 : ℚ) < 2 ^ f.exponent q := by positivity
  have hround : roundEven ((0 : ℤ) : ℚ) ≤ roundEven (q / 2 ^ f.exponent q) := by
    refine roundEven_mono ?_
    push_cast
    positivity
  rw [roundEven_intCast] at hround
  have hcast : (0 : ℚ) ≤ roundEven (q / 2 ^ f.exponent q) := by exact_mod_cast hround
  exact mul_nonneg hcast hpow.le

theorem roundAbs_zero : f.roundAbs 0 = 0 := by
  have hzero : roundEven (0 / 2 ^ f.exponent 0) = 0 := by
    rw [zero_div]
    exact_mod_cast roundEven_intCast 0
  rw [roundAbs, hzero, Int.cast_zero, zero_mul]

/-- A magnitude fills at most all bits of its format. -/
theorem lt_pow_exponent (q : ℚ) : q < 2 ^ (f.exponent q + f.bits) := by
  have hlog : Int.log 2 q + 1 ≤ f.exponent q + f.bits := by
    have := le_max_left (Int.log 2 q - (f.bits - 1)) f.least
    unfold exponent
    omega
  exact (Int.lt_zpow_succ_log_self (by norm_num) q).trans_le
    (zpow_le_zpow_right₀ (by norm_num) hlog)

/-- Above the least exponent a magnitude has its first bit. -/
theorem pow_le_of_least_lt (h : 0 < q) (hlt : f.least < f.exponent q) :
    2 ^ (f.exponent q + f.bits - 1) ≤ q := by
  have hlog : f.exponent q + f.bits - 1 ≤ Int.log 2 q := by
    unfold exponent at hlt ⊢
    omega
  exact (zpow_le_zpow_right₀ (by norm_num) hlog).trans
    (Int.zpow_log_le_self (by norm_num) h)

/-- What is below a power of two of the last bit is not rounded above it. -/
theorem roundAbs_le_of_le {k : ℤ} {n : ℤ} (hk : f.exponent q = k) (h : q ≤ n * 2 ^ k) :
    f.roundAbs q ≤ n * 2 ^ k := by
  have hpow : (0 : ℚ) < 2 ^ k := by positivity
  have hle : roundEven (q / 2 ^ k) ≤ n := by
    rw [← roundEven_intCast n]
    exact roundEven_mono ((div_le_iff₀ hpow).2 h)
  rw [roundAbs, hk]
  exact mul_le_mul_of_nonneg_right (by exact_mod_cast hle) hpow.le

theorem le_roundAbs_of_le {k : ℤ} {n : ℤ} (hk : f.exponent q = k) (h : n * 2 ^ k ≤ q) :
    n * 2 ^ k ≤ f.roundAbs q := by
  have hpow : (0 : ℚ) < 2 ^ k := by positivity
  have hle : n ≤ roundEven (q / 2 ^ k) := by
    rw [← roundEven_intCast n]
    exact roundEven_mono ((le_div_iff₀ hpow).2 h)
  rw [roundAbs, hk]
  exact mul_le_mul_of_nonneg_right (by exact_mod_cast hle) hpow.le

/-- So many bits, from a power of two on, are a power of two. -/
theorem two_pow_mul_zpow (n : ℕ) (k : ℤ) : ((2 ^ n : ℤ) : ℚ) * 2 ^ k = 2 ^ (k + n) := by
  push_cast
  rw [← zpow_natCast, ← zpow_add₀ (by norm_num), add_comm]

/-- A magnitude is not rounded above all bits. -/
theorem roundAbs_le_pow (p : ℚ) : f.roundAbs p ≤ 2 ^ (f.exponent p + f.bits) := by
  rw [← two_pow_mul_zpow]
  refine roundAbs_le_of_le rfl ?_
  rw [two_pow_mul_zpow]
  exact (lt_pow_exponent p).le

/-- **Rounding keeps the order of the magnitudes.** -/
theorem roundAbs_mono (hbits : 0 < f.bits) (hp : 0 ≤ p) (h : p ≤ q) :
    f.roundAbs p ≤ f.roundAbs q := by
  rcases hp.lt_or_eq with hpos | rfl
  · have hlog : Int.log 2 p ≤ Int.log 2 q := Int.log_mono_right hpos h
    have hexp : f.exponent p ≤ f.exponent q := by
      unfold exponent
      omega
    rcases hexp.lt_or_eq with hlt | heq
    · -- a power of two lies between them that both formats have
      have habove : (2 : ℚ) ^ (f.exponent q + f.bits - 1) ≤ f.roundAbs q := by
        have hshift : f.exponent q + f.bits - 1 = f.exponent q + (f.bits - 1 : ℕ) := by omega
        have hleast : f.least < f.exponent q := by
          have := le_max_right (Int.log 2 p - (f.bits - 1)) f.least
          unfold exponent at hlt ⊢
          omega
        have hfirst := pow_le_of_least_lt (hpos.trans_le h) hleast
        rw [hshift, ← two_pow_mul_zpow] at hfirst ⊢
        exact le_roundAbs_of_le rfl hfirst
      exact (roundAbs_le_pow p).trans ((zpow_le_zpow_right₀ (by norm_num) (by omega)).trans habove)
    · unfold roundAbs
      rw [heq]
      have hpow : (0 : ℚ) < 2 ^ f.exponent q := by positivity
      have hround := roundEven_mono (div_le_div_of_nonneg_right h hpow.le)
      exact mul_le_mul_of_nonneg_right (by exact_mod_cast hround) hpow.le
  · rw [roundAbs_zero]
    exact roundAbs_nonneg h

/-- **A multiple of a power of two is not rounded**, where all its bits fit. -/
theorem roundAbs_multiple {k n : ℤ} (hq : 0 ≤ q) (heq : q = n * 2 ^ k) (hk : f.least ≤ k)
    (hlt : q < 2 ^ (k + f.bits)) : f.roundAbs q = q := by
  rcases hq.lt_or_eq with hpos | rfl
  · have hlog : Int.log 2 q < k + f.bits :=
      (Int.lt_zpow_iff_log_lt one_lt_two hpos).1 (by exact_mod_cast hlt)
    have hexp : f.exponent q ≤ k := by
      unfold exponent
      omega
    have hint : q / 2 ^ f.exponent q = ((n * 2 ^ (k - f.exponent q).toNat : ℤ) : ℚ) := by
      rw [div_eq_iff (by positivity)]
      push_cast
      rw [mul_assoc, ← zpow_natCast, ← zpow_add₀ (by norm_num),
        Int.toNat_of_nonneg (sub_nonneg.2 hexp), sub_add_cancel]
      exact heq
    have hround : (roundEven (q / 2 ^ f.exponent q) : ℚ) = q / 2 ^ f.exponent q := by
      rw [hint, roundEven_intCast]
    rw [roundAbs, hround]
    exact div_mul_cancel₀ q (by positivity)
  · exact roundAbs_zero

/-- **A magnitude is rounded by half of its last bit at most.** -/
theorem abs_roundAbs_sub_le (q : ℚ) : |f.roundAbs q - q| ≤ 2 ^ f.exponent q / 2 := by
  have hpow : (0 : ℚ) < 2 ^ f.exponent q := by positivity
  have hoff := abs_roundEven_sub_le (q / 2 ^ f.exponent q)
  have hscaled : f.roundAbs q - q =
      (roundEven (q / 2 ^ f.exponent q) - q / 2 ^ f.exponent q) * 2 ^ f.exponent q := by
    rw [roundAbs]
    field_simp
  rw [hscaled, abs_mul, abs_of_pos hpow]
  calc |(roundEven (q / 2 ^ f.exponent q) : ℚ) - q / 2 ^ f.exponent q| * 2 ^ f.exponent q
      ≤ 1 / 2 * 2 ^ f.exponent q := mul_le_mul_of_nonneg_right hoff hpow.le
    _ = 2 ^ f.exponent q / 2 := by ring

/-- The last bit of a magnitude, beside the magnitude. -/
theorem pow_exponent_le (h : 0 < q) :
    (2 : ℚ) ^ f.exponent q ≤ q * 2 ^ (1 - f.bits : ℤ) + 2 ^ f.least := by
  have hleast : (0 : ℚ) < 2 ^ f.least := by positivity
  have hfirst : (2 : ℚ) ^ (Int.log 2 q - (f.bits - 1)) ≤ q * 2 ^ (1 - f.bits : ℤ) := by
    have hshift : Int.log 2 q - (f.bits - 1) = Int.log 2 q + (1 - f.bits) := by ring
    rw [hshift, zpow_add₀ (by norm_num)]
    exact mul_le_mul_of_nonneg_right (Int.zpow_log_le_self (by norm_num) h) (by positivity)
  unfold exponent
  rcases max_cases (Int.log 2 q - (f.bits - 1)) f.least with ⟨hmax, -⟩ | ⟨hmax, -⟩
  · rw [hmax]
    linarith
  · rw [hmax]
    have : (0 : ℚ) ≤ q * 2 ^ (1 - f.bits : ℤ) := by positivity
    linarith

end Magnitudes

/-! ### Numbers of either sign -/

section Round

variable {f : Format} {p q : ℚ}

theorem round_of_nonneg (h : 0 ≤ q) : f.round q = f.roundAbs q := by
  rw [round, if_neg (not_lt.2 h)]

theorem round_neg (q : ℚ) : f.round (-q) = -f.round q := by
  unfold round
  rcases lt_trichotomy q 0 with h | rfl | h
  · rw [if_neg (by linarith), if_pos h, neg_neg]
  · simp [roundAbs_zero]
  · rw [if_pos (by linarith), if_neg (by linarith), neg_neg]

theorem round_nonneg (h : 0 ≤ q) : 0 ≤ f.round q := by
  rw [round_of_nonneg h]
  exact roundAbs_nonneg h

/-- **Rounding keeps the order.** -/
theorem round_mono (hbits : 0 < f.bits) (h : p ≤ q) : f.round p ≤ f.round q := by
  unfold round
  split_ifs with hp hq
  · exact neg_le_neg (roundAbs_mono hbits (by linarith) (by linarith))
  · have := roundAbs_nonneg (f := f) (q := -p) (by linarith)
    have := roundAbs_nonneg (f := f) (not_lt.1 hq)
    linarith
  · exfalso
    linarith
  · exact roundAbs_mono hbits (not_lt.1 hp) h

/-- **A multiple of a power of two is not rounded**, where all its bits fit. -/
theorem round_multiple {k n : ℤ} (heq : q = n * 2 ^ k) (hk : f.least ≤ k)
    (hlt : |q| < 2 ^ (k + f.bits)) : f.round q = q := by
  unfold round
  split_ifs with hneg
  · rw [abs_of_neg hneg] at hlt
    rw [roundAbs_multiple (n := -n) (by linarith) (by push_cast; rw [heq]; ring) hk hlt, neg_neg]
  · rw [abs_of_nonneg (not_lt.1 hneg)] at hlt
    exact roundAbs_multiple (not_lt.1 hneg) heq hk hlt

/-- **A number is rounded by half of its last bit at most**: a share of the number, or half of the
least bit of the format. -/
theorem abs_round_sub_le (q : ℚ) :
    |f.round q - q| ≤ |q| * 2 ^ (-f.bits : ℤ) + 2 ^ (f.least - 1) := by
  have habs : |f.round q - q| = abs (f.roundAbs |q| - |q|) := by
    unfold round
    split_ifs with hneg
    · have hflip : -f.roundAbs (-q) - q = -(f.roundAbs (-q) - -q) := by ring
      rw [abs_of_neg hneg, hflip, abs_neg]
    · rw [abs_of_nonneg (not_lt.1 hneg)]
  rw [habs]
  rcases (abs_nonneg q).lt_or_eq with hpos | hzero
  · -- the halves of the two parts of the last bit
    have hhalf : (2 : ℚ) ^ (1 - f.bits : ℤ) / 2 = 2 ^ (-f.bits : ℤ) := by
      rw [sub_eq_add_neg, zpow_add₀ (by norm_num), zpow_one]
      ring
    have hleast : (2 : ℚ) ^ f.least / 2 = 2 ^ (f.least - 1) := by
      rw [zpow_sub₀ (by norm_num), zpow_one]
    calc abs (f.roundAbs |q| - |q|) ≤ 2 ^ f.exponent |q| / 2 := abs_roundAbs_sub_le _
      _ ≤ (|q| * 2 ^ (1 - f.bits : ℤ) + 2 ^ f.least) / 2 :=
        div_le_div_of_nonneg_right (pow_exponent_le hpos) (by norm_num)
      _ = |q| * (2 ^ (1 - f.bits : ℤ) / 2) + 2 ^ f.least / 2 := by ring
      _ = |q| * 2 ^ (-f.bits : ℤ) + 2 ^ (f.least - 1) := by rw [hhalf, hleast]
  · rw [← hzero, roundAbs_zero]
    simp
    positivity

end Round

/-! ### Sums -/

/-- A multiple of a power of two. -/
def Multiple (k : ℤ) (q : ℚ) : Prop := ∃ n : ℤ, q = n * 2 ^ k

theorem Multiple.add {k : ℤ} {p q : ℚ} (hp : Multiple k p) (hq : Multiple k q) :
    Multiple k (p + q) := by
  obtain ⟨m, rfl⟩ := hp
  obtain ⟨n, rfl⟩ := hq
  exact ⟨m + n, by push_cast; ring⟩

theorem Multiple.sum {k : ℤ} {qs : List ℚ} (h : ∀ q ∈ qs, Multiple k q) : Multiple k qs.sum := by
  induction qs with
  | nil => exact ⟨0, by simp⟩
  | cons q qs ih =>
    rw [List.sum_cons]
    exact (h q List.mem_cons_self).add (ih fun q hq => h q (List.mem_cons_of_mem _ hq))

section Sums

variable {f : Format} {k : ℤ} {a b c : ℚ} {qs : List ℚ}

/-- A number that is no smaller than a power of two is not rounded below it. -/
theorem le_round_of_le (hbits : 0 < f.bits) (hk : f.least ≤ k) (h : 2 ^ k ≤ a) :
    2 ^ k ≤ f.round a := by
  have hpow : (0 : ℚ) < 2 ^ k := by positivity
  have hself : f.round (2 ^ k) = 2 ^ k := by
    refine round_multiple (k := k) (n := 1) (by simp) hk ?_
    rw [abs_of_pos hpow]
    exact zpow_lt_zpow_right₀ (by norm_num) (by omega)
  rw [← hself]
  exact round_mono hbits h

/-- A sum of multiples is not rounded where all its bits fit. -/
theorem add_multiple (hk : f.least ≤ k) (ha : Multiple k a) (hb : Multiple k b)
    (hlt : |a + b| < 2 ^ (k + f.bits)) : f.add a b = a + b := by
  obtain ⟨n, hn⟩ := ha.add hb
  exact round_multiple hn hk hlt

/-- **A sum of two multiples stays within a number of the format just where it does without
rounding.** -/
theorem add_le_iff (hbits : 0 < f.bits) (hk : f.least ≤ k) (ha : 0 ≤ a ∧ Multiple k a)
    (hb : 0 ≤ b ∧ Multiple k b) (hc : c < 2 ^ (k + f.bits)) : f.add a b ≤ c ↔ a + b ≤ c := by
  rcases lt_or_ge (a + b) (2 ^ (k + f.bits)) with hlt | hge
  · rw [add_multiple hk ha.2 hb.2 (by rwa [abs_of_nonneg (add_nonneg ha.1 hb.1)])]
  · have hleast : f.least ≤ k + f.bits := by omega
    have hadd : 2 ^ (k + f.bits : ℤ) ≤ f.add a b := le_round_of_le hbits hleast hge
    constructor
    · intro hle
      linarith
    · intro hle
      linarith

@[simp] theorem sum_nil : f.sum [] = 0 := rfl

@[simp] theorem sum_singleton (q : ℚ) : f.sum [q] = f.round q := by simp [sum, add]

theorem sum_concat (qs : List ℚ) (q : ℚ) : f.sum (qs ++ [q]) = f.add (f.sum qs) q := by
  rw [sum, List.foldl_append]
  rfl

/-- **A sum of multiples from the left** is their sum, or both outgrow the format beside the
multiples. -/
theorem sum_multiples (hbits : 0 < f.bits) (hk : f.least ≤ k)
    (h : ∀ q ∈ qs, 0 ≤ q ∧ Multiple k q) :
    f.sum qs = qs.sum ∧ qs.sum < 2 ^ (k + f.bits) ∨
      2 ^ (k + f.bits) ≤ f.sum qs ∧ 2 ^ (k + f.bits) ≤ qs.sum := by
  induction qs using List.reverseRecOn with
  | nil => exact .inl ⟨rfl, by simpa using by positivity⟩
  | append_singleton qs q ih =>
    obtain ⟨hq, hmultiple⟩ := h q (by simp)
    have hold : ∀ q ∈ qs, 0 ≤ q ∧ Multiple k q := fun q hq => h q (List.mem_append_left _ hq)
    have hnonneg : 0 ≤ qs.sum := List.sum_nonneg fun q hq => (hold q hq).1
    have hleast : f.least ≤ k + f.bits := by omega
    rw [sum_concat, List.sum_append, List.sum_singleton]
    rcases ih hold with ⟨heq, -⟩ | ⟨hsum, hsum'⟩
    · rw [heq]
      rcases lt_or_ge (qs.sum + q) (2 ^ (k + f.bits)) with hlt | hge
      · refine .inl ⟨add_multiple hk (.sum fun q hq => (hold q hq).2) hmultiple ?_, hlt⟩
        rwa [abs_of_nonneg (add_nonneg hnonneg hq)]
      · exact .inr ⟨le_round_of_le hbits hleast hge, hge⟩
    · exact .inr ⟨le_round_of_le hbits hleast (by linarith), by linarith⟩

/-- **The sum of multiples stays within a number of the format just where it does without
rounding.** -/
theorem sum_le_iff (hbits : 0 < f.bits) (hk : f.least ≤ k)
    (h : ∀ q ∈ qs, 0 ≤ q ∧ Multiple k q) (hc : c < 2 ^ (k + f.bits)) :
    f.sum qs ≤ c ↔ qs.sum ≤ c := by
  rcases sum_multiples hbits hk h with ⟨heq, -⟩ | ⟨hsum, hsum'⟩
  · rw [heq]
  · constructor
    · intro hle
      linarith
    · intro hle
      linarith

/-- One more multiple behind a sum of multiples. -/
theorem add_sum_le_iff (hbits : 0 < f.bits) (hk : f.least ≤ k)
    (h : ∀ q ∈ qs ++ [a], 0 ≤ q ∧ Multiple k q) (hc : c < 2 ^ (k + f.bits)) :
    f.add (f.sum qs) a ≤ c ↔ qs.sum + a ≤ c := by
  rw [← sum_concat, sum_le_iff hbits hk h hc, List.sum_append, List.sum_singleton]

end Sums

/-! ### The numbers of a format -/

section Numbers

variable {f : Format} {a b q : ℚ} {xs ys : List ℚ}

/-- **What was rounded is not rounded again.** -/
theorem round_round (hbits : 0 < f.bits) (q : ℚ) : f.round (f.round q) = f.round q := by
  have habs : ∀ p : ℚ, 0 ≤ p → f.round (f.roundAbs p) = f.roundAbs p := by
    intro p hp
    have hleast : f.least ≤ f.exponent p := le_max_right _ _
    rcases (roundAbs_le_pow (f := f) p).lt_or_eq with hlt | heq
    · refine round_multiple (k := f.exponent p) (n := roundEven (p / 2 ^ f.exponent p)) rfl hleast ?_
      rwa [abs_of_nonneg (roundAbs_nonneg hp)]
    · -- all bits are carried into the next one
      rw [heq]
      refine round_multiple (k := f.exponent p + f.bits) (n := 1) (by simp) (by omega) ?_
      rw [abs_of_pos (by positivity)]
      exact zpow_lt_zpow_right₀ (by norm_num) (by omega)
  rcases le_or_gt 0 q with hq | hq
  · rw [round_of_nonneg hq, habs q hq]
  · have hflip : f.round q = -f.roundAbs (-q) := by rw [round, if_pos hq]
    rw [hflip, round_neg, habs (-q) (by linarith)]

/-- **What fits a format fits a wider one.** -/
theorem round_wider {g : Format} (hbits : f.bits < g.bits) (hleast : g.least ≤ f.least) (q : ℚ) :
    g.round (f.round q) = f.round q := by
  have habs : ∀ p : ℚ, 0 ≤ p → g.round (f.roundAbs p) = f.roundAbs p := by
    intro p hp
    refine round_multiple (k := f.exponent p) (n := roundEven (p / 2 ^ f.exponent p)) rfl
      (hleast.trans (le_max_right _ _)) ?_
    rw [abs_of_nonneg (roundAbs_nonneg hp)]
    exact (roundAbs_le_pow p).trans_lt (zpow_lt_zpow_right₀ (by norm_num) (by omega))
  rcases le_or_gt 0 q with hq | hq
  · rw [round_of_nonneg hq, habs q hq]
  · have hflip : f.round q = -f.roundAbs (-q) := by rw [round, if_pos hq]
    rw [hflip, round_neg, habs (-q) (by linarith)]

/-- **A sum of fewer numbers that are not negative is no larger.** -/
theorem sum_le_of_sublist (hbits : 0 < f.bits) (h : xs.Sublist ys) (hys : ∀ q ∈ ys, 0 ≤ q) :
    f.sum xs ≤ f.sum ys := by
  have hfolds : ∀ a b : ℚ, f.round a = a → a ≤ b → xs.foldl f.add a ≤ ys.foldl f.add b := by
    induction h with
    | slnil => exact fun _ _ _ hle => hle
    | cons y _ ih =>
      intro a b ha hle
      have hy := hys y List.mem_cons_self
      refine ih (fun q hq => hys q (List.mem_cons_of_mem _ hq)) a _ ha ?_
      rw [← ha]
      exact round_mono hbits (by linarith)
    | cons_cons y _ ih =>
      intro a b ha hle
      exact ih (fun q hq => hys q (List.mem_cons_of_mem _ hq)) _ _ (round_round hbits _)
        (round_mono hbits (by linarith))
  exact hfolds 0 0 (by rw [round_of_nonneg le_rfl, roundAbs_zero]) le_rfl

/-- A sum of numbers that are not negative is not negative. -/
theorem sum_nonneg (h : ∀ q ∈ xs, 0 ≤ q) : 0 ≤ f.sum xs :=
  List.foldlRecOn (motive := fun sum : ℚ => 0 ≤ sum) xs f.add le_rfl fun _ hsum q hq =>
    round_nonneg (Rat.add_nonneg hsum (h q hq))

/-- A number of the format is a multiple of its last bit, which lies no higher than a power of two
that the number does not reach with all bits. -/
theorem exists_multiple {k : ℤ} (hround : f.round a = a) (hpos : 0 < a) (hk : f.least ≤ k)
    (hlt : a < 2 ^ (k + f.bits)) :
    ∃ j, f.least ≤ j ∧ j ≤ k ∧ Multiple j a ∧ a < 2 ^ (j + f.bits) := by
  have hlog : Int.log 2 a < k + f.bits :=
    (Int.lt_zpow_iff_log_lt (by norm_num) hpos).1 (by exact_mod_cast hlt)
  have hexponent : f.exponent a ≤ k := by
    unfold exponent
    omega
  refine ⟨f.exponent a, le_max_right _ _, hexponent, ⟨roundEven (a / 2 ^ f.exponent a), ?_⟩,
    lt_pow_exponent a⟩
  conv_lhs => rw [← hround, round_of_nonneg hpos.le]
  rfl

theorem Multiple.finer {j k : ℤ} (h : Multiple k q) (hle : j ≤ k) : Multiple j q := by
  obtain ⟨n, rfl⟩ := h
  refine ⟨n * 2 ^ (k - j).toNat, ?_⟩
  have hsplit := two_pow_mul_zpow (k - j).toNat j
  rw [Int.toNat_of_nonneg (by omega), add_sub_cancel] at hsplit
  rw [← hsplit]
  push_cast
  ring

/-- **What fits into the difference adds up within the number**, if the other part is a multiple
that the format can hold beside it. -/
theorem add_le_of_le_sub {k : ℤ} (hround : f.round c = c) (hk : f.least ≤ k)
    (hlt : c < 2 ^ (k + f.bits)) (ha : 0 ≤ a) (hmultiple : Multiple k a) (hac : a ≤ c)
    (hb : b ≤ f.sub c a) : a + b ≤ c := by
  rcases (ha.trans hac).lt_or_eq with hpos | rfl
  · obtain ⟨j, hj, hjk, ⟨m, hm⟩, hcj⟩ := exists_multiple hround hpos hk hlt
    obtain ⟨n, hn⟩ := hmultiple.finer hjk
    have hexact : f.sub c a = c - a := by
      refine round_multiple (k := j) (n := m - n) ?_ hj ?_
      · rw [hm, hn]
        push_cast
        ring
      · rw [abs_of_nonneg (by linarith)]
        linarith
    rw [hexact] at hb
    linarith
  · obtain rfl : a = 0 := le_antisymm hac ha
    have hzero : f.sub 0 0 = 0 := by rw [sub, sub_zero, hround]
    linarith

end Numbers

end Format

end Basis
end LaneBroker
