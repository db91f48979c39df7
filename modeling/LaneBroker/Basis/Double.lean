/-
# The text of a number

A finite double, and the text that `String(x)` and `JSON.stringify(x)` make of it: the fewest
digits from which the double can be told, as an integer, with a point in it or in front, or
with an exponent.

A JSON text of a number is what it says (`JsonText.number`), and the double nearest to what
the text of a double says is that double (`toDouble_shortest`), so that it can be read back,
whatever follows it (`number_text`), and different doubles have different texts
(`shown_injective`).
-/

import LaneBroker.Basis.Json
import LaneBroker.Basis.Rounding

namespace LaneBroker
namespace Basis

/-! ### The numbers -/

/-- The exponent of the doubles around a magnitude: they have 53 bits, and none is below `2 ^
-1074`. -/
def doubleExponent (q : ℚ) : ℤ := max (Int.log 2 q - 52) (-1074)

/-- **The double nearest to a magnitude.** -/
def toDouble (q : ℚ) : ℚ := roundEven (q / 2 ^ doubleExponent q) * 2 ^ doubleExponent q

/-- **A finite double**; its two zeros are one. -/
structure Double where
  value : ℚ
  isDouble : toDouble |value| = |value|
  finite : |value| < 2 ^ 1024

namespace Double

open JsonText

/-- What digits and a power of ten stand for. -/
def decimal (d : ℕ × ℤ) : ℚ := d.1 * 10 ^ d.2

/-- A magnitude in so many digits, if they tell it from the other doubles: the nearer one of the
two decimals around it, or else the other. -/
def withDigits (q : ℚ) (k : ℕ) : Option (ℕ × ℤ) :=
  let j := Int.log 10 q + 1 - k
  let down := ⌊q / 10 ^ j⌋₊
  let near := (roundEven (q / 10 ^ j)).toNat
  let far := if near = down then down + 1 else down
  ([near, far].find? fun s : ℕ => toDouble (decimal (s, j)) = q).map fun s =>
    if s = 10 ^ k then (1, j + k) else (s, j)

/-- All digits of a double. -/
def exactly (q : ℚ) : ℕ × ℤ :=
  let e := doubleExponent q
  let m := (roundEven (q / 2 ^ e)).toNat
  if 0 ≤ e then (m * 2 ^ e.toNat, 0) else (m * 5 ^ (-e).toNat, e)

/-- **The fewest digits** that tell a magnitude from the other doubles.  They are 17 at most, so all
its digits are never asked for. -/
def shortest (q : ℚ) : ℕ × ℤ :=
  ((List.range' 1 17).findSome? (withDigits q)).getD (exactly q)

/-- The digits before the point and after it, and the exponent, where the point belongs behind the
first `n` of the digits. -/
def layout (digits : JsString) (n : ℤ) : JsString × JsString × ℤ :=
  if digits.length ≤ n ∧ n ≤ 21 then
    (digits ++ List.replicate (n - digits.length).toNat 0x30, [], 0)
  else if 0 < n ∧ n ≤ 21 then (digits.take n.toNat, digits.drop n.toNat, 0)
  else if -6 < n ∧ n ≤ 0 then ([0x30], List.replicate (-n).toNat 0x30 ++ digits, 0)
  else (digits.take 1, digits.drop 1, n - 1)

def fractionText (decimals : JsString) : JsString :=
  if decimals = [] then [] else 0x2e :: decimals

def exponentText (power : ℤ) : JsString :=
  if power = 0 then []
  else 0x65 :: (if power < 0 then 0x2d else 0x2b) :: decimalText power.natAbs

/-- A number above zero. -/
def decimalLayout (d : ℕ × ℤ) : JsString :=
  let digits := decimalText d.1
  let parts := layout digits (digits.length + d.2)
  parts.1 ++ (fractionText parts.2.1 ++ exponentText parts.2.2)

/-- **`String(x)`.** -/
def text (x : Double) : JsString :=
  if x.value = 0 then js "0"
  else if x.value < 0 then 0x2d :: decimalLayout (shortest |x.value|)
  else decimalLayout (shortest |x.value|)

/-- What the text says. -/
def shown (x : Double) : ℚ :=
  if x.value = 0 then 0
  else if x.value < 0 then -decimal (shortest |x.value|)
  else decimal (shortest |x.value|)

/-! ### The digits -/

section Shortest

variable {q : ℚ}

theorem decimal_exactly (hnonneg : 0 ≤ q) (h : toDouble q = q) : decimal (exactly q) = q := by
  set e := doubleExponent q with he
  have hpos : (0 : ℚ) < 2 ^ e := by positivity
  have hm : (roundEven (q / 2 ^ e) : ℚ) * 2 ^ e = q := h
  have hround : 0 ≤ roundEven (q / 2 ^ e) := by
    have hle : (0 : ℚ) ≤ roundEven (q / 2 ^ e) := by
      by_contra hneg
      have := mul_neg_of_neg_of_pos (not_le.1 hneg) hpos
      linarith
    exact_mod_cast hle
  have hnat : ((roundEven (q / 2 ^ e)).toNat : ℚ) = roundEven (q / 2 ^ e) := by
    exact_mod_cast Int.toNat_of_nonneg hround
  unfold exactly
  rw [← he]
  by_cases hexp : 0 ≤ e
  · rw [if_pos hexp, decimal]
    have hpower : (2 : ℚ) ^ e.toNat = 2 ^ e := by
      rw [← zpow_natCast, Int.toNat_of_nonneg hexp]
    push_cast
    rw [hnat, hpower, mul_one, hm]
  · rw [if_neg hexp, decimal]
    have hpower : (5 : ℚ) ^ (-e).toNat * 10 ^ e = 2 ^ e := by
      have hfive : (5 : ℚ) ^ (-e).toNat = 5 ^ (-e) := by
        rw [← zpow_natCast, Int.toNat_of_nonneg (by omega)]
      have hten : (10 : ℚ) ^ e = 2 ^ e * 5 ^ e := by
        rw [← mul_zpow]
        norm_num
      rw [hfive, hten, zpow_neg]
      field_simp
    push_cast
    rw [hnat, mul_assoc, hpower, hm]

theorem toDouble_withDigits {k : ℕ} {d : ℕ × ℤ} (h : withDigits q k = some d) :
    toDouble (decimal d) = q := by
  obtain ⟨s, hfound, rfl⟩ := Option.map_eq_some_iff.1 h
  have hs := List.find?_some hfound
  rw [decide_eq_true_eq] at hs
  split
  · next heq =>
    have hsame : decimal (1, Int.log 10 q + 1 - k + k) = decimal (s, Int.log 10 q + 1 - k) := by
      subst heq
      have hten : (10 : ℚ) ≠ 0 := by norm_num
      simp only [decimal, zpow_add₀ hten, zpow_natCast]
      push_cast
      ring
    rw [hsame, hs]
  · exact hs

/-- **The double can be told from its digits.** -/
theorem toDouble_shortest (hnonneg : 0 ≤ q) (h : toDouble q = q) :
    toDouble (decimal (shortest q)) = q := by
  unfold shortest
  cases hfound : (List.range' 1 17).findSome? (withDigits q) with
  | none => rw [Option.getD_none, decimal_exactly hnonneg h, h]
  | some d =>
    obtain ⟨k, -, hk⟩ := List.exists_of_findSome?_eq_some hfound
    exact toDouble_withDigits hk

example : shortest (toDouble (1 / 10)) = (1, -1) := by decide +kernel

example : shortest (toDouble (10 ^ 23)) = (1, 23) := by decide +kernel

theorem shortest_pos (hpos : 0 < q) (h : toDouble q = q) : 0 < (shortest q).1 := by
  refine Nat.pos_of_ne_zero fun hzero => ?_
  have htold := toDouble_shortest hpos.le h
  have hnone : toDouble 0 = 0 := by
    simp [toDouble, roundEven]
  rw [decimal, hzero, Nat.cast_zero, zero_mul, hnone] at htold
  exact hpos.ne htold

end Shortest

/-! ### The text -/

theorem natOf_append_zeros (digits : JsString) (m : ℕ) :
    natOf (digits ++ List.replicate m 0x30) = natOf digits * 10 ^ m := by
  induction m with
  | zero => simp
  | succ m ih =>
    have hzero : (0x30 : UInt16).toNat - 0x30 = 0 := by decide
    unfold natOf at ih ⊢
    rw [List.replicate_succ', ← List.append_assoc, List.foldl_append, ih, List.foldl_cons,
      List.foldl_nil, hzero, pow_succ]
    ring

theorem natOf_zeros_append (m : ℕ) (digits : JsString) :
    natOf (List.replicate m 0x30 ++ digits) = natOf digits := by
  have hzeros := natOf_append_zeros [] m
  have hnil : natOf [] = 0 := rfl
  rw [List.nil_append, hnil, zero_mul] at hzeros
  unfold natOf at hzeros ⊢
  rw [List.foldl_append, hzeros]

theorem fraction_fractionText {decimals rest : JsString} (h : ∀ u ∈ decimals, isDigit u = true)
    (hrest : ∀ u ∈ rest.head?, isDigit u = false ∧ u ≠ 0x2e) :
    fraction (fractionText decimals ++ rest) = some (decimals, rest) := by
  by_cases hnil : decimals = []
  · subst hnil
    cases rest with
    | nil => rfl
    | cons u rest => simp [fractionText, fraction, (hrest u rfl).2]
  · rw [fractionText, if_neg hnil, List.cons_append, fraction, if_pos rfl]
    simp only [span_digits h fun u hu => (hrest u hu).1]
    rw [if_neg hnil]

theorem exponent_exponentText (power : ℤ) {rest : JsString} (hends : Ends rest) :
    exponent (exponentText power ++ rest) = some (power, rest) := by
  by_cases hzero : power = 0
  · subst hzero
    cases rest with
    | nil => rfl
    | cons u rest =>
      obtain ⟨-, -, he, hE⟩ := hends u rfl
      simp [exponentText, exponent, he, hE]
  · have hdigits := isDigit_decimalText power.natAbs
    have hne : decimalText power.natAbs ≠ [] := by
      rw [decimalText]
      simpa using Framing.decimal_ne_nil _
    have hspan := span_digits hdigits fun u hu => (hends u hu).1
    rw [List.span_eq_takeWhile_dropWhile, Prod.mk.injEq] at hspan
    rw [exponentText, if_neg hzero]
    by_cases hneg : power < 0
    · simp [exponent, hneg, hspan, hne, natOf_decimalText, abs_of_neg hneg]
    · have hsign : (0x2b : UInt16) ≠ 0x2d := by decide
      simp [exponent, hneg, hspan, hne, hsign, natOf_decimalText, abs_of_nonneg (not_lt.1 hneg)]

/-- **What is written with a point and an exponent is read back.** -/
theorem number_parts {whole decimals : JsString} (power : ℤ)
    (hwhole : ∀ u ∈ whole, isDigit u = true) (hne : whole ≠ [])
    (hfirst : whole.length = 1 ∨ whole.head? ≠ some 0x30)
    (hdecimals : ∀ u ∈ decimals, isDigit u = true) {rest : JsString} (hends : Ends rest) :
    number (whole ++ (fractionText decimals ++ exponentText power) ++ rest) =
      some ((natOf (whole ++ decimals) : ℚ) * 10 ^ (power - decimals.length), rest) := by
  have hexponent := exponent_exponentText power hends
  have hmark : ∀ u ∈ (exponentText power ++ rest).head?, isDigit u = false ∧ u ≠ 0x2e := by
    intro u hu
    unfold exponentText at hu
    split at hu
    · exact ⟨(hends u hu).1, (hends u hu).2.1⟩
    · obtain rfl := Option.some.inj hu
      decide
  have hfraction := fraction_fractionText hdecimals hmark
  have hpoint : ∀ u ∈ (fractionText decimals ++ (exponentText power ++ rest)).head?,
      isDigit u = false := by
    intro u hu
    unfold fractionText at hu
    split at hu
    · exact (hmark u hu).1
    · obtain rfl := Option.some.inj hu
      decide
  have hspan := span_digits hwhole hpoint
  have hminus : (whole ++ (fractionText decimals ++ exponentText power) ++ rest).head? ≠
      some 0x2d := by
    rw [List.append_assoc, List.head?_append_of_ne_nil _ hne]
    intro h
    exact absurd (hwhole _ (List.mem_of_mem_head? h)) (by decide)
  have hzero : ¬(1 < whole.length ∧ whole.head? = some 0x30) := by
    rintro ⟨hlong, hhead⟩
    obtain hone | hother := hfirst
    · omega
    · exact hother hhead
  rw [List.append_assoc, List.append_assoc] at hminus ⊢
  simp only [number, hminus, if_false, hspan]
  rw [if_neg (by simpa [hne] using hzero), hfraction, Option.bind_some, hexponent]
  simp

/-- **The text of a number above zero is read back.** -/
theorem number_decimalLayout {d : ℕ × ℤ} (hpos : 0 < d.1) {rest : JsString} (hends : Ends rest) :
    number (decimalLayout d ++ rest) = some (decimal d, rest) := by
  obtain ⟨s, j⟩ := d
  have hdigits := isDigit_decimalText s
  have hnat := natOf_decimalText s
  have hhead := head?_decimalText hpos
  have hne : decimalText s ≠ [] := by
    rw [decimalText]
    simpa using Framing.decimal_ne_nil _
  have hlen := List.length_pos_of_ne_nil hne
  have hzeros : ∀ m, ∀ u ∈ List.replicate m (0x30 : UInt16), isDigit u = true := by
    intro m u hu
    rw [List.eq_of_mem_replicate hu]
    decide
  have htake : ∀ n, 0 < n → (decimalText s).take n ≠ [] ∧
      ((decimalText s).take n).head? ≠ some 0x30 := by
    intro n hn
    obtain ⟨u, tail, htext⟩ := List.exists_cons_of_ne_nil hne
    obtain ⟨n, rfl⟩ := Nat.exists_eq_succ_of_ne_zero hn.ne'
    rw [htext] at hhead ⊢
    exact ⟨List.cons_ne_nil _ _, hhead⟩
  unfold decimalLayout layout
  simp only
  generalize hk : (decimalText s).length = k at hlen ⊢
  by_cases hwhole : (k : ℤ) ≤ k + j ∧ (k : ℤ) + j ≤ 21
  · -- an integer, filled up with zeros
    rw [if_pos hwhole]
    have hdrop : ((k : ℤ) + j - k).toNat = j.toNat := by omega
    have hread := @number_parts (decimalText s ++ List.replicate j.toNat 0x30) [] 0
      (by simp only [List.mem_append]; rintro u (hu | hu); exacts [hdigits u hu, hzeros _ u hu])
      (by simp [hne]) (.inr (by rwa [List.head?_append_of_ne_nil _ hne])) (by simp) rest hends
    rw [hdrop, hread, List.append_nil, natOf_append_zeros, hnat]
    have hpower : (10 : ℚ) ^ j.toNat = 10 ^ j := by
      rw [← zpow_natCast, Int.toNat_of_nonneg (by omega)]
    simp [decimal, hpower]
  · rw [if_neg hwhole]
    by_cases hinner : 0 < (k : ℤ) + j ∧ (k : ℤ) + j ≤ 21
    · -- a point between the digits
      rw [if_pos hinner]
      obtain ⟨htaken, hfirst⟩ := htake ((k : ℤ) + j).toNat (by omega)
      have hread := @number_parts ((decimalText s).take ((k : ℤ) + j).toNat)
        ((decimalText s).drop ((k : ℤ) + j).toNat) 0
        (fun u hu => hdigits u (List.mem_of_mem_take hu)) htaken (.inr hfirst)
        (fun u hu => hdigits u (List.mem_of_mem_drop hu)) rest hends
      rw [hread, List.take_append_drop, hnat, List.length_drop, hk]
      have hplaces : (0 : ℤ) - ((k - ((k : ℤ) + j).toNat : ℕ) : ℤ) = j := by omega
      rw [hplaces, decimal]
    · rw [if_neg hinner]
      by_cases hsmall : -6 < (k : ℤ) + j ∧ (k : ℤ) + j ≤ 0
      · -- a point before the digits
        rw [if_pos hsmall]
        have hread := @number_parts [0x30]
          (List.replicate (-((k : ℤ) + j)).toNat 0x30 ++ decimalText s) 0
          (List.forall_mem_singleton.2 rfl) (by simp) (.inl rfl)
          (by simp only [List.mem_append]; rintro u (hu | hu); exacts [hzeros _ u hu, hdigits u hu])
          rest hends
        have hzero : natOf ([0x30] ++ (List.replicate (-((k : ℤ) + j)).toNat 0x30 ++
            decimalText s)) = s := by
          rw [← List.append_assoc]
          exact (natOf_zeros_append (_ + 1) (decimalText s)).trans hnat
        have hplaces : (0 : ℤ) - (((-((k : ℤ) + j)).toNat + k : ℕ) : ℤ) = j := by omega
        rw [hread, hzero, List.length_append, List.length_replicate, hk, hplaces, decimal]
      · -- an exponent
        rw [if_neg hsmall]
        obtain ⟨htaken, hfirst⟩ := htake 1 (by decide)
        have hread := @number_parts ((decimalText s).take 1) ((decimalText s).drop 1)
          ((k : ℤ) + j - 1) (fun u hu => hdigits u (List.mem_of_mem_take hu)) htaken
          (.inr hfirst) (fun u hu => hdigits u (List.mem_of_mem_drop hu)) rest hends
        rw [hread, List.take_append_drop, hnat, List.length_drop, hk]
        have hplaces : (k : ℤ) + j - 1 - ((k - 1 : ℕ) : ℤ) = j := by omega
        rw [hplaces, decimal]

/-- The text of a number above zero begins with a digit. -/
theorem head_decimalLayout {d : ℕ × ℤ} :
    ∃ u tail, decimalLayout d = u :: tail ∧ isDigit u = true := by
  have hne : decimalText d.1 ≠ [] := by
    rw [decimalText]
    simpa using Framing.decimal_ne_nil _
  obtain ⟨u, tail, htext⟩ := List.exists_cons_of_ne_nil hne
  have hu : isDigit u = true := isDigit_decimalText d.1 u (by simp [htext])
  have hzero : isDigit 0x30 = true := by decide
  unfold decimalLayout layout
  simp only [htext]
  split
  · exact ⟨u, _, rfl, hu⟩
  · split
    · next h =>
      obtain ⟨n, hn⟩ := Nat.exists_eq_succ_of_ne_zero
        (n := (((u :: tail).length : ℤ) + d.2).toNat) (by omega)
      simp only [hn]
      exact ⟨u, _, rfl, hu⟩
    · split
      · exact ⟨0x30, _, rfl, hzero⟩
      · exact ⟨u, _, rfl, hu⟩

theorem number_minus {u : UInt16} {tail rest : JsString} {q : ℚ} (hu : isDigit u = true)
    (h : number (u :: tail) = some (q, rest)) :
    number (0x2d :: u :: tail) = some (-q, rest) := by
  have hminus : u ≠ 0x2d := ne_of_isDigit hu rfl
  unfold number at h ⊢
  simp only [List.head?_cons, Option.some.injEq, hminus, if_false, if_true, List.tail_cons] at h ⊢
  split
  · next hnone =>
    rw [if_pos hnone] at h
    cases h
  · next hsome =>
    rw [if_neg hsome] at h
    obtain ⟨decimals, hdecimals, hrest⟩ := Option.bind_eq_some_iff.1 h
    obtain ⟨power, hpower, heq⟩ := Option.map_eq_some_iff.1 hrest
    obtain ⟨rfl, rfl⟩ := Prod.mk.inj heq
    rw [hdecimals, Option.bind_some, hpower]
    simp

/-- **The characters of the texts**: digits, a point, an exponent and signs. -/
theorem mem_text {x : Double} {u : UInt16} (h : u ∈ text x) :
    isDigit u = true ∨ u ∈ [0x2d, 0x2b, 0x2e, 0x65] := by
  have hdecimal : ∀ n, ∀ u ∈ decimalText n, isDigit u = true := isDigit_decimalText
  have hparts : ∀ {digits : JsString} {n : ℤ}, (∀ u ∈ digits, isDigit u = true) →
      ∀ u, u ∈ (layout digits n).1 ∨ u ∈ (layout digits n).2.1 → isDigit u = true := by
    intro digits n hdigits u hu
    have hzero : isDigit 0x30 = true := rfl
    unfold layout at hu
    split_ifs at hu <;> simp only [List.mem_append, List.mem_replicate, List.mem_singleton,
      List.not_mem_nil, or_false] at hu <;>
      grind [List.mem_of_mem_take, List.mem_of_mem_drop]
  have hlayout : ∀ d : ℕ × ℤ, ∀ u ∈ decimalLayout d,
      isDigit u = true ∨ u ∈ ([0x2d, 0x2b, 0x2e, 0x65] : JsString) := by
    intro d u hu
    simp only [decimalLayout, fractionText, exponentText, List.mem_append] at hu
    have hdigits := hparts (n := (decimalText d.1).length + d.2) (hdecimal d.1) u
    rcases hu with hu | hu | hu
    · exact .inl (hdigits (.inl hu))
    · split_ifs at hu
      · cases hu
      · rcases List.mem_cons.1 hu with rfl | hu
        · exact .inr (by decide)
        · exact .inl (hdigits (.inr hu))
    · split_ifs at hu
      · cases hu
      all_goals
        rcases List.mem_cons.1 hu with rfl | hu
        · exact .inr (by decide)
        rcases List.mem_cons.1 hu with rfl | hu
        · exact .inr (by decide)
        · exact .inl (hdecimal _ u hu)
  unfold text at h
  split_ifs at h
  · exact .inl (by rw [List.mem_singleton.1 h]; rfl)
  · rcases List.mem_cons.1 h with rfl | h
    · exact .inr (by decide)
    · exact hlayout _ u h
  · exact hlayout _ u h

/-- **The text of a double is read as what it shows**, whatever follows it. -/
theorem value_text (x : Double) {rest : JsString} (hends : Ends rest) (d : ℕ) :
    JsonText.value (d + 1) (text x ++ rest) = some (.num (shown x), rest) := by
  unfold text shown
  by_cases hzero : x.value = 0
  · rw [if_pos hzero, if_pos hzero]
    have hread := (written_decimalText 0).reads (d + 1) (by omega) rest hends
    have hnull : decimalText 0 = js "0" := by decide
    rw [hnull, Nat.cast_zero] at hread
    exact hread
  · rw [if_neg hzero, if_neg hzero]
    have hpos := shortest_pos (abs_pos.2 hzero) x.isDouble
    have hread := number_decimalLayout hpos hends
    obtain ⟨u, tail, htext, hu⟩ := @head_decimalLayout (shortest |x.value|)
    rw [htext, List.cons_append] at hread
    by_cases hneg : x.value < 0
    · rw [if_pos hneg, if_pos hneg, htext]
      exact value_number (.inr rfl) (number_minus hu hread) d
    · rw [if_neg hneg, if_neg hneg, htext]
      exact value_number (.inl hu) hread d

/-- **A double can be told from what it shows.** -/
theorem shown_injective : Function.Injective shown := by
  have hmagnitude : ∀ x, toDouble |shown x| = |x.value| := by
    intro x
    have hback := toDouble_shortest (abs_nonneg x.value) x.isDouble
    have hnonneg : 0 ≤ decimal (shortest |x.value|) := by
      unfold decimal
      positivity
    unfold shown
    split
    · next hzero =>
      have hdouble := x.isDouble
      rwa [hzero] at hdouble ⊢
    · split
      · rw [abs_neg, abs_of_nonneg hnonneg, hback]
      · rw [abs_of_nonneg hnonneg, hback]
  have hsign : ∀ x, shown x < 0 ↔ x.value < 0 := by
    intro x
    unfold shown
    split
    · next hzero => simp [hzero]
    · next hne =>
      have hpos : 0 < decimal (shortest |x.value|) := by
        have hdigits := shortest_pos (abs_pos.2 hne) x.isDouble
        unfold decimal
        positivity
      split
      · next hneg => simp [hneg, hpos]
      · next hneg => simp [hneg, hpos.le]
  intro x x' h
  have habs : |x.value| = |x'.value| := by rw [← hmagnitude, h, hmagnitude]
  have hneg : x.value < 0 ↔ x'.value < 0 := by rw [← hsign, h, hsign]
  have hvalue : x.value = x'.value := by
    by_cases hx : x.value < 0
    · rw [abs_of_neg hx, abs_of_neg (hneg.1 hx)] at habs
      exact neg_injective habs
    · rwa [abs_of_nonneg (not_lt.1 hx), abs_of_nonneg (not_lt.1 (mt hneg.2 hx))] at habs
  cases x
  cases x'
  congr

/-- **Different doubles have different texts.** -/
theorem text_injective : Function.Injective text := by
  intro x x' h
  have hread := value_text x (show Ends [] from fun u hu => by cases hu) 0
  rw [h, value_text x' (fun u hu => by cases hu)] at hread
  obtain ⟨hnum, -⟩ := Prod.mk.inj (Option.some.inj hread)
  exact shown_injective (Json.num.inj hnum).symm

end Double
end Basis
end LaneBroker
