/-
# Length-prefixed framing

Several values put one after another can be told apart again when each has its length before it,
in decimal and closed by a colon (`net`): what is framed so is uniquely decodable, whatever the
values hold.
-/

import Mathlib.Data.List.Basic

namespace LaneBroker
namespace Basis
namespace Framing

/-- The byte of `:`. -/
def colon : UInt8 := 0x3a

/-- The byte of a decimal digit. -/
def IsDigit (b : UInt8) : Prop := 0x30 ≤ b ∧ b ≤ 0x39

instance (b : UInt8) : Decidable (IsDigit b) := inferInstanceAs (Decidable (_ ∧ _))

/-- A number in decimal. -/
def decimal (n : Nat) : List UInt8 := (Nat.toDigits 10 n).map fun c => c.toNat.toUInt8

/-- **A value with its length before it.** -/
def net (value : List UInt8) : List UInt8 := decimal value.length ++ colon :: value

/-! ### Decimals -/

theorem decimal_ne_nil (n : Nat) : decimal n ≠ [] := by
  simp [decimal]

theorem toNat_lt_of_isDigit {c : Char} (h : c.isDigit = true) : 0x30 ≤ c.toNat ∧ c.toNat ≤ 0x39 := by
  simpa [Char.isDigit, UInt32.le_iff_toNat_le] using h

theorem isDigit_decimal {n : Nat} : ∀ b ∈ decimal n, IsDigit b := by
  intro b hb
  obtain ⟨c, hc, rfl⟩ := List.mem_map.1 hb
  have hdigit := toNat_lt_of_isDigit (Nat.isDigit_of_mem_toDigits (by decide) (by decide) hc)
  simp [IsDigit, UInt8.le_iff_toNat_le, Nat.toUInt8]
  omega

theorem not_isDigit_colon : ¬ IsDigit colon := by decide

/-- The digits as characters again. -/
theorem map_decimal (n : Nat) :
    (decimal n).map (fun b => Char.ofNat b.toNat) = Nat.toDigits 10 n := by
  rw [decimal, List.map_map, List.map_congr_left, List.map_id]
  intro c hc
  have hdigit := toNat_lt_of_isDigit (Nat.isDigit_of_mem_toDigits (by decide) (by decide) hc)
  have hback : c.toNat.toUInt8.toNat = c.toNat := by
    simp only [Nat.toUInt8, UInt8.toNat_ofNat']
    omega
  simp [Function.comp, hback]

theorem decimal_inj {n m : Nat} (h : decimal n = decimal m) : n = m := by
  have hchars : Nat.toDigits 10 n = Nat.toDigits 10 m := by rw [← map_decimal, h, map_decimal]
  have hn := Nat.ofDigitChars_toDigits (n := n) (b := 10) (by decide) (by decide)
  have hm := Nat.ofDigitChars_toDigits (n := m) (b := 10) (by decide) (by decide)
  rw [← hn, hchars, hm]

/-! ### Values -/

/-- Two lists cut at the first place of an element. -/
theorem cut_inj {α : Type} {x : α} {a a' r r' : List α} (ha : x ∉ a) (ha' : x ∉ a')
    (h : a ++ x :: r = a' ++ x :: r') : a = a' ∧ r = r' := by
  rcases List.append_eq_append_iff.1 h with ⟨c, hc, hr⟩ | ⟨c, hc, hr⟩
  · cases c with
    | nil => simp_all
    | cons y c =>
      obtain ⟨rfl, -⟩ := List.cons_eq_cons.1 hr
      exact absurd (by simp [hc]) ha'
  · cases c with
    | nil => simp_all
    | cons y c =>
      obtain ⟨rfl, -⟩ := List.cons_eq_cons.1 hr
      exact absurd (by simp [hc]) ha

theorem colon_not_mem {digits : List UInt8} (h : ∀ b ∈ digits, IsDigit b) : colon ∉ digits :=
  fun hc => not_isDigit_colon (h colon hc)

/-- **A value is read back from its frame**, whatever follows it. -/
theorem net_inj {v v' r r' : List UInt8} (h : net v ++ r = net v' ++ r') : v = v' ∧ r = r' := by
  unfold net at h
  rw [List.append_assoc, List.append_assoc, List.cons_append, List.cons_append] at h
  obtain ⟨hlen, hrest⟩ :=
    cut_inj (colon_not_mem isDigit_decimal) (colon_not_mem isDigit_decimal) h
  exact List.append_inj hrest (decimal_inj hlen)

theorem net_ne_nil (v : List UInt8) : net v ≠ [] := by simp [net]

/-- **A list of values is read back from its frames.** -/
theorem nets_inj {vs vs' : List (List UInt8)} (h : vs.flatMap net = vs'.flatMap net) :
    vs = vs' := by
  induction vs generalizing vs' with
  | nil =>
    cases vs' with
    | nil => rfl
    | cons v' vs' => simp [net_ne_nil] at h
  | cons v vs ih =>
    cases vs' with
    | nil => simp [net_ne_nil] at h
    | cons v' vs' =>
      obtain ⟨rfl, hrest⟩ := net_inj h
      rw [ih hrest]

end Framing
end Basis
end LaneBroker
