/-
# Strings and numbers in a JSON text

What `JSON.stringify` writes for a string: a character that stands for something else in a JSON
text, a control character and a surrogate that stands alone are written as escapes, every other one
as it is.  So the text of any string is well-formed (`wellFormed_quote`), and it can be read back,
whatever follows it: what is read from a text is determined (`Reads.unique`), and from the text of a
string it is that string (`quote_reads`, `quote_inj`).  The text of a number ends where no digit
follows (`decimalText_inj`).
-/

import LaneBroker.Basis.Framing
import LaneBroker.Basis.Hex
import Mathlib.Data.List.Nodup

namespace LaneBroker
namespace Basis
namespace JsonText

open Utf8

/-- The code unit of `"`. -/
def quoteMark : UInt16 := 0x22

/-- The code unit of the backslash. -/
def backslash : UInt16 := 0x5c

/-- A code unit as `\u` and four digits. -/
def unicodeEscape (u : UInt16) : JsString :=
  [backslash, 0x75, hexDigit (u.toNat / 0x1000), hexDigit (u.toNat / 0x100 % 0x10),
    hexDigit (u.toNat / 0x10 % 0x10), hexDigit (u.toNat % 0x10)]

/-- The escapes of one character, and the code units they stand for. -/
def shortEscapes : List (UInt16 × UInt16) :=
  [(0x62, 0x08), (0x74, 0x09), (0x6e, 0x0a), (0x66, 0x0c), (0x72, 0x0d), (quoteMark, quoteMark),
    (backslash, backslash)]

/-- A code unit that is no half of a pair. -/
def escape (u : UInt16) : JsString :=
  match shortEscapes.find? fun e => e.2 = u with
  | some e => [backslash, e.1]
  | none => if u < 0x20 ∨ isHigh u ∨ isLow u then unicodeEscape u else [u]

/-- The text of a string, without the marks. -/
def quoteBody : JsString → JsString
  | [] => []
  | [u] => escape u
  | u :: v :: rest =>
    if isHigh u && isLow v then u :: v :: quoteBody rest else escape u ++ quoteBody (v :: rest)

/-- **The text of a string.** -/
def quote (s : JsString) : JsString := quoteMark :: (quoteBody s ++ [quoteMark])

/-- **The text of a natural number.** -/
def decimalText (n : ℕ) : JsString := (Framing.decimal n).map fun b => b.toNat.toUInt16

/-! ### Reading a string -/

/-- **What stands at the head of a text**, inside a string: a code unit, and what follows it. -/
inductive Head : JsString → UInt16 → JsString → Prop
  | plain {u : UInt16} {rest : JsString} : u ≠ quoteMark → u ≠ backslash → Head (u :: rest) u rest
  | short {c u : UInt16} {rest : JsString} : (c, u) ∈ shortEscapes →
      Head (backslash :: c :: rest) u rest
  | unicode {u : UInt16} {rest : JsString} : Head (unicodeEscape u ++ rest) u rest

/-- **A text inside a string, the string that is read from it, and what follows the mark that closes
it.** -/
inductive Reads : JsString → JsString → JsString → Prop
  | close (rest : JsString) : Reads (quoteMark :: rest) [] rest
  | unit {text after s rest : JsString} {u : UInt16} : Head text u after → Reads after s rest →
      Reads text (u :: s) rest

theorem unicodeEscape_inj {u v : UInt16} {r r' : JsString}
    (h : unicodeEscape u ++ r = unicodeEscape v ++ r') : u = v ∧ r = r' := by
  have hu := u.toNat_lt
  have hv := v.toNat_lt
  simp only [unicodeEscape, List.cons_append, List.nil_append, List.cons.injEq, true_and] at h
  obtain ⟨h₁, h₂, h₃, h₄, hrest⟩ := h
  have e₁ := hexDigit_inj (by omega) (by omega) h₁
  have e₂ := hexDigit_inj (by omega) (by omega) h₂
  have e₃ := hexDigit_inj (by omega) (by omega) h₃
  have e₄ := hexDigit_inj (by omega) (by omega) h₄
  exact ⟨UInt16.toNat_inj.1 (by omega), hrest⟩

theorem short_unique {c u v : UInt16} (h : (c, u) ∈ shortEscapes) (h' : (c, v) ∈ shortEscapes) :
    u = v := by
  have hnodup : (shortEscapes.map Prod.fst).Nodup := by decide
  exact congrArg Prod.snd (List.inj_on_of_nodup_map hnodup h h' rfl)

/-- No short escape has the letter of the escapes with digits. -/
theorem not_short_unicode (u : UInt16) : (0x75, u) ∉ shortEscapes := by
  intro h
  have hmem : (0x75 : UInt16) ∈ shortEscapes.map Prod.fst := List.mem_map_of_mem h
  revert hmem
  decide

/-- **The head of a text is determined.** -/
theorem Head.unique {text rest rest' : JsString} {u v : UInt16} (h : Head text u rest)
    (h' : Head text v rest') : u = v ∧ rest = rest' := by
  cases h with
  | plain _ hslash =>
    cases h' with
    | plain => exact ⟨rfl, rfl⟩
    | short => exact absurd rfl hslash
    | unicode => exact absurd rfl hslash
  | short hmem =>
    cases h' with
    | plain _ hslash => exact absurd rfl hslash
    | short hmem' => exact ⟨short_unique hmem hmem', rfl⟩
    | unicode => exact absurd hmem (not_short_unicode u)
  | unicode =>
    generalize htext : unicodeEscape u ++ rest = text at h'
    cases h' with
    | plain _ hslash =>
      obtain ⟨rfl, -⟩ := List.cons.inj htext
      exact absurd rfl hslash
    | @short c v _ hmem' =>
      simp only [unicodeEscape, List.cons_append, List.cons.injEq] at htext
      obtain ⟨-, rfl, -⟩ := htext
      exact absurd hmem' (not_short_unicode v)
    | unicode => exact unicodeEscape_inj htext

/-- No head is the mark that closes a string. -/
theorem Head.not_quoteMark {rest after : JsString} {u : UInt16} :
    ¬ Head (quoteMark :: rest) u after := by
  intro h
  generalize htext : quoteMark :: rest = text at h
  cases h with
  | plain hquote => exact hquote (List.cons.inj htext).1.symm
  | short | unicode => exact absurd (List.cons.inj htext).1 (by decide)

/-- **What is read from a text is determined.** -/
theorem Reads.unique {text s s' rest rest' : JsString} (h : Reads text s rest)
    (h' : Reads text s' rest') : s = s' ∧ rest = rest' := by
  induction h generalizing s' rest' with
  | close rest =>
    cases h' with
    | close => exact ⟨rfl, rfl⟩
    | unit hhead => exact absurd hhead Head.not_quoteMark
  | unit hhead _ ih =>
    cases h' with
    | close => exact absurd hhead Head.not_quoteMark
    | unit hhead' hrest' =>
      obtain ⟨rfl, rfl⟩ := hhead.unique hhead'
      obtain ⟨rfl, rfl⟩ := ih hrest'
      exact ⟨rfl, rfl⟩

/-! ### What is written is read -/

theorem escape_head (u : UInt16) (rest : JsString) : Head (escape u ++ rest) u rest := by
  unfold escape
  split
  · next e hfind =>
    have hu : e.2 = u := by simpa using List.find?_some hfind
    exact .short (hu ▸ List.mem_of_find?_eq_some hfind)
  · next hfind =>
    split
    · exact .unicode
    · have hall := List.find?_eq_none.1 hfind
      refine .plain (fun hq => ?_) (fun hb => ?_)
      · exact hall (quoteMark, quoteMark) (by decide) (by simp [hq])
      · exact hall (backslash, backslash) (by decide) (by simp [hb])

/-- **A string is read from its text.** -/
theorem quote_reads (s rest : JsString) :
    Reads (quoteBody s ++ quoteMark :: rest) s rest := by
  fun_induction quoteBody s with
  | case1 => exact .close rest
  | case2 u => exact .unit (escape_head u _) (.close rest)
  | case3 u v tail hpair ih =>
    obtain ⟨hhigh, hlow⟩ := Bool.and_eq_true_iff.1 hpair
    rw [isHigh_iff] at hhigh
    rw [isLow_iff] at hlow
    have hne : ∀ w x : UInt16, w.toNat < 0xd800 → 0xd800 ≤ x.toNat → x ≠ w := by
      rintro w _ hw hx rfl
      omega
    have hu : Head (u :: v :: (quoteBody tail ++ quoteMark :: rest)) u _ :=
      .plain (hne _ _ (by decide) hhigh.1) (hne _ _ (by decide) hhigh.1)
    have hv : Head (v :: (quoteBody tail ++ quoteMark :: rest)) v _ :=
      .plain (hne _ _ (by decide) (by omega)) (hne _ _ (by decide) (by omega))
    exact .unit hu (.unit hv ih)
  | case4 u v tail _ ih =>
    rw [List.append_assoc]
    exact .unit (escape_head u _) ih

/-- **The text of a string, and what follows it, can be told.** -/
theorem quote_inj {s s' r r' : JsString} (h : quote s ++ r = quote s' ++ r') :
    s = s' ∧ r = r' := by
  have hbody : quoteBody s ++ quoteMark :: r = quoteBody s' ++ quoteMark :: r' := by
    simpa [quote] using h
  exact (quote_reads s r).unique (hbody ▸ quote_reads s' r')

/-! ### Numbers -/

theorem not_mem_decimalText {n : ℕ} {c : UInt16} (h : c.toNat < 0x30 ∨ 0x39 < c.toNat) :
    c ∉ decimalText n := by
  intro hmem
  obtain ⟨b, hb, rfl⟩ := List.mem_map.1 hmem
  obtain ⟨hlow, hhigh⟩ := Framing.isDigit_decimal b hb
  rw [UInt8.le_iff_toNat_le] at hlow hhigh
  rw [toNat_unit (by have hlt := b.toNat_lt; omega)] at h
  have hlow : 0x30 ≤ b.toNat := hlow
  have hhigh : b.toNat ≤ 0x39 := hhigh
  omega

/-- **The text of a number ends before a character that is no digit.** -/
theorem decimalText_inj {n m : ℕ} {c : UInt16} {r r' : JsString}
    (hc : c.toNat < 0x30 ∨ 0x39 < c.toNat)
    (h : decimalText n ++ c :: r = decimalText m ++ c :: r') : n = m ∧ r = r' := by
  obtain ⟨htext, hrest⟩ := Framing.cut_inj (not_mem_decimalText hc) (not_mem_decimalText hc) h
  have hunit : Function.Injective fun b : UInt8 => b.toNat.toUInt16 := by
    intro b b' hb
    have hnat := congrArg UInt16.toNat hb
    have hlt := b.toNat_lt
    have hlt' := b'.toNat_lt
    rw [toNat_unit (by omega), toNat_unit (by omega)] at hnat
    exact UInt8.toNat_inj.1 hnat
  exact ⟨Framing.decimal_inj (hunit.list_map htext), hrest⟩

/-! ### The texts are well-formed -/

theorem wellFormed_unicodeEscape (u : UInt16) : WellFormed (unicodeEscape u) := by
  refine wellFormed_of_lt fun x hx => ?_
  have hu := u.toNat_lt
  simp only [unicodeEscape, List.mem_cons, List.not_mem_nil, or_false] at hx
  rcases hx with rfl | rfl | rfl | rfl | rfl | rfl
  · decide
  · decide
  all_goals
    rw [toNat_hexDigit (by omega)]
    split_ifs <;> omega

theorem wellFormed_escape (u : UInt16) : WellFormed (escape u) := by
  unfold escape
  split
  · next e hfind =>
    have hall : (shortEscapes.all fun e => noSurrogate [backslash, e.1]) = true := rfl
    exact wellFormed_of_noSurrogate (List.all_eq_true.1 hall e (List.mem_of_find?_eq_some hfind))
  · split
    · exact wellFormed_unicodeEscape u
    · next hplain =>
      have hlt := u.toNat_lt
      have hscalar : IsScalar u.toNat := by
        rw [not_or, not_or, isHigh_iff, isLow_iff] at hplain
        unfold IsScalar
        omega
      refine ⟨[u.toNat], by simpa using hscalar, ?_⟩
      simp [codeUnits, show u.toNat < 0x10000 from hlt]

theorem wellFormed_quoteBody (s : JsString) : WellFormed (quoteBody s) := by
  fun_induction quoteBody s with
  | case1 => exact wellFormed_nil
  | case2 u => exact wellFormed_escape u
  | case3 u v tail hpair ih =>
    obtain ⟨hhigh, hlow⟩ := Bool.and_eq_true_iff.1 hpair
    rw [isHigh_iff] at hhigh
    rw [isLow_iff] at hlow
    -- the pair is the one of a character beyond the first plane
    have hunits : codeUnits (0x10000 + ((u.toNat - 0xd800) * 0x400 + (v.toNat - 0xdc00))) =
        [u, v] := by
      rw [codeUnits, if_neg (by omega), List.cons.injEq, List.cons.injEq]
      refine ⟨UInt16.toNat_inj.1 ?_, UInt16.toNat_inj.1 ?_, rfl⟩
      · rw [toNat_unit (by omega)]
        omega
      · rw [toNat_unit (by omega)]
        omega
    have hpair : WellFormed [u, v] := by
      refine ⟨[_], List.forall_mem_singleton.2 ?_, by simp [← hunits]; rfl⟩
      unfold IsScalar
      omega
    exact hpair.append ih
  | case4 u v tail _ ih => exact (wellFormed_escape u).append ih

/-- **The text of a string is well-formed**, also where the string is not. -/
theorem wellFormed_quote (s : JsString) : WellFormed (quote s) := by
  have hmark : WellFormed [quoteMark] := wellFormed_of_noSurrogate rfl
  exact hmark.append ((wellFormed_quoteBody s).append hmark)

theorem wellFormed_decimalText (n : ℕ) : WellFormed (decimalText n) := by
  refine wellFormed_of_lt fun x hx => ?_
  obtain ⟨b, -, rfl⟩ := List.mem_map.1 hx
  have hlt := b.toNat_lt
  rw [toNat_unit (by omega)]
  omega

end JsonText
end Basis
end LaneBroker
