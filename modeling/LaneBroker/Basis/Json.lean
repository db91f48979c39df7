/-
# Reading a JSON text

`JSON.parse` as a recursive descent over the text, and what it makes of texts that
`JSON.stringify` writes: strings and natural numbers (`JsonText`), and objects and arrays of
what can be read back, can be read back, whatever follows them (`Written`).  A number is what
its text says, not the double nearest to it.
-/

import LaneBroker.Basis.JsonText
import Mathlib.Algebra.Field.Rat
import Mathlib.Data.List.TakeDrop

namespace LaneBroker
namespace Basis

/-- **A JSON value.** -/
inductive Json
  | null
  | bool (b : Bool)
  | num (q : ℚ)
  | str (s : JsString)
  | arr (items : List Json)
  | obj (members : List (JsString × Json))

namespace Json

/-- What is seen of a value without looking into it. -/
def val : Json → JsVal
  | null => .null
  | bool b => .bool b
  | num q => .num q
  | str s => .str s
  | arr _ => .obj
  | obj _ => .obj

/-- `v?.[name]`: of several members of one name the last. -/
def member (v : Json) (name : JsString) : Option Json :=
  match v with
  | obj members => ((members.filter fun m => m.1 = name).getLast?).map Prod.snd
  | _ => none

/-- The same, with a member that is not there undefined. -/
def field (v : Json) (name : JsString) : JsVal := ((v.member name).map val).getD .undefined

end Json

namespace JsonText

open Utf8

/-! ### The source -/

def isSpace (u : UInt16) : Bool := u = 0x20 || u = 0x09 || u = 0x0a || u = 0x0d

/-- What follows the space at the head of a text. -/
def skip (text : JsString) : JsString := text.dropWhile isSpace

def isDigit (u : UInt16) : Bool := 0x30 ≤ u && u ≤ 0x39

def hexValue (u : UInt16) : Option ℕ :=
  if isDigit u then some (u.toNat - 0x30)
  else if 0x41 ≤ u && u ≤ 0x46 then some (u.toNat - 0x37)
  else if 0x61 ≤ u && u ≤ 0x66 then some (u.toNat - 0x57)
  else none

/-- What stands behind a backslash. -/
def unescape : JsString → Option (UInt16 × JsString)
  | [] => none
  | e :: rest =>
    if e = 0x75 then
      match rest with
      | a :: b :: c :: d :: rest => do
        let a ← hexValue a
        let b ← hexValue b
        let c ← hexValue c
        let d ← hexValue d
        return ((a * 0x1000 + b * 0x100 + c * 0x10 + d).toUInt16, rest)
      | _ => none
    else if e = 0x2f then some (e, rest)
    else (shortEscapes.find? fun p => p.1 = e).map fun p => (p.2, rest)

/-- A string behind its mark, and what follows it. -/
def stringBody : ℕ → JsString → Option (JsString × JsString)
  | 0, _ => none
  | _, [] => none
  | fuel + 1, u :: rest =>
    if u = quoteMark then some ([], rest)
    else if u = backslash then
      (unescape rest).bind fun read => (stringBody fuel read.2).map fun p => (read.1 :: p.1, p.2)
    else if u < 0x20 then none
    else (stringBody fuel rest).map fun p => (u :: p.1, p.2)

/-- The number that digits spell. -/
def natOf (digits : JsString) : ℕ := digits.foldl (fun n d => n * 10 + (d.toNat - 0x30)) 0

/-- The digits behind a point, if there is one. -/
def fraction : JsString → Option (JsString × JsString)
  | u :: rest =>
    if u = 0x2e then
      let digits := rest.span isDigit
      if digits.1 = [] then none else some digits
    else some ([], u :: rest)
  | [] => some ([], [])

/-- An exponent, if there is one. -/
def exponent : JsString → Option (ℤ × JsString)
  | u :: rest =>
    if u = 0x65 || u = 0x45 then
      let negative := rest.head? = some 0x2d
      let unsigned := if negative || rest.head? = some 0x2b then rest.tail else rest
      let digits := unsigned.span isDigit
      if digits.1 = [] then none
      else some (if negative then -(natOf digits.1 : ℤ) else natOf digits.1, digits.2)
    else some (0, u :: rest)
  | [] => some (0, [])

/-- A number, and what follows it. -/
def number (text : JsString) : Option (ℚ × JsString) :=
  let negative := text.head? = some 0x2d
  let unsigned := if negative then text.tail else text
  let whole := unsigned.span isDigit
  if whole.1 = [] || (1 < whole.1.length && whole.1.head? = some 0x30) then none
  else
    (fraction whole.2).bind fun decimals =>
      (exponent decimals.2).map fun power =>
        let places : ℤ := power.1 - decimals.1.length
        let size : ℚ := natOf (whole.1 ++ decimals.1) * (10 : ℚ) ^ places
        (if negative then -size else size, power.2)

/-- The items of a list up to the mark that closes it. -/
def items {α : Type} (one : JsString → Option (α × JsString)) (close : UInt16) :
    ℕ → JsString → Option (List α × JsString)
  | 0, _ => none
  | fuel + 1, text =>
    (one text).bind fun first =>
      match skip first.2 with
      | [] => none
      | u :: rest =>
        if u = 0x2c then (items one close fuel rest).map fun p => (first.1 :: p.1, p.2)
        else if u = close then some ([first.1], rest)
        else none

/-- A list behind the mark that opens it. -/
def list {α : Type} (one : JsString → Option (α × JsString)) (close : UInt16) (text : JsString) :
    Option (List α × JsString) :=
  match skip text with
  | [] => none
  | u :: rest => if u = close then some ([], rest) else items one close text.length text

/-- A member of an object. -/
def memberText (one : JsString → Option (Json × JsString)) (text : JsString) :
    Option ((JsString × Json) × JsString) :=
  match skip text with
  | [] => none
  | u :: rest =>
    if u = quoteMark then
      (stringBody text.length rest).bind fun name =>
        match skip name.2 with
        | [] => none
        | u :: rest =>
          if u = 0x3a then (one rest).map fun value => ((name.1, value.1), value.2) else none
    else none

/-- A value, with so many lists in each other, and what follows it. -/
def value : ℕ → JsString → Option (Json × JsString)
  | 0, _ => none
  | depth + 1, text =>
    match skip text with
    | [] => none
    | u :: rest =>
      if u = quoteMark then (stringBody text.length rest).map fun p => (.str p.1, p.2)
      else if u = 0x5b then (list (value depth) 0x5d rest).map fun p => (.arr p.1, p.2)
      else if u = 0x7b then
        (list (memberText (value depth)) 0x7d rest).map fun p => (.obj p.1, p.2)
      else if (js "null").isPrefixOf (u :: rest) then some (.null, rest.drop 3)
      else if (js "true").isPrefixOf (u :: rest) then some (.bool true, rest.drop 3)
      else if (js "false").isPrefixOf (u :: rest) then some (.bool false, rest.drop 4)
      else (number (u :: rest)).map fun p => (.num p.1, p.2)

/-- **`JSON.parse`**, `none` where it throws. -/
def parse (text : JsString) : Option Json :=
  match value (text.length + 1) text with
  | some (v, rest) => if skip rest = [] then some v else none
  | none => none

/-! ### What is written -/

/-- The text of an array. -/
def arrayText (texts : List JsString) : JsString := 0x5b :: ([0x2c].intercalate texts ++ [0x5d])

/-- The text of an object. -/
def objectText (members : List (JsString × JsString)) : JsString :=
  0x7b :: ([0x2c].intercalate (members.map fun m => quote m.1 ++ 0x3a :: m.2) ++ [0x7d])

/-- A value begins here, and no list ends. -/
def Starts (text : JsString) : Prop :=
  ∃ u rest, text = u :: rest ∧ isSpace u = false ∧ u ≠ 0x5d ∧ u ≠ 0x7d

/-- No number goes on here. -/
def Ends (rest : JsString) : Prop :=
  ∀ u ∈ rest.head?, isDigit u = false ∧ u ≠ 0x2e ∧ u ≠ 0x65 ∧ u ≠ 0x45

/-- **A text that is written for a value**, with at most so many lists in each other. -/
structure Written (depth : ℕ) (v : Json) (text : JsString) : Prop where
  starts : Starts text
  reads : ∀ d, depth ≤ d → ∀ rest, Ends rest → value d (text ++ rest) = some (v, rest)
  wellFormed : WellFormed text
  printable : ∀ u ∈ text, 0x20 ≤ u

theorem Written.mono {depth depth' : ℕ} {v : Json} {text : JsString} (h : Written depth v text)
    (hle : depth ≤ depth') : Written depth' v text :=
  { h with reads := fun d hd rest hends => h.reads d (hle.trans hd) rest hends }

theorem skip_cons {u : UInt16} (h : isSpace u = false) (rest : JsString) :
    skip (u :: rest) = u :: rest := by
  simp [skip, h]

/-! ### Strings -/

theorem hexValue_hexDigit : ∀ n < 16, hexValue (hexDigit n) = some n := by decide

theorem unescape_unicode (u : UInt16) (rest : JsString) :
    unescape ((unicodeEscape u ++ rest).tail) = some (u, rest) := by
  have hu := u.toNat_lt
  have hback : (u.toNat / 0x1000 * 0x1000 + u.toNat / 0x100 % 0x10 * 0x100 +
      u.toNat / 0x10 % 0x10 * 0x10 + u.toNat % 0x10).toUInt16 = u := by
    have hsum : u.toNat / 0x1000 * 0x1000 + u.toNat / 0x100 % 0x10 * 0x100 +
        u.toNat / 0x10 % 0x10 * 0x10 + u.toNat % 0x10 = u.toNat := by omega
    rw [hsum]
    exact UInt16.ofNat_toNat
  have h₁ := hexValue_hexDigit (u.toNat / 0x1000) (by omega)
  have h₂ := hexValue_hexDigit (u.toNat / 0x100 % 0x10) (by omega)
  have h₃ := hexValue_hexDigit (u.toNat / 0x10 % 0x10) (by omega)
  have h₄ := hexValue_hexDigit (u.toNat % 0x10) (by omega)
  simp only [unicodeEscape, List.cons_append, List.nil_append, List.tail_cons, unescape, if_true,
    h₁, h₂, h₃, h₄, Option.pure_def, Option.bind_eq_bind, Option.bind_some, hback]

theorem unescape_short {e : UInt16 × UInt16} (he : e ∈ shortEscapes) (rest : JsString) :
    unescape (e.1 :: rest) = some (e.2, rest) := by
  have hfound : (shortEscapes.all fun e => e.1 ≠ 0x75 ∧ e.1 ≠ 0x2f ∧
      (shortEscapes.find? fun p => p.1 = e.1) = some e) = true := by
    decide
  obtain ⟨hunicode, hslash, hfind⟩ := of_decide_eq_true (List.all_eq_true.1 hfound e he)
  simp [unescape, hunicode, hslash, hfind]

/-- **What is written for a code unit is read as that unit.** -/
theorem stringBody_escape (fuel : ℕ) (u : UInt16) (rest : JsString) :
    stringBody (fuel + 1) (escape u ++ rest) =
      (stringBody fuel rest).map fun p => (u :: p.1, p.2) := by
  have hmark : backslash ≠ quoteMark := by decide
  unfold escape
  split
  · next e hfind =>
    have hu : e.2 = u := by simpa using List.find?_some hfind
    have hread := unescape_short (List.mem_of_find?_eq_some hfind) rest
    rw [hu] at hread
    simp [stringBody, hmark, hread]
  · next hfind =>
    split
    · have hread := unescape_unicode u rest
      rw [unicodeEscape, List.cons_append, List.tail_cons] at hread
      rw [unicodeEscape, List.cons_append, stringBody, if_neg hmark, if_pos rfl, hread]
      rfl
    · next hplain =>
      have hall := List.find?_eq_none.1 hfind
      have hquote : u ≠ quoteMark := by
        rintro rfl
        exact hall (quoteMark, quoteMark) (by decide) (by simp)
      have hslash : u ≠ backslash := by
        rintro rfl
        exact hall (backslash, backslash) (by decide) (by simp)
      have hcontrol : ¬u < 0x20 := fun h => hplain (.inl h)
      simp [stringBody, hquote, hslash, hcontrol]

theorem stringBody_plain {u : UInt16} (h : 0xd800 ≤ u.toNat) (fuel : ℕ) (rest : JsString) :
    stringBody (fuel + 1) (u :: rest) =
      (stringBody fuel rest).map fun p => (u :: p.1, p.2) := by
  have hquote : u ≠ quoteMark := by
    rintro rfl
    exact absurd h (by decide)
  have hslash : u ≠ backslash := by
    rintro rfl
    exact absurd h (by decide)
  have hcontrol : ¬u < 0x20 := by
    rw [UInt16.lt_iff_toNat_lt]
    have : (0x20 : UInt16).toNat = 0x20 := rfl
    omega
  rw [stringBody, if_neg hquote, if_neg hslash, if_neg hcontrol]

/-- **A string is read back.** -/
theorem stringBody_quoteBody {fuel : ℕ} {s rest : JsString} (h : s.length < fuel) :
    stringBody fuel (quoteBody s ++ quoteMark :: rest) = some (s, rest) := by
  fun_induction quoteBody s generalizing fuel with
  | case1 =>
    obtain ⟨fuel, rfl⟩ := Nat.exists_eq_add_one.2 h
    simp [stringBody]
  | case2 u =>
    obtain ⟨fuel, rfl⟩ := Nat.exists_eq_add_of_lt h
    rw [List.length_singleton, show 1 + fuel + 1 = fuel + 1 + 1 by omega, stringBody_escape]
    simp [stringBody]
  | case3 u v tail hpair ih =>
    obtain ⟨hhigh, hlow⟩ := Bool.and_eq_true_iff.1 hpair
    rw [isHigh_iff] at hhigh
    rw [isLow_iff] at hlow
    obtain ⟨fuel, rfl⟩ := Nat.exists_eq_add_of_lt h
    have hfuel : (u :: v :: tail).length + fuel + 1 = tail.length + fuel + 1 + 1 + 1 := by
      simp only [List.length_cons]
      omega
    rw [hfuel, List.cons_append, List.cons_append, stringBody_plain hhigh.1,
      stringBody_plain (by omega), ih (by omega)]
    rfl
  | case4 u v tail _ ih =>
    obtain ⟨fuel, rfl⟩ := Nat.exists_eq_add_of_lt h
    have hfuel : (u :: v :: tail).length + fuel + 1 = (v :: tail).length + fuel + 1 + 1 := by
      simp only [List.length_cons]
      omega
    rw [hfuel, List.append_assoc, stringBody_escape, ih (by omega)]
    rfl

theorem length_le_quoteBody (s : JsString) : s.length ≤ (quoteBody s).length := by
  have hescape : ∀ u, 1 ≤ (escape u).length := by
    intro u
    unfold escape
    split
    · simp
    · split <;> simp [unicodeEscape]
  fun_induction quoteBody s with
  | case1 => exact le_rfl
  | case2 u => exact hescape u
  | case3 u v tail _ ih => simpa using ih
  | case4 u v tail _ ih =>
    have := hescape u
    rw [List.length_append, List.length_cons]
    omega

theorem quoteBody_printable (s : JsString) : ∀ u ∈ quoteBody s, 0x20 ≤ u := by
  have hdigit : ∀ n < 16, (0x20 : UInt16) ≤ hexDigit n := by decide
  have hescape : ∀ u, ∀ w ∈ escape u, 0x20 ≤ w := by
    intro u w hw
    unfold escape at hw
    split at hw
    · next e hfind =>
      have hshort : (shortEscapes.all fun e => (0x20 : UInt16) ≤ e.1) = true := by decide
      simp only [List.mem_cons, List.not_mem_nil, or_false] at hw
      obtain rfl | rfl := hw
      · decide
      · exact of_decide_eq_true
          (List.all_eq_true.1 hshort e (List.mem_of_find?_eq_some hfind))
    · split at hw
      · have hu := u.toNat_lt
        simp only [unicodeEscape, List.mem_cons, List.not_mem_nil, or_false] at hw
        obtain rfl | rfl | rfl | rfl | rfl | rfl := hw
        · decide
        · decide
        · exact hdigit _ (by omega)
        · exact hdigit _ (by omega)
        · exact hdigit _ (by omega)
        · exact hdigit _ (by omega)
      · next hplain =>
        obtain rfl := List.mem_singleton.1 hw
        exact UInt16.not_lt.1 fun hlt => hplain (.inl hlt)
  have hhalf : ∀ u : UInt16, 0xd800 ≤ u.toNat → 0x20 ≤ u := by
    intro u hu
    rw [UInt16.le_iff_toNat_le]
    have : (0x20 : UInt16).toNat = 0x20 := rfl
    omega
  fun_induction quoteBody s with
  | case1 => simp
  | case2 u => exact hescape u
  | case3 u v tail hpair ih =>
    obtain ⟨hhigh, hlow⟩ := Bool.and_eq_true_iff.1 hpair
    rw [isHigh_iff] at hhigh
    rw [isLow_iff] at hlow
    rw [List.forall_mem_cons, List.forall_mem_cons]
    exact ⟨hhalf u hhigh.1, hhalf v (by omega), ih⟩
  | case4 u v tail _ ih =>
    intro w hw
    rw [List.mem_append] at hw
    exact hw.elim (hescape u w) (ih w)

theorem written_quote (s : JsString) : Written 1 (.str s) (quote s) where
  starts := ⟨quoteMark, _, rfl, by decide, by decide, by decide⟩
  reads d hd rest _ := by
    obtain ⟨d, rfl⟩ := Nat.exists_eq_add_of_le' hd
    have hlen := length_le_quoteBody s
    have hread : stringBody (quote s ++ rest).length (quoteBody s ++ quoteMark :: rest) =
        some (s, rest) := by
      refine stringBody_quoteBody ?_
      simp only [quote, List.cons_append, List.length_cons, List.length_append]
      omega
    have hspace : isSpace quoteMark = false := by decide
    have htext : quote s ++ rest = quoteMark :: (quoteBody s ++ quoteMark :: rest) := by
      simp [quote]
    rw [value, htext, skip_cons hspace]
    simp only [if_true]
    rw [← htext, hread]
    rfl
  wellFormed := wellFormed_quote s
  printable := by
    intro u hu
    simp only [quote, List.mem_cons, List.mem_append, List.not_mem_nil, or_false] at hu
    obtain rfl | hu | rfl := hu
    · decide
    · exact quoteBody_printable s u hu
    · decide

/-! ### Numbers -/

theorem decimalText_eq (n : ℕ) : decimalText n =
    if n < 10 then [(0x30 + n).toUInt16]
    else decimalText (n / 10) ++ [(0x30 + n % 10).toUInt16] := by
  have hdigit : ∀ n < 10, (n.digitChar.toNat.toUInt8).toNat.toUInt16 = (0x30 + n).toUInt16 := by
    decide
  rw [decimalText, Framing.decimal, Nat.toDigits_eq_if (by decide)]
  split
  · next h =>
    simp only [List.map_cons, List.map_nil]
    rw [hdigit n h]
  · simp only [List.map_append, List.map_cons, List.map_nil, hdigit _ (Nat.mod_lt n (by decide))]
    rfl

theorem natOf_decimalText (n : ℕ) : natOf (decimalText n) = n := by
  have hdigit : ∀ n < 10, ((0x30 + n).toUInt16).toNat - 0x30 = n := by decide
  induction n using Nat.strong_induction_on with
  | _ n ih =>
    rw [decimalText_eq]
    split
    · next h => simpa [natOf] using hdigit n h
    · next h =>
      have hrest := ih (n / 10) (by omega)
      unfold natOf at hrest ⊢
      rw [List.foldl_append, hrest, List.foldl_cons, List.foldl_nil,
        hdigit _ (Nat.mod_lt n (by decide))]
      omega

theorem isDigit_decimalText (n : ℕ) : ∀ u ∈ decimalText n, isDigit u = true := by
  intro u hu
  obtain ⟨b, hb, rfl⟩ := List.mem_map.1 hu
  obtain ⟨hlow, hhigh⟩ := Framing.isDigit_decimal b hb
  rw [UInt8.le_iff_toNat_le] at hlow hhigh
  have hnat : b.toNat.toUInt16.toNat = b.toNat := by
    have := b.toNat_lt
    simp only [Nat.toUInt16, UInt16.toNat_ofNat']
    omega
  simp only [isDigit, Bool.and_eq_true, decide_eq_true_eq, UInt16.le_iff_toNat_le, hnat]
  exact ⟨hlow, hhigh⟩

/-- A number of several digits does not begin with a zero. -/
theorem head?_decimalText {n : ℕ} (h : 0 < n) : (decimalText n).head? ≠ some 0x30 := by
  have hdigit : ∀ n < 10, 0 < n → (0x30 + n).toUInt16 ≠ 0x30 := by decide
  induction n using Nat.strong_induction_on with
  | _ n ih =>
    rw [decimalText_eq]
    split
    · next hlt => simpa using hdigit n hlt h
    · next hge =>
      have hrest := ih (n / 10) (by omega) (by omega)
      have hne : decimalText (n / 10) ≠ [] := by
        rw [decimalText]
        simpa using Framing.decimal_ne_nil _
      rwa [List.head?_append_of_ne_nil _ hne]

theorem span_digits {digits rest : JsString} (h : ∀ u ∈ digits, isDigit u = true)
    (hends : ∀ u ∈ rest.head?, isDigit u = false) :
    (digits ++ rest).span isDigit = (digits, rest) := by
  rw [List.span_eq_takeWhile_dropWhile]
  have hstop : rest.takeWhile isDigit = [] ∧ rest.dropWhile isDigit = rest := by
    cases rest with
    | nil => exact ⟨rfl, rfl⟩
    | cons u rest =>
      have hu := hends u rfl
      simp [hu]
  rw [List.takeWhile_append_of_pos h, List.dropWhile_append_of_pos h, hstop.1, hstop.2,
    List.append_nil]

theorem number_decimalText (n : ℕ) {rest : JsString} (hends : Ends rest) :
    number (decimalText n ++ rest) = some ((n : ℚ), rest) := by
  have hdigits := isDigit_decimalText n
  have hne : decimalText n ≠ [] := by
    rw [decimalText]
    simpa using Framing.decimal_ne_nil _
  have hminus : (decimalText n ++ rest).head? ≠ some 0x2d := by
    rw [List.head?_append_of_ne_nil _ hne]
    intro h
    exact absurd (hdigits _ (List.mem_of_mem_head? h)) (by decide)
  have hzero : ¬(1 < (decimalText n).length ∧ (decimalText n).head? = some 0x30) := by
    rintro ⟨hlong, hhead⟩
    obtain rfl | hpos := Nat.eq_zero_or_pos n
    · exact absurd hlong (by decide)
    · exact head?_decimalText hpos hhead
  have hfraction : fraction rest = some ([], rest) := by
    cases rest with
    | nil => rfl
    | cons u rest =>
      have hu := (hends u rfl).2.1
      simp [fraction, hu]
  have hexponent : exponent rest = some (0, rest) := by
    cases rest with
    | nil => rfl
    | cons u rest =>
      obtain ⟨-, -, he, hE⟩ := hends u rfl
      simp [exponent, he, hE]
  simp only [number, hminus, if_false, span_digits hdigits fun u hu => (hends u hu).1]
  rw [if_neg (by simpa [hne] using hzero), hfraction, Option.bind_some, hexponent]
  simp [natOf_decimalText]

theorem ne_of_isDigit {u c : UInt16} (h : isDigit u = true) (hc : isDigit c = false) : u ≠ c := by
  rintro rfl
  rw [h] at hc
  cases hc

theorem isSpace_of_isDigit {u : UInt16} (h : isDigit u = true) : isSpace u = false := by
  simp only [isSpace, Bool.or_eq_false_iff, decide_eq_false_iff_not]
  exact ⟨⟨⟨ne_of_isDigit h rfl, ne_of_isDigit h rfl⟩, ne_of_isDigit h rfl⟩, ne_of_isDigit h rfl⟩

/-- **What begins as a number is read as one.** -/
theorem value_number {u : UInt16} {tail rest : JsString} {q : ℚ}
    (hu : isDigit u = true ∨ u = 0x2d) (hread : number (u :: tail) = some (q, rest)) (d : ℕ) :
    value (d + 1) (u :: tail) = some (.num q, rest) := by
  have hne : ∀ {c}, isDigit c = false → c ≠ 0x2d → u ≠ c := by
    rintro c hc hminus rfl
    obtain hu | rfl := hu
    · rw [hu] at hc
      cases hc
    · exact hminus rfl
  have hspace : isSpace u = false := by
    simp only [isSpace, Bool.or_eq_false_iff, decide_eq_false_iff_not]
    exact ⟨⟨⟨hne rfl (by decide), hne rfl (by decide)⟩, hne rfl (by decide)⟩,
      hne rfl (by decide)⟩
  have hword : ∀ {w : JsString} {c : UInt16}, w.head? = some c → isDigit c = false → c ≠ 0x2d →
      w.isPrefixOf (u :: tail) = false := by
    intro w c hhead hc hminus
    cases w with
    | nil => cases hhead
    | cons w ws =>
      obtain rfl := Option.some.inj hhead
      have hother := (hne hc hminus).symm
      simp [List.isPrefixOf, hother]
  have hquote : u ≠ quoteMark := hne rfl (by decide)
  have harray : u ≠ 0x5b := hne rfl (by decide)
  have hobject : u ≠ 0x7b := hne rfl (by decide)
  rw [value, skip_cons hspace]
  simp only [if_neg hquote, if_neg harray, if_neg hobject,
    @hword (js "null") 0x6e rfl rfl (by decide), @hword (js "true") 0x74 rfl rfl (by decide),
    @hword (js "false") 0x66 rfl rfl (by decide), Bool.false_eq_true, if_false]
  rw [hread]
  rfl

theorem written_decimalText (n : ℕ) : Written 1 (.num n) (decimalText n) := by
  have hdigits := isDigit_decimalText n
  obtain ⟨u, tail, htext⟩ : ∃ u tail, decimalText n = u :: tail := by
    refine List.exists_cons_of_ne_nil ?_
    simpa [decimalText] using Framing.decimal_ne_nil n
  have hu : isDigit u = true := hdigits u (by simp [htext])
  exact
    { starts := ⟨u, tail, htext, isSpace_of_isDigit hu, ne_of_isDigit hu rfl, ne_of_isDigit hu rfl⟩
      reads := by
        intro d hd rest hends
        obtain ⟨d, rfl⟩ := Nat.exists_eq_add_of_le' hd
        have hread := number_decimalText n hends
        rw [htext, List.cons_append] at hread ⊢
        exact value_number (.inl hu) hread d
      wellFormed := wellFormed_decimalText n
      printable := by
        intro u hu
        have hdigit := hdigits u hu
        simp only [isDigit, Bool.and_eq_true, decide_eq_true_eq] at hdigit
        exact UInt16.le_trans (by decide) hdigit.1 }

/-! ### Lists -/

section Lists

variable {α : Type} {one : JsString → Option (α × JsString)} {close : UInt16}

/-- The texts are read one by one, before a comma and before the end. -/
def ReadsEach (one : JsString → Option (α × JsString)) (close : UInt16) (as : List α)
    (texts : List JsString) : Prop :=
  List.Forall₂ (fun a text => ∀ u rest, u = 0x2c ∨ u = close →
    one (text ++ u :: rest) = some (a, u :: rest)) as texts

theorem items_intercalate {as : List α} {texts : List JsString} (h : ReadsEach one close as texts)
    (hne : texts ≠ []) (hspace : isSpace close = false) (hcomma : close ≠ 0x2c) {fuel : ℕ}
    (hfuel : texts.length ≤ fuel) (rest : JsString) :
    items one close fuel ([0x2c].intercalate texts ++ close :: rest) = some (as, rest) := by
  induction h generalizing fuel with
  | nil => exact absurd rfl hne
  | @cons a text as texts hread hrest ih =>
    obtain ⟨fuel, rfl⟩ := Nat.exists_eq_add_of_le' (Nat.le_trans (Nat.le_add_left 1 _) hfuel)
    by_cases hlast : texts = []
    · subst hlast
      obtain rfl := List.forall₂_nil_right_iff.1 hrest
      rw [List.intercalate_singleton, items, hread close rest (.inr rfl), Option.bind_some,
        skip_cons hspace]
      simp [hcomma]
    · have hshort : texts.length ≤ fuel := by
        rw [List.length_cons] at hfuel
        omega
      have hnext := ih hlast hshort
      have hspaceComma : isSpace 0x2c = false := by decide
      rw [List.intercalate_cons_of_ne_nil hlast, List.append_assoc, List.append_assoc,
        List.singleton_append, items, hread 0x2c _ (.inl rfl), Option.bind_some,
        skip_cons hspaceComma]
      simp only [if_true]
      rw [hnext]
      rfl

theorem length_le_intercalate (texts : List JsString) :
    (texts.map List.length).sum + texts.length ≤
      (([0x2c] : JsString).intercalate texts).length + 1 := by
  induction texts with
  | nil => simp
  | cons text texts ih =>
    by_cases hlast : texts = []
    · simp [hlast]
    · rw [List.intercalate_cons_of_ne_nil hlast, List.map_cons, List.sum_cons]
      simp only [List.length_cons, List.length_append, List.length_nil]
      omega

theorem list_intercalate {as : List α} {texts : List JsString} (h : ReadsEach one close as texts)
    (hstarts : ∀ text ∈ texts, ∃ u rest, text = u :: rest ∧ isSpace u = false ∧ u ≠ close)
    (hspace : isSpace close = false) (hcomma : close ≠ 0x2c) (rest : JsString) :
    list one close ([0x2c].intercalate texts ++ close :: rest) = some (as, rest) := by
  cases h with
  | nil =>
    rw [List.intercalate_nil, List.nil_append, list, skip_cons hspace]
    simp
  | @cons a text as texts hread hrest =>
    have hall : ReadsEach one close (a :: as) (text :: texts) := .cons hread hrest
    obtain ⟨u, tail, htext, hu, hne⟩ := hstarts text List.mem_cons_self
    obtain ⟨more, hmore⟩ : ∃ more, [0x2c].intercalate (text :: texts) ++ close :: rest =
        u :: more := by
      rw [htext]
      cases texts with
      | nil => exact ⟨_, rfl⟩
      | cons => exact ⟨_, rfl⟩
    have hlen : (text :: texts).length ≤
        ([0x2c].intercalate (text :: texts) ++ close :: rest).length := by
      have := length_le_intercalate (text :: texts)
      simp only [List.length_append, List.length_cons] at this ⊢
      omega
    have hread := items_intercalate hall (by simp) hspace hcomma hlen rest
    rw [hmore] at hread ⊢
    rw [list, skip_cons hu]
    simp only [if_neg hne]
    exact hread

theorem wellFormed_intercalate {texts : List JsString} (h : ∀ text ∈ texts, WellFormed text) :
    WellFormed ([0x2c].intercalate texts) := by
  induction texts with
  | nil => exact wellFormed_nil
  | cons text texts ih =>
    obtain ⟨hfirst, hrest⟩ := List.forall_mem_cons.1 h
    by_cases hlast : texts = []
    · simpa [hlast] using hfirst
    · rw [List.intercalate_cons_of_ne_nil hlast]
      have hcomma : WellFormed [0x2c] := wellFormed_of_noSurrogate (by decide)
      exact (hfirst.append hcomma).append (ih hrest)

theorem forall_mem_intercalate {P : UInt16 → Prop} {texts : List JsString} (hcomma : P 0x2c)
    (h : ∀ text ∈ texts, ∀ u ∈ text, P u) : ∀ u ∈ ([0x2c] : JsString).intercalate texts, P u := by
  induction texts with
  | nil => simp
  | cons text texts ih =>
    obtain ⟨hfirst, hrest⟩ := List.forall_mem_cons.1 h
    by_cases hlast : texts = []
    · simpa [hlast] using hfirst
    · intro u hu
      rw [List.intercalate_cons_of_ne_nil hlast, List.mem_append, List.mem_append,
        List.mem_singleton] at hu
      obtain (hu | rfl) | hu := hu
      · exact hfirst u hu
      · exact hcomma
      · exact ih hrest u hu

end Lists

theorem exists_of_forall₂ {α β : Type} {R : α → β → Prop} {as : List α} {bs : List β}
    (h : List.Forall₂ R as bs) : ∀ b ∈ bs, ∃ a, R a b := by
  induction h with
  | nil => simp
  | @cons a b _ _ hab _ ih =>
    rw [List.forall_mem_cons]
    exact ⟨⟨a, hab⟩, ih⟩

theorem ends_of_mark {u : UInt16} {rest : JsString} (h : u = 0x2c ∨ u = 0x5d ∨ u = 0x7d) :
    Ends (u :: rest) := by
  rintro w hw
  obtain rfl := Option.some.inj hw
  obtain rfl | rfl | rfl := h <;> decide

/-- **An array is read back** whose items are. -/
theorem written_arrayText {depth : ℕ} {vs : List Json} {texts : List JsString}
    (h : List.Forall₂ (Written depth) vs texts) :
    Written (depth + 1) (.arr vs) (arrayText texts) := by
  have hmem : ∀ text ∈ texts, ∃ v, Written depth v text := by
    intro text htext
    exact exists_of_forall₂ h text htext
  exact
    { starts := ⟨0x5b, _, rfl, by decide, by decide, by decide⟩
      reads := by
        intro d hd rest _
        obtain ⟨d, rfl⟩ := Nat.exists_eq_add_of_le' (Nat.le_trans (Nat.le_add_left 1 depth) hd)
        have hdepth : depth ≤ d := by omega
        have heach : ReadsEach (value d) 0x5d vs texts := by
          refine h.imp fun v text hv u rest hu => hv.reads d hdepth _ (ends_of_mark ?_)
          tauto
        have hstarts : ∀ text ∈ texts,
            ∃ u rest, text = u :: rest ∧ isSpace u = false ∧ u ≠ 0x5d := by
          intro text htext
          obtain ⟨v, hv⟩ := hmem text htext
          obtain ⟨u, rest, heq, hspace, hne, -⟩ := hv.starts
          exact ⟨u, rest, heq, hspace, hne⟩
        have hread := list_intercalate heach hstarts (by decide) (by decide) rest
        have hspace : isSpace 0x5b = false := by decide
        have htext : arrayText texts ++ rest =
            0x5b :: ([0x2c].intercalate texts ++ 0x5d :: rest) := by
          simp [arrayText]
        rw [value, htext, skip_cons hspace]
        simp only [if_neg (show (0x5b : UInt16) ≠ quoteMark by decide), if_true]
        rw [hread]
        rfl
      wellFormed := by
        have hopen : WellFormed [0x5b] := wellFormed_of_noSurrogate (by decide)
        have hclose : WellFormed [0x5d] := wellFormed_of_noSurrogate (by decide)
        refine hopen.append (WellFormed.append (wellFormed_intercalate fun text htext => ?_) hclose)
        obtain ⟨v, hv⟩ := hmem text htext
        exact hv.wellFormed
      printable := by
        intro u hu
        simp only [arrayText, List.mem_cons, List.mem_append, List.not_mem_nil, or_false] at hu
        obtain rfl | hu | rfl := hu
        · decide
        · refine forall_mem_intercalate (by decide) (fun text htext => ?_) u hu
          obtain ⟨v, hv⟩ := hmem text htext
          exact hv.printable
        · decide }


theorem memberText_reads {depth : ℕ} {v : Json} {text : JsString} (h : Written depth v text) {d : ℕ}
    (hd : depth ≤ d) (name : JsString) {rest : JsString} (hends : Ends rest) :
    memberText (value d) (quote name ++ 0x3a :: text ++ rest) = some ((name, v), rest) := by
  have hmark : isSpace quoteMark = false := by decide
  have hcolon : isSpace 0x3a = false := by decide
  have hlen := length_le_quoteBody name
  have htext : quote name ++ 0x3a :: text ++ rest =
      quoteMark :: (quoteBody name ++ quoteMark :: 0x3a :: (text ++ rest)) := by
    simp [quote]
  have hread : stringBody (quote name ++ 0x3a :: text ++ rest).length
      (quoteBody name ++ quoteMark :: 0x3a :: (text ++ rest)) =
        some (name, 0x3a :: (text ++ rest)) := by
    refine stringBody_quoteBody ?_
    rw [htext]
    simp only [List.length_cons, List.length_append]
    omega
  rw [memberText, htext, skip_cons hmark]
  simp only [if_true]
  rw [← htext, hread, Option.bind_some, skip_cons hcolon]
  simp only [if_true]
  rw [h.reads d hd rest hends]
  rfl

/-- **An object is read back** whose members are. -/
theorem written_objectText {depth : ℕ} {members : List (JsString × Json)}
    {texts : List (JsString × JsString)}
    (h : List.Forall₂ (fun m t => m.1 = t.1 ∧ Written depth m.2 t.2) members texts) :
    Written (depth + 1) (.obj members) (objectText texts) := by
  have hmem : ∀ t ∈ texts, ∃ v, Written depth v t.2 := by
    intro t ht
    obtain ⟨m, -, hm⟩ := exists_of_forall₂ h t ht
    exact ⟨m.2, hm⟩
  exact
    { starts := ⟨0x7b, _, rfl, by decide, by decide, by decide⟩
      reads := by
        intro d hd rest _
        obtain ⟨d, rfl⟩ := Nat.exists_eq_add_of_le' (Nat.le_trans (Nat.le_add_left 1 depth) hd)
        have hdepth : depth ≤ d := by omega
        have heach : ReadsEach (memberText (value d)) 0x7d members
            (texts.map fun m => quote m.1 ++ 0x3a :: m.2) := by
          rw [ReadsEach, List.forall₂_map_right_iff]
          refine h.imp fun m t hm u rest hu => ?_
          obtain ⟨hname, hwritten⟩ := hm
          obtain ⟨name, v⟩ := m
          obtain rfl : name = t.1 := hname
          exact memberText_reads hwritten hdepth t.1 (ends_of_mark (by tauto))
        have hstarts : ∀ text ∈ texts.map fun m => quote m.1 ++ 0x3a :: m.2,
            ∃ u rest, text = u :: rest ∧ isSpace u = false ∧ u ≠ 0x7d := by
          intro text htext
          obtain ⟨t, -, rfl⟩ := List.mem_map.1 htext
          exact ⟨quoteMark, _, rfl, by decide, by decide⟩
        have hread := list_intercalate heach hstarts (by decide) (by decide) rest
        have hspace : isSpace 0x7b = false := by decide
        have htext : objectText texts ++ rest = 0x7b ::
            ([0x2c].intercalate (texts.map fun m => quote m.1 ++ 0x3a :: m.2) ++ 0x7d :: rest) := by
          simp [objectText]
        rw [value, htext, skip_cons hspace]
        simp only [if_neg (show (0x7b : UInt16) ≠ quoteMark by decide),
          if_neg (show (0x7b : UInt16) ≠ 0x5b by decide), if_true]
        rw [hread]
        rfl
      wellFormed := by
        have hopen : WellFormed [0x7b] := wellFormed_of_noSurrogate (by decide)
        have hclose : WellFormed [0x7d] := wellFormed_of_noSurrogate (by decide)
        have hcolon : WellFormed [0x3a] := wellFormed_of_noSurrogate (by decide)
        refine hopen.append (WellFormed.append (wellFormed_intercalate fun text htext => ?_) hclose)
        obtain ⟨t, ht, rfl⟩ := List.mem_map.1 htext
        obtain ⟨v, hv⟩ := hmem t ht
        exact (wellFormed_quote t.1).append (hcolon.append hv.wellFormed)
      printable := by
        intro u hu
        simp only [objectText, List.mem_cons, List.mem_append, List.not_mem_nil, or_false] at hu
        obtain rfl | hu | rfl := hu
        · decide
        · refine forall_mem_intercalate (by decide) (fun text htext => ?_) u hu
          obtain ⟨t, ht, rfl⟩ := List.mem_map.1 htext
          obtain ⟨v, hv⟩ := hmem t ht
          intro w hw
          rw [List.mem_append, List.mem_cons] at hw
          obtain hw | rfl | hw := hw
          · exact (written_quote t.1).printable w hw
          · decide
          · exact hv.printable w hw
        · decide }

theorem written_true : Written 1 (.bool true) (js "true") where
  starts := ⟨0x74, _, rfl, by decide, by decide, by decide⟩
  reads d hd rest _ := by
    obtain ⟨d, rfl⟩ := Nat.exists_eq_add_of_le' hd
    rfl
  wellFormed := wellFormed_of_noSurrogate (by decide)
  printable u hu := by
    have hall : ((js "true").all fun u => (0x20 : UInt16) ≤ u) = true := by decide
    exact of_decide_eq_true (List.all_eq_true.1 hall u hu)

/-- **What is written is parsed.** -/
theorem parse_written {depth : ℕ} {v : Json} {text : JsString} (h : Written depth v text)
    (hdepth : depth ≤ text.length + 1) : parse text = some v := by
  have hread := h.reads (text.length + 1) hdepth [] (fun u hu => by cases hu)
  rw [List.append_nil] at hread
  rw [parse, hread]
  rfl

end JsonText
end Basis
end LaneBroker
