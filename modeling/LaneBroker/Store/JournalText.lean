/-
# The lines of the journal

A journal line is what `JSON.stringify` writes for a record: an object of its number and of what was
appended, each a word or a whole number.  It is read back by `JSON.parse` (`Basis.JsonText`), no
character of it is a newline, and it holds one brace that opens, so that its end is the text of no
record (`jsonCodec`).  What the journal relies on is thus met by the text itself.
-/

import LaneBroker.Basis.Double
import LaneBroker.Store.Journal
import LaneBroker.Store.Records

namespace LaneBroker
namespace Store

open LaneBroker.Basis LaneBroker.Basis.JsonText Utf8

/-- **A value of a record**: a word or a whole number. -/
inductive Scalar
  | word (s : JsString)
  | whole (n : ℤ)
  deriving DecidableEq

namespace Scalar

/-- What `JSON.stringify` writes for it. -/
def text : Scalar → JsString
  | word s => quote s
  | whole (.ofNat n) => decimalText n
  | whole (.negSucc n) => 0x2d :: decimalText (n + 1)

/-- What `JSON.parse` makes of that. -/
def json : Scalar → Json
  | word s => .str s
  | whole n => .num n

/-- What was written for such a value. -/
def ofJson : Json → Option Scalar
  | .str s => some (word s)
  | .num q => some (whole q.num)
  | _ => none

theorem ofJson_json (v : Scalar) : ofJson v.json = some v := by
  cases v <;> rfl

/-- A whole number below zero is read back as well. -/
theorem written_text (v : Scalar) : Written 1 v.json v.text := by
  match v with
  | word s => exact written_quote s
  | whole (.ofNat n) => exact written_decimalText n
  | whole (.negSucc n) =>
    have hdigits := isDigit_decimalText (n + 1)
    obtain ⟨u, tail, htext⟩ : ∃ u tail, decimalText (n + 1) = u :: tail :=
      List.exists_cons_of_ne_nil (by simpa [decimalText] using Framing.decimal_ne_nil (n + 1))
    have hwritten := written_decimalText (n + 1)
    refine ⟨⟨0x2d, _, rfl, by decide, by decide, by decide⟩, fun d hd rest hends => ?_, ?_, ?_⟩
    · obtain ⟨d, rfl⟩ := Nat.exists_eq_add_of_le' hd
      have hread := number_decimalText (n + 1) hends
      have hminus : ((Int.negSucc n : ℤ) : ℚ) = -((n + 1 : ℕ) : ℚ) := by
        rw [Int.negSucc_eq]
        push_cast
        rfl
      rw [json, hminus, text, htext]
      rw [htext, List.cons_append] at hread
      exact value_number (.inr rfl)
        (Double.number_minus (hdigits u (by simp [htext])) hread) d
    · exact (wellFormed_of_noSurrogate (s := [0x2d]) (by decide)).append hwritten.wellFormed
    · rintro u (_ | ⟨_, hu⟩)
      · decide
      · exact hwritten.printable u hu

theorem openBrace_not_mem_whole (n : ℤ) : 0x7b ∉ (whole n).text := by
  cases n with
  | ofNat n => exact not_mem_decimalText (.inr (by decide))
  | negSucc n => simpa [text] using not_mem_decimalText (n := n + 1) (.inr (by decide))

end Scalar

/-! ### Records -/

/-- The members of a record's object, its number first. -/
def membersOf {φ : Type} (said : φ → List (JsString × Scalar)) (r : Rec φ) :
    List (JsString × Scalar) :=
  (js "seq", .whole r.seq) :: said r.fields

/-- **The text of a record.** -/
def recordText {φ : Type} (said : φ → List (JsString × Scalar)) (r : Rec φ) : JsString :=
  objectText ((membersOf said r).map fun m => (m.1, m.2.text))

/-- A brace that opens an object. -/
def openBrace : UInt8 := 0x7b

section Codec

variable {φ : Type} {said : φ → List (JsString × Scalar)}

theorem written_recordText (r : Rec φ) :
    Written 2 (.obj ((membersOf said r).map fun m => (m.1, m.2.json))) (recordText said r) := by
  refine written_objectText ?_
  rw [List.forall₂_map_left_iff, List.forall₂_map_right_iff]
  exact List.forall₂_same.2 fun m _ => ⟨rfl, m.2.written_text⟩

theorem parse_recordText (r : Rec φ) :
    JsonText.parse (decodeUtf8 (encodeUtf8 (recordText said r))) =
      some (.obj ((membersOf said r).map fun m => (m.1, m.2.json))) := by
  have hwritten : Written 2 _ (recordText said r) := written_recordText r
  rw [decode_encode hwritten.wellFormed]
  refine parse_written hwritten ?_
  rw [recordText, objectText]
  simp

/-- **The brace stands at the head of the text only**, where no member has one. -/
theorem openBrace_not_mem (hplain : ∀ f, ∀ m ∈ said f, 0x7b ∉ quote m.1 ∧ 0x7b ∉ m.2.text)
    (r : Rec φ) : ∃ tail, encodeUtf8 (recordText said r) = openBrace :: tail ∧ openBrace ∉ tail := by
  set texts := ((membersOf said r).map fun m => (m.1, m.2.text)).map fun m => quote m.1 ++ 0x3a :: m.2
    with htexts
  have hmember : ∀ text ∈ texts, WellFormed text ∧ ∀ u ∈ text, u ≠ 0x7b := by
    simp only [htexts, membersOf, List.map_cons, List.map_map, List.forall_mem_cons, List.mem_map]
    have hcolon : WellFormed [0x3a] := wellFormed_of_noSurrogate (by decide)
    constructor
    · refine ⟨(wellFormed_quote _).append (hcolon.append (wellFormed_decimalText _)), ?_⟩
      rintro u hu rfl
      rw [List.mem_append, List.mem_cons] at hu
      rcases hu with hu | hu | hu
      · exact absurd hu (by decide)
      · exact absurd hu (by decide)
      · exact not_mem_decimalText (.inr (by decide)) hu
    · rintro _ ⟨m, hm, rfl⟩
      obtain ⟨hname, hvalue⟩ := hplain _ m hm
      refine ⟨(wellFormed_quote _).append (hcolon.append m.2.written_text.wellFormed), ?_⟩
      rintro u hu rfl
      rw [Function.comp_apply, List.mem_append, List.mem_cons] at hu
      rcases hu with hu | hu | hu
      · exact hname hu
      · exact absurd hu (by decide)
      · exact hvalue hu
  have hbrace : WellFormed [0x7b] := wellFormed_of_noSurrogate (by decide)
  have hclose : WellFormed [0x7d] := wellFormed_of_noSurrogate (by decide)
  have hinner : WellFormed ([0x2c].intercalate texts) :=
    wellFormed_intercalate fun text htext => (hmember text htext).1
  refine ⟨encodeUtf8 ([0x2c].intercalate texts ++ [0x7d]), hbrace.encode_append _,
    ascii_not_mem_encode (by decide) (hinner.append hclose) fun hmem => ?_⟩
  rcases List.mem_append.1 hmem with hmem | hmem
  · exact forall_mem_intercalate (P := fun u => u ≠ 0x7b) (by decide)
      (fun text htext => (hmember text htext).2) _ hmem rfl
  · exact absurd hmem (by decide)

/-- The record that a parsed line says. -/
def readRecord (known : List (JsString × Scalar) → Option φ) : Json → Option (Rec φ)
  | .obj ((_, .num seq) :: members) =>
    ((members.mapM fun m => (Scalar.ofJson m.2).map (m.1, ·)).bind known).map fun fields =>
      { seq := seq.num.toNat, fields }
  | _ => none

theorem readRecord_json {known : List (JsString × Scalar) → Option φ}
    (hknown : ∀ f, known (said f) = some f) (r : Rec φ) :
    readRecord known (.obj ((membersOf said r).map fun m => (m.1, m.2.json))) = some r := by
  have hmembers : ((said r.fields).map fun m => (m.1, m.2.json)).mapM
      (fun m => (Scalar.ofJson m.2).map (m.1, ·)) = some (said r.fields) := by
    generalize said r.fields = members
    induction members with
    | nil => rfl
    | cons m members ih =>
      rw [List.map_cons, List.mapM_cons, Scalar.ofJson_json, Option.map_some, ih]
      rfl
  change (((((said r.fields).map fun m => (m.1, m.2.json)).mapM fun m =>
    (Scalar.ofJson m.2).map (m.1, ·)).bind known).map fun fields =>
      ({ seq := (r.seq : ℚ).num.toNat, fields } : Rec φ)) = some r
  rw [hmembers, Option.bind_some, hknown, Option.map_some]
  rfl

/-- **The codec of the journal**, for records that are known from what they say.  A line that is not
written for a record is none. -/
def jsonCodec (said : φ → List (JsString × Scalar)) (known : List (JsString × Scalar) → Option φ)
    (hknown : ∀ f, known (said f) = some f)
    (hplain : ∀ f, ∀ m ∈ said f, 0x7b ∉ quote m.1 ∧ 0x7b ∉ m.2.text) : Codec φ where
  stringify r := encodeUtf8 (recordText said r)
  parse bs := ((JsonText.parse (decodeUtf8 bs)).bind (readRecord known)).filter fun r =>
    encodeUtf8 (recordText said r) = bs
  parse_stringify r := by
    rw [parse_recordText, Option.bind_some, readRecord_json hknown]
    simp
  newline_not_mem r := by
    have hwritten : Written 2 _ (recordText said r) := written_recordText r
    exact ascii_not_mem_encode (by decide) hwritten.wellFormed fun hmem =>
      absurd (hwritten.printable _ hmem) (by decide)
  parse_suffix r part rest hsplit hpart := by
    rw [Option.eq_none_iff_forall_ne_some]
    intro r' h
    -- what is read begins with a brace, and there is none behind the first byte
    obtain ⟨tail, htail, hnot⟩ := openBrace_not_mem hplain r
    obtain ⟨tail', htail', -⟩ := openBrace_not_mem hplain r'
    have hrest : encodeUtf8 (recordText said r') = rest :=
      of_decide_eq_true (Option.filter_eq_some_iff.1 h).2
    obtain ⟨b, part, rfl⟩ := List.exists_cons_of_ne_nil hpart
    rw [htail, List.cons_append, List.cons.injEq] at hsplit
    refine hnot ?_
    rw [hsplit.2, ← hrest, htail']
    exact List.mem_append_right _ List.mem_cons_self

end Codec

end Store
end LaneBroker
