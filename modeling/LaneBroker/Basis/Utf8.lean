/-
# UTF-8 and UTF-16

A JavaScript string goes to a file, a path or a hash as UTF-8, and bytes that come back are
decoded.  Both directions always succeed and neither is injective: a surrogate that stands
alone is written as U+FFFD, and a byte that no UTF-8 text has in its place is read as U+FFFD.
What is lost is just that: bytes come back from the string they decode to when they are the
UTF-8 of some scalar values (`encode_decode_iff`), and a string from its bytes when it has no
lone surrogate.

The decoder is the state machine of the WHATWG Encoding Standard, one byte at a time.
-/

import LaneBroker.Basis.JsText

namespace LaneBroker
namespace Basis
namespace Utf8

/-- **A Unicode scalar value**: a code point that is no surrogate. -/
def IsScalar (c : Nat) : Prop := c < 0xd800 ∨ (0xe000 ≤ c ∧ c < 0x110000)

instance (c : Nat) : Decidable (IsScalar c) := inferInstanceAs (Decidable (_ ∨ _))

/-- U+FFFD, which stands for what cannot be decoded or encoded. -/
def replacement : Nat := 0xfffd

/-! ### Scalar values and bytes -/

/-- The UTF-8 of a scalar value. -/
def ofScalar (c : Nat) : List UInt8 :=
  if c < 0x80 then [c.toUInt8]
  else if c < 0x800 then [(0xc0 + c / 0x40).toUInt8, (0x80 + c % 0x40).toUInt8]
  else if c < 0x10000 then
    [(0xe0 + c / 0x1000).toUInt8, (0x80 + c / 0x40 % 0x40).toUInt8, (0x80 + c % 0x40).toUInt8]
  else
    [(0xf0 + c / 0x40000).toUInt8, (0x80 + c / 0x1000 % 0x40).toUInt8,
      (0x80 + c / 0x40 % 0x40).toUInt8, (0x80 + c % 0x40).toUInt8]

/-- **Where the decoder stands** between two bytes. -/
inductive State
  | start
  /-- Inside a character: the bits so far, the bounds of the next byte, and how many bytes come
  after that. -/
  | owing (more bits low high : Nat)
  deriving DecidableEq

/-- A byte that begins a character. -/
def first (b : Nat) : List Nat × State :=
  if b < 0x80 then ([b], .start)
  else if 0xc2 ≤ b ∧ b ≤ 0xdf then ([], .owing 0 (b - 0xc0) 0x80 0xbf)
  else if 0xe0 ≤ b ∧ b ≤ 0xef then
    ([], .owing 1 (b - 0xe0) (if b = 0xe0 then 0xa0 else 0x80) (if b = 0xed then 0x9f else 0xbf))
  else if 0xf0 ≤ b ∧ b ≤ 0xf4 then
    ([], .owing 2 (b - 0xf0) (if b = 0xf0 then 0x90 else 0x80) (if b = 0xf4 then 0x8f else 0xbf))
  else ([replacement], .start)

/-- One byte: what is decoded at it, and the state after it.  A byte that does not go on with the
character it stands in is looked at again as the beginning of one. -/
def next : State → Nat → List Nat × State
  | .start, b => first b
  | .owing more bits low high, b =>
    if low ≤ b ∧ b ≤ high then
      match more with
      | 0 => ([bits * 0x40 + (b - 0x80)], .start)
      | more + 1 => ([], .owing more (bits * 0x40 + (b - 0x80)) 0x80 0xbf)
    else (replacement :: (first b).1, (first b).2)

/-- What the bytes decode to from a state. -/
def scalarsFrom : State → List UInt8 → List Nat
  | .start, [] => []
  | .owing _ _ _ _, [] => [replacement]
  | q, b :: rest => (next q b.toNat).1 ++ scalarsFrom (next q b.toNat).2 rest

/-! ### Scalar values and code units -/

/-- The UTF-16 of a scalar value. -/
def codeUnits (c : Nat) : JsString :=
  if c < 0x10000 then [c.toUInt16]
  else [(0xd800 + (c - 0x10000) / 0x400).toUInt16, (0xdc00 + (c - 0x10000) % 0x400).toUInt16]

/-- A surrogate that begins a pair. -/
def isHigh (u : UInt16) : Bool := 0xd800 ≤ u ∧ u < 0xdc00

/-- A surrogate that ends a pair. -/
def isLow (u : UInt16) : Bool := 0xdc00 ≤ u ∧ u < 0xe000

/-- A code unit that stands for itself. -/
def unitScalar (u : UInt16) : Nat := if isHigh u || isLow u then replacement else u.toNat

/-- The scalar values of a string, U+FFFD for each surrogate that stands alone. -/
def scalarsOf : JsString → List Nat
  | [] => []
  | [u] => [unitScalar u]
  | u :: v :: rest =>
    if isHigh u && isLow v then
      (0x10000 + (u.toNat - 0xd800) * 0x400 + (v.toNat - 0xdc00)) :: scalarsOf rest
    else unitScalar u :: scalarsOf (v :: rest)

end Utf8

/-- **`buf.toString('utf8')`.** -/
def decodeUtf8 (bytes : List UInt8) : JsString :=
  (Utf8.scalarsFrom .start bytes).flatMap Utf8.codeUnits

/-- **`Buffer.from(s, 'utf8')`**, also as which a path is given to the system. -/
def encodeUtf8 (s : JsString) : List UInt8 := (Utf8.scalarsOf s).flatMap Utf8.ofScalar

namespace Utf8

/-- **The bytes are UTF-8.** -/
def Valid (bytes : List UInt8) : Prop :=
  ∃ cs : List Nat, (∀ c ∈ cs, IsScalar c) ∧ bytes = cs.flatMap ofScalar

/-- **The string is well-formed**: no surrogate in it stands alone. -/
def WellFormed (s : JsString) : Prop :=
  ∃ cs : List Nat, (∀ c ∈ cs, IsScalar c) ∧ s = cs.flatMap codeUnits

/-! ### The decoder reads what is written -/

theorem toNat_byte {n : Nat} (h : n < 256) : n.toUInt8.toNat = n := by
  simp [Nat.toUInt8, h]

theorem scalarsFrom_cons (q : State) (b : UInt8) (rest : List UInt8) :
    scalarsFrom q (b :: rest) = (next q b.toNat).1 ++ scalarsFrom (next q b.toNat).2 rest := by
  cases q <;> rfl

theorem first_one {b : Nat} (h : b < 0x80) : first b = ([b], .start) := if_pos h

theorem first_two {b : Nat} (h : 0xc2 ≤ b ∧ b ≤ 0xdf) :
    first b = ([], .owing 0 (b - 0xc0) 0x80 0xbf) := by
  unfold first
  rw [if_neg (by omega), if_pos h]

theorem first_three {b : Nat} (h : 0xe0 ≤ b ∧ b ≤ 0xef) :
    first b = ([], .owing 1 (b - 0xe0) (if b = 0xe0 then 0xa0 else 0x80)
      (if b = 0xed then 0x9f else 0xbf)) := by
  unfold first
  rw [if_neg (by omega), if_neg (by omega), if_pos h]

theorem first_four {b : Nat} (h : 0xf0 ≤ b ∧ b ≤ 0xf4) :
    first b = ([], .owing 2 (b - 0xf0) (if b = 0xf0 then 0x90 else 0x80)
      (if b = 0xf4 then 0x8f else 0xbf)) := by
  unfold first
  rw [if_neg (by omega), if_neg (by omega), if_neg (by omega), if_pos h]

theorem next_more {more bits low high b : Nat} (h : low ≤ b ∧ b ≤ high) :
    next (.owing (more + 1) bits low high) b =
      ([], .owing more (bits * 0x40 + (b - 0x80)) 0x80 0xbf) := if_pos h

theorem next_last {bits low high b : Nat} (h : low ≤ b ∧ b ≤ high) :
    next (.owing 0 bits low high) b = ([bits * 0x40 + (b - 0x80)], .start) := if_pos h

theorem scalarsFrom_ofScalar {c : Nat} (h : IsScalar c) (rest : List UInt8) :
    scalarsFrom .start (ofScalar c ++ rest) = c :: scalarsFrom .start rest := by
  unfold IsScalar at h
  unfold ofScalar
  split_ifs with h1 h2 h3
  · rw [List.singleton_append, scalarsFrom_cons, toNat_byte (by omega)]
    simp only [next, first_one h1, List.singleton_append]
  · simp only [List.cons_append, List.nil_append, scalarsFrom_cons]
    rw [toNat_byte (n := 0xc0 + c / 0x40) (by omega), toNat_byte (n := 0x80 + c % 0x40) (by omega)]
    simp only [next, first_two (b := 0xc0 + c / 0x40) (by omega)]
    rw [if_pos (by omega)]
    simp only [List.nil_append, List.singleton_append, List.cons.injEq, and_true]
    omega
  · simp only [List.cons_append, List.nil_append, scalarsFrom_cons]
    rw [toNat_byte (n := 0xe0 + c / 0x1000) (by omega),
      toNat_byte (n := 0x80 + c / 0x40 % 0x40) (by omega),
      toNat_byte (n := 0x80 + c % 0x40) (by omega)]
    rw [show next .start (0xe0 + c / 0x1000) = _ from first_three (by omega)]
    dsimp only
    rw [next_more (by split_ifs <;> omega)]
    dsimp only
    rw [next_last (by omega)]
    simp only [List.nil_append, List.singleton_append, List.cons.injEq, and_true]
    omega
  · simp only [List.cons_append, List.nil_append, scalarsFrom_cons]
    rw [toNat_byte (n := 0xf0 + c / 0x40000) (by omega),
      toNat_byte (n := 0x80 + c / 0x1000 % 0x40) (by omega),
      toNat_byte (n := 0x80 + c / 0x40 % 0x40) (by omega),
      toNat_byte (n := 0x80 + c % 0x40) (by omega)]
    rw [show next .start (0xf0 + c / 0x40000) = _ from first_four (by omega)]
    dsimp only
    rw [next_more (by split_ifs <;> omega)]
    dsimp only
    rw [next_more (by omega)]
    dsimp only
    rw [next_last (by omega)]
    simp only [List.nil_append, List.singleton_append, List.cons.injEq, and_true]
    omega

theorem scalarsFrom_flatMap {cs : List Nat} (h : ∀ c ∈ cs, IsScalar c) :
    scalarsFrom .start (cs.flatMap ofScalar) = cs := by
  induction cs with
  | nil => rfl
  | cons c cs ih =>
    obtain ⟨hc, hcs⟩ := List.forall_mem_cons.1 h
    rw [List.flatMap_cons, scalarsFrom_ofScalar hc, ih hcs]

/-! ### What is decoded is scalar values -/

/-- The characters whose bits end up between `low` and `high`, after so many more bytes, are
scalar values that one byte does not spell. -/
def Completes : Nat → Nat → Nat → Prop
  | 0, low, high => 0x80 ≤ low ∧ (high < 0xd800 ∨ (0xe000 ≤ low ∧ high < 0x110000))
  | more + 1, low, high => Completes more (low * 0x40) (high * 0x40 + 0x3f)

theorem Completes.mono {more low high low' high' : Nat} (h : Completes more low high)
    (hlow : low ≤ low') (hhigh : high' ≤ high) : Completes more low' high' := by
  induction more generalizing low high low' high' with
  | zero =>
    simp only [Completes] at h ⊢
    omega
  | succ more ih => exact ih h (by omega) (by omega)

/-- **The invariant of the decoder**: the character it stands in can only become a scalar value,
in its shortest spelling. -/
def Sound : State → Prop
  | .start => True
  | .owing more bits low high => 0x80 ≤ low ∧ high ≤ 0xbf ∧
    Completes more (bits * 0x40 + (low - 0x80)) (bits * 0x40 + (high - 0x80))

theorem first_sound (b : Nat) :
    Sound (first b).2 ∧ ∀ c ∈ (first b).1, IsScalar c ∧ (c < 0x80 → b = c) := by
  unfold first
  split_ifs with h1 h2 h3 h4 <;>
    simp [Sound, Completes, IsScalar, replacement] <;> omega

theorem next_sound {q : State} (hq : Sound q) (b : Nat) :
    Sound (next q b).2 ∧ ∀ c ∈ (next q b).1, IsScalar c ∧ (c < 0x80 → b = c) := by
  cases q with
  | start => exact first_sound b
  | owing more bits low high =>
    obtain ⟨hlow, hhigh, hbits⟩ := hq
    by_cases hb : low ≤ b ∧ b ≤ high
    · have hin : Completes more (bits * 0x40 + (b - 0x80)) (bits * 0x40 + (b - 0x80)) :=
        hbits.mono (by omega) (by omega)
      cases more with
      | zero =>
        rw [next_last hb]
        refine ⟨trivial, fun c hc => ?_⟩
        simp only [List.mem_singleton] at hc
        rw [hc]
        simp only [Completes, IsScalar] at hin ⊢
        omega
      | succ more =>
        rw [next_more hb]
        simp only [Completes] at hin
        have hrest : Completes more ((bits * 0x40 + (b - 0x80)) * 0x40 + (0x80 - 0x80))
            ((bits * 0x40 + (b - 0x80)) * 0x40 + (0xbf - 0x80)) :=
          hin.mono (by omega) (by omega)
        simp only [Sound, hrest]
        simp
    · obtain ⟨hsound, hout⟩ := first_sound b
      simp only [next, if_neg hb]
      refine ⟨hsound, fun c hc => ?_⟩
      rcases List.mem_cons.1 hc with rfl | hc
      · exact ⟨by decide, by simp [replacement]⟩
      · exact hout c hc

theorem scalarsFrom_scalar {q : State} (hq : Sound q) {bytes : List UInt8} :
    ∀ c ∈ scalarsFrom q bytes, IsScalar c ∧ (c < 0x80 → ∃ b ∈ bytes, b.toNat = c) := by
  induction bytes generalizing q with
  | nil =>
    intro c hc
    cases q with
    | start => cases hc
    | owing more bits low high =>
      obtain rfl := List.mem_singleton.1 hc
      exact ⟨by decide, by simp [replacement]⟩
  | cons b rest ih =>
    intro c hc
    obtain ⟨hsound, hout⟩ := next_sound hq b.toNat
    rw [scalarsFrom_cons, List.mem_append] at hc
    rcases hc with hc | hc
    · obtain ⟨hscalar, hascii⟩ := hout c hc
      exact ⟨hscalar, fun hlt => ⟨b, List.mem_cons_self, hascii hlt⟩⟩
    · obtain ⟨hscalar, hascii⟩ := ih hsound c hc
      refine ⟨hscalar, fun hlt => ?_⟩
      obtain ⟨b', hb', hc'⟩ := hascii hlt
      exact ⟨b', List.mem_cons_of_mem _ hb', hc'⟩

/-! ### A string is read back from its scalar values -/

theorem toNat_unit {n : Nat} (h : n < 0x10000) : n.toUInt16.toNat = n := by
  simp [Nat.toUInt16, h]

theorem isHigh_iff {u : UInt16} : isHigh u = true ↔ 0xd800 ≤ u.toNat ∧ u.toNat < 0xdc00 := by
  simp [isHigh, UInt16.le_iff_toNat_le, UInt16.lt_iff_toNat_lt]

theorem isLow_iff {u : UInt16} : isLow u = true ↔ 0xdc00 ≤ u.toNat ∧ u.toNat < 0xe000 := by
  simp [isLow, UInt16.le_iff_toNat_le, UInt16.lt_iff_toNat_lt]

theorem scalarsOf_codeUnits {c : Nat} (h : IsScalar c) (s : JsString) :
    scalarsOf (codeUnits c ++ s) = c :: scalarsOf s := by
  unfold IsScalar at h
  unfold codeUnits
  split_ifs with hc
  · have hunit : c.toUInt16.toNat = c := toNat_unit hc
    have hhigh : isHigh c.toUInt16 = false := by
      rw [← Bool.not_eq_true, isHigh_iff, hunit]
      omega
    have hlow : isLow c.toUInt16 = false := by
      rw [← Bool.not_eq_true, isLow_iff, hunit]
      omega
    have hself : unitScalar c.toUInt16 = c := by simp [unitScalar, hhigh, hlow, hunit]
    cases s with
    | nil => simp [scalarsOf, hself]
    | cons v s => simp [scalarsOf, hself, hhigh]
  · have hfirst : (0xd800 + (c - 0x10000) / 0x400).toUInt16.toNat =
        0xd800 + (c - 0x10000) / 0x400 := toNat_unit (by omega)
    have hsecond : (0xdc00 + (c - 0x10000) % 0x400).toUInt16.toNat =
        0xdc00 + (c - 0x10000) % 0x400 := toNat_unit (by omega)
    have hhigh : isHigh (0xd800 + (c - 0x10000) / 0x400).toUInt16 = true := by
      rw [isHigh_iff, hfirst]
      omega
    have hlow : isLow (0xdc00 + (c - 0x10000) % 0x400).toUInt16 = true := by
      rw [isLow_iff, hsecond]
      omega
    simp only [List.cons_append, List.nil_append, scalarsOf, hhigh, hlow, Bool.and_self, if_true,
      hfirst, hsecond, List.cons.injEq, and_true]
    omega

theorem scalarsOf_flatMap {cs : List Nat} (h : ∀ c ∈ cs, IsScalar c) :
    scalarsOf (cs.flatMap codeUnits) = cs := by
  induction cs with
  | nil => rfl
  | cons c cs ih =>
    obtain ⟨hc, hcs⟩ := List.forall_mem_cons.1 h
    rw [List.flatMap_cons, scalarsOf_codeUnits hc, ih hcs]

theorem unitScalar_scalar (u : UInt16) : IsScalar (unitScalar u) := by
  have hlt := u.toNat_lt
  unfold unitScalar
  split_ifs with h
  · decide
  · rw [Bool.or_eq_true, isHigh_iff, isLow_iff] at h
    unfold IsScalar
    omega

theorem scalarsOf_scalar (s : JsString) : ∀ c ∈ scalarsOf s, IsScalar c := by
  fun_induction scalarsOf s with
  | case1 => nofun
  | case2 u =>
    intro c hc
    rw [List.mem_singleton.1 hc]
    exact unitScalar_scalar u
  | case3 u v rest hpair ih =>
    rw [List.forall_mem_cons]
    refine ⟨?_, ih⟩
    rw [Bool.and_eq_true, isHigh_iff, isLow_iff] at hpair
    unfold IsScalar
    omega
  | case4 u v rest hpair ih =>
    rw [List.forall_mem_cons]
    exact ⟨unitScalar_scalar u, ih⟩

/-! ### What is lost -/

theorem decode_valid {cs : List Nat} (h : ∀ c ∈ cs, IsScalar c) :
    decodeUtf8 (cs.flatMap ofScalar) = cs.flatMap codeUnits := by
  rw [decodeUtf8, scalarsFrom_flatMap h]

theorem encode_wellFormed {cs : List Nat} (h : ∀ c ∈ cs, IsScalar c) :
    encodeUtf8 (cs.flatMap codeUnits) = cs.flatMap ofScalar := by
  rw [encodeUtf8, scalarsOf_flatMap h]

/-- What bytes decode to is well-formed. -/
theorem wellFormed_decode (bytes : List UInt8) : WellFormed (decodeUtf8 bytes) :=
  ⟨_, fun c hc => (scalarsFrom_scalar (q := .start) trivial c hc).1, rfl⟩

/-- What is written of a string is UTF-8. -/
theorem valid_encode (s : JsString) : Valid (encodeUtf8 s) := ⟨_, scalarsOf_scalar s, rfl⟩

/-- **A well-formed string is read back from its bytes.** -/
theorem decode_encode {s : JsString} (h : WellFormed s) : decodeUtf8 (encodeUtf8 s) = s := by
  obtain ⟨cs, hcs, rfl⟩ := h
  rw [encode_wellFormed hcs, decode_valid hcs]

/-- **Bytes come back from what they decode to just when they are UTF-8.** -/
theorem encode_decode_iff (bytes : List UInt8) :
    encodeUtf8 (decodeUtf8 bytes) = bytes ↔ Valid bytes := by
  constructor
  · intro h
    rw [← h]
    exact valid_encode _
  · rintro ⟨cs, hcs, rfl⟩
    rw [decode_valid hcs, encode_wellFormed hcs]

theorem Valid.append {a b : List UInt8} (ha : Valid a) (hb : Valid b) : Valid (a ++ b) := by
  obtain ⟨cs, hcs, rfl⟩ := ha
  obtain ⟨ds, hds, rfl⟩ := hb
  refine ⟨cs ++ ds, fun c hc => ?_, List.flatMap_append.symm⟩
  exact (List.mem_append.1 hc).elim (hcs c) (hds c)

theorem scalarsFrom_flatMap_append {cs : List Nat} (h : ∀ c ∈ cs, IsScalar c)
    (rest : List UInt8) :
    scalarsFrom .start (cs.flatMap ofScalar ++ rest) = cs ++ scalarsFrom .start rest := by
  induction cs with
  | nil => rfl
  | cons c cs ih =>
    obtain ⟨hc, hcs⟩ := List.forall_mem_cons.1 h
    rw [List.flatMap_cons, List.append_assoc, scalarsFrom_ofScalar hc, ih hcs, List.cons_append]

/-- **What follows UTF-8 in UTF-8 is UTF-8.** -/
theorem Valid.right_of_append {a b : List UInt8} (ha : Valid a) (h : Valid (a ++ b)) :
    Valid b := by
  obtain ⟨cs, hcs, rfl⟩ := ha
  obtain ⟨ds, hds, hbytes⟩ := h
  have hscalars : cs ++ scalarsFrom .start b = ds := by
    rw [← scalarsFrom_flatMap_append hcs, hbytes, scalarsFrom_flatMap hds]
  rw [← hscalars, List.flatMap_append, List.append_cancel_left_eq] at hbytes
  exact ⟨_, fun c hc => (scalarsFrom_scalar (q := .start) trivial c hc).1, hbytes⟩

/-- ASCII is UTF-8. -/
theorem valid_of_lt {bytes : List UInt8} (h : ∀ b ∈ bytes, b < 0x80) : Valid bytes := by
  have hlt : ∀ b ∈ bytes, b.toNat < 0x80 := fun b hb => UInt8.lt_iff_toNat_lt.1 (h b hb)
  refine ⟨bytes.map UInt8.toNat, fun c hc => ?_, ?_⟩
  · obtain ⟨b, hb, rfl⟩ := List.mem_map.1 hc
    have := hlt b hb
    exact .inl (by omega)
  · clear h
    induction bytes with
    | nil => rfl
    | cons b bytes ih =>
      obtain ⟨hb, hrest⟩ := List.forall_mem_cons.1 hlt
      rw [List.map_cons, List.flatMap_cons, ← ih hrest, ofScalar, if_pos hb]
      simp [Nat.toUInt8]

instance (bytes : List UInt8) : Decidable (Valid bytes) :=
  decidable_of_iff _ (encode_decode_iff bytes)

theorem wellFormed_iff (s : JsString) : WellFormed s ↔ decodeUtf8 (encodeUtf8 s) = s := by
  refine ⟨decode_encode, fun h => ?_⟩
  rw [← h]
  exact wellFormed_decode _

instance (s : JsString) : Decidable (WellFormed s) :=
  decidable_of_iff _ (wellFormed_iff s).symm

theorem encode_inj {s s' : JsString} (h : WellFormed s) (h' : WellFormed s')
    (he : encodeUtf8 s = encodeUtf8 s') : s = s' := by
  rw [← decode_encode h, he, decode_encode h']

theorem decode_inj {bytes bytes' : List UInt8} (h : Valid bytes) (h' : Valid bytes')
    (he : decodeUtf8 bytes = decodeUtf8 bytes') : bytes = bytes' := by
  rw [← (encode_decode_iff bytes).2 h, he, (encode_decode_iff bytes').2 h']

/-- All code units are below the surrogates. -/
def noSurrogate (s : JsString) : Bool := s.all fun u => u.toNat.blt 0xd800

theorem lt_of_noSurrogate {s : JsString} (h : noSurrogate s = true) : ∀ u ∈ s, u.toNat < 0xd800 :=
  fun u hu => Nat.blt_eq ▸ List.all_eq_true.1 h u hu

theorem WellFormed.append {s s' : JsString} (h : WellFormed s) (h' : WellFormed s') :
    WellFormed (s ++ s') := by
  obtain ⟨cs, hcs, rfl⟩ := h
  obtain ⟨cs', hcs', rfl⟩ := h'
  refine ⟨cs ++ cs', fun c hc => ?_, List.flatMap_append.symm⟩
  rcases List.mem_append.1 hc with hc | hc
  · exact hcs c hc
  · exact hcs' c hc

theorem wellFormed_nil : WellFormed [] := ⟨[], nofun, rfl⟩

/-- A string without surrogates is well-formed. -/
theorem wellFormed_of_lt {s : JsString} (h : ∀ u ∈ s, u.toNat < 0xd800) : WellFormed s := by
  induction s with
  | nil => exact wellFormed_nil
  | cons u s ih =>
    obtain ⟨hu, hs⟩ := List.forall_mem_cons.1 h
    have hunit : WellFormed [u] := by
      refine ⟨[u.toNat], by simp [IsScalar, hu], ?_⟩
      simp [codeUnits, show u.toNat < 0x10000 by omega]
    exact hunit.append (ih hs)

theorem wellFormed_of_noSurrogate {s : JsString} (h : noSurrogate s = true) : WellFormed s :=
  wellFormed_of_lt (lt_of_noSurrogate h)

/-! ### Bytes that spell a character alone -/

theorem scalarsFrom_append_ascii (q : State) (hq : Sound q) {a : UInt8} (ha : a.toNat < 0x80)
    (bytes rest : List UInt8) :
    scalarsFrom q (bytes ++ a :: rest) =
      scalarsFrom q bytes ++ a.toNat :: scalarsFrom .start rest := by
  induction bytes generalizing q with
  | nil =>
    rw [List.nil_append, scalarsFrom_cons]
    cases q with
    | start =>
      rw [show next .start a.toNat = ([a.toNat], .start) from first_one ha]
      rfl
    | owing more bits low high =>
      obtain ⟨hlow, -⟩ := hq
      have hout : next (.owing more bits low high) a.toNat = ([replacement, a.toNat], .start) := by
        have hnot : ¬ (low ≤ a.toNat ∧ a.toNat ≤ high) := by omega
        simp only [next, if_neg hnot, first_one ha]
      rw [hout]
      rfl
  | cons b bytes ih =>
    rw [List.cons_append, scalarsFrom_cons, scalarsFrom_cons, ih _ (next_sound hq b.toNat).1,
      List.append_assoc]

/-- **Decoding splits at a byte below 0x80**, whatever stands around it. -/
theorem decode_append_ascii {a : UInt8} (ha : a.toNat < 0x80) (bytes rest : List UInt8) :
    decodeUtf8 (bytes ++ a :: rest) =
      decodeUtf8 bytes ++ a.toNat.toUInt16 :: decodeUtf8 rest := by
  unfold decodeUtf8
  rw [scalarsFrom_append_ascii .start trivial ha, List.flatMap_append, List.flatMap_cons]
  have hunits : codeUnits a.toNat = [a.toNat.toUInt16] := if_pos (by omega)
  rw [hunits]
  rfl

theorem decode_append_zero (bytes rest : List UInt8) :
    decodeUtf8 (bytes ++ 0 :: rest) = decodeUtf8 bytes ++ 0 :: decodeUtf8 rest :=
  decode_append_ascii (by decide) bytes rest

theorem ascii_mem_codeUnits {c : Nat} {u : UInt16} (hc : IsScalar c) (hu : u.toNat < 0x80)
    (h : u ∈ codeUnits c) : c = u.toNat := by
  unfold IsScalar at hc
  unfold codeUnits at h
  split_ifs at h with hlt
  · have hunit := congrArg UInt16.toNat (List.mem_singleton.1 h)
    rw [toNat_unit hlt] at hunit
    exact hunit.symm
  · simp only [List.mem_cons, List.not_mem_nil, or_false] at h
    rcases h with h | h
    · have hunit := congrArg UInt16.toNat h
      rw [toNat_unit (by omega)] at hunit
      omega
    · have hunit := congrArg UInt16.toNat h
      rw [toNat_unit (by omega)] at hunit
      omega

/-- **A character below 0x80 comes from its byte.** -/
theorem ascii_not_mem_decode {a : UInt8} (ha : a.toNat < 0x80) {bytes : List UInt8}
    (h : a ∉ bytes) : a.toNat.toUInt16 ∉ decodeUtf8 bytes := by
  intro hmem
  have hunit : a.toNat.toUInt16.toNat = a.toNat := toNat_unit (by omega)
  obtain ⟨c, hc, hac⟩ := List.mem_flatMap.1 hmem
  obtain ⟨hscalar, hascii⟩ := scalarsFrom_scalar (q := .start) trivial c hc
  have hca : c = a.toNat := by rw [ascii_mem_codeUnits hscalar (by omega) hac, hunit]
  obtain ⟨b, hb, hbc⟩ := hascii (by omega)
  exact h (UInt8.toNat_inj.1 (hbc.trans hca) ▸ hb)

theorem zero_not_mem_decode {bytes : List UInt8} (h : 0 ∉ bytes) : 0 ∉ decodeUtf8 bytes :=
  ascii_not_mem_decode (a := 0) (by decide) h

theorem codeUnits_ne_nil (c : Nat) : codeUnits c ≠ [] := by
  unfold codeUnits
  split_ifs <;> simp

theorem scalarsFrom_owing_ne_nil (more bits low high : Nat) (bytes : List UInt8) :
    scalarsFrom (.owing more bits low high) bytes ≠ [] := by
  induction bytes generalizing more bits low high with
  | nil => simp [scalarsFrom]
  | cons b rest ih =>
    rw [scalarsFrom_cons]
    by_cases hb : low ≤ b.toNat ∧ b.toNat ≤ high
    · cases more with
      | zero => simp [next_last hb]
      | succ more =>
        rw [next_more hb]
        exact ih _ _ _ _
    · simp [next, hb]

/-- Something decodes to something. -/
theorem decode_ne_nil {bytes : List UInt8} (h : bytes ≠ []) : decodeUtf8 bytes ≠ [] := by
  have hscalars : scalarsFrom .start bytes ≠ [] := by
    cases bytes with
    | nil => exact absurd rfl h
    | cons b rest =>
      rw [scalarsFrom_cons]
      have hfirst : (first b.toNat).1 ≠ [] ∨
          ∃ more bits low high, (first b.toNat).2 = .owing more bits low high := by
        unfold first
        split_ifs <;> simp
      rw [show next .start b.toNat = first b.toNat from rfl]
      rcases hfirst with hout | ⟨more, bits, low, high, hq⟩
      · simp [hout]
      · simp [hq, scalarsFrom_owing_ne_nil]
  obtain ⟨c, cs, hcs⟩ := List.exists_cons_of_ne_nil hscalars
  rw [decodeUtf8, hcs, List.flatMap_cons]
  simp [codeUnits_ne_nil]

/-! ### What is written of a part -/

theorem scalarsOf_append {a : JsString} (h : WellFormed a) (s : JsString) :
    scalarsOf (a ++ s) = scalarsOf a ++ scalarsOf s := by
  obtain ⟨cs, hcs, rfl⟩ := h
  rw [scalarsOf_flatMap hcs]
  induction cs with
  | nil => rfl
  | cons c cs ih =>
    obtain ⟨hc, hrest⟩ := List.forall_mem_cons.1 hcs
    rw [List.flatMap_cons, List.append_assoc, scalarsOf_codeUnits hc, ih hrest, List.cons_append]

/-- **A well-formed string is written before what follows it.** -/
theorem WellFormed.encode_append {a : JsString} (h : WellFormed a) (s : JsString) :
    encodeUtf8 (a ++ s) = encodeUtf8 a ++ encodeUtf8 s := by
  unfold encodeUtf8
  rw [scalarsOf_append h, List.flatMap_append]

/-- Every code unit takes a byte at least. -/
theorem length_le_encode (s : JsString) : s.length ≤ (encodeUtf8 s).length := by
  have hone : ∀ c, 1 ≤ (ofScalar c).length := by
    intro c
    unfold ofScalar
    split_ifs <;> simp
  have hfour : ∀ c, 0x10000 ≤ c → 2 ≤ (ofScalar c).length := by
    intro c hc
    rw [ofScalar, if_neg (by omega), if_neg (by omega), if_neg (by omega)]
    simp
  unfold encodeUtf8
  fun_induction scalarsOf s with
  | case1 => exact le_rfl
  | case2 u => simpa using hone _
  | case3 u v rest hpair ih =>
    rw [List.flatMap_cons, List.length_append, List.length_cons, List.length_cons]
    have := hfour (0x10000 + (u.toNat - 0xd800) * 0x400 + (v.toNat - 0xdc00)) (by omega)
    omega
  | case4 u v rest _ ih =>
    rw [List.flatMap_cons, List.length_append, List.length_cons]
    have := hone (unitScalar u)
    omega

/-- **A byte below 0x80 comes from its character.** -/
theorem ascii_not_mem_encode {a : UInt8} (ha : a.toNat < 0x80) {s : JsString} (hs : WellFormed s)
    (h : a.toNat.toUInt16 ∉ s) : a ∉ encodeUtf8 s := by
  intro hmem
  obtain ⟨before, after, hsplit⟩ := List.append_of_mem hmem
  refine h ?_
  rw [← decode_encode hs, hsplit, decode_append_ascii ha]
  simp

end Utf8
end Basis
end LaneBroker
