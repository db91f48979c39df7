/-
# An inflate engine

What the framing of a gzip member asks of the engine of zlib: it takes chunks, and decodes the one
raw deflate stream that they begin with.  It says how much of what it was given it has consumed; it
consumes nothing behind the end of the stream, and before that end it consumes everything
(`Engine.Inflates`).  So whatever part of a stream and of what follows it has been written, what was
consumed is as much of the stream as is there (`Engine.Inflates.feed`).
-/

import LaneBroker.Basis.SyncedFile
import Mathlib.Data.List.Induction

namespace LaneBroker
namespace Stream
namespace Inflate

open LaneBroker.Basis

/-- **A raw inflate engine.** -/
structure Engine where
  State : Type
  start : State
  /-- The state after some bytes, how many of them it has consumed, and the chunks that it has given
  out; none on an error. -/
  write : State → Bytes → Option (State × ℕ × List Bytes)
  /-- The chunks that it gives out at the end; none where the stream was cut short. -/
  finish : State → Option (List Bytes)

/-- Several writes: the state, all that was consumed, and all that was given out. -/
def Engine.feed (e : Engine) : e.State → List Bytes → Option (e.State × ℕ × Bytes)
  | st, [] => some (st, 0, [])
  | st, w :: ws => do
    let (st, n, out) ← e.write st w
    let (st, n', out') ← e.feed st ws
    return (st, n + n', out.flatten ++ out')

/-- **What the engine is taken to do**, for the raw deflate streams and what they decode to: it
decodes the stream that its input begins with, and consumes that much; where there is none yet it
consumes all. -/
structure Engine.Inflates (e : Engine) (deflates : Bytes → Bytes → Prop) : Prop where
  complete : ∀ ws s d rest, (∀ w ∈ ws, w ≠ []) → deflates s d → ws.flatten = s ++ rest →
    ∃ st out last, e.feed e.start ws = some (st, s.length, out) ∧ e.finish st = some last ∧
      out ++ last.flatten = d
  pending : ∀ ws st n out, (∀ w ∈ ws, w ≠ []) → e.feed e.start ws = some (st, n, out) →
    (∀ s d, deflates s d → ¬ s <+: ws.flatten) → n = ws.flatten.length ∧ e.finish st = none

/-! ### What the engine has done -/

section Engine

variable {e : Engine} {deflates : Bytes → Bytes → Prop}

theorem feed_append (st : e.State) (ws : List Bytes) (w : Bytes) :
    e.feed st (ws ++ [w]) = (e.feed st ws).bind fun r => (e.write r.1 w).map fun r' =>
      (r'.1, r.2.1 + r'.2.1, r.2.2 ++ r'.2.2.flatten) := by
  induction ws generalizing st with
  | nil =>
    cases hwrite : e.write st w with
    | none => simp [Engine.feed, hwrite]
    | some r => simp [Engine.feed, hwrite]
  | cons w' ws ih =>
    rw [List.cons_append, Engine.feed, Engine.feed]
    cases hwrite : e.write st w' with
    | none => rfl
    | some r =>
      simp only [Option.bind_eq_bind, Option.bind_some, ih]
      cases hrest : e.feed r.1 ws with
      | none => rfl
      | some r' =>
        cases hlast : e.write r'.1 w with
        | none => simp [hlast]
        | some r'' => simp [hlast, Nat.add_assoc, List.append_assoc]

/-- What goes through for a longer input went through for the shorter. -/
theorem feed_of_append {st : e.State} {ws : List Bytes} {w : Bytes}
    {r : e.State × ℕ × Bytes} (h : e.feed st (ws ++ [w]) = some r) :
    ∃ r₁ r₂, e.feed st ws = some r₁ ∧ e.write r₁.1 w = some r₂ ∧
      r = (r₂.1, r₁.2.1 + r₂.2.1, r₁.2.2 ++ r₂.2.2.flatten) := by
  rw [feed_append] at h
  obtain ⟨r₁, h₁, h⟩ := Option.bind_eq_some_iff.1 h
  obtain ⟨r₂, h₂, rfl⟩ := Option.map_eq_some_iff.1 h
  exact ⟨r₁, r₂, h₁, h₂, rfl⟩

/-- The rest of the input, as one more write. -/
def rest (more : Bytes) : List Bytes := if more = [] then [] else [more]

theorem flatten_rest (more : Bytes) : (rest more).flatten = more := by
  unfold rest
  split_ifs with hnil
  · exact hnil.symm
  · simp

/-- **Where the input is a stream and what follows it**: whatever part of it is written goes
through, the part of the stream that is there is consumed, and what was given out is the beginning of
what the stream decodes to. -/
theorem Engine.Inflates.feed (h : e.Inflates deflates) {ws : List Bytes} {s d t more : Bytes}
    (hws : ∀ w ∈ ws, w ≠ []) (hs : deflates s d) (heq : ws.flatten ++ more = s ++ t) :
    ∃ st out, e.feed e.start ws = some (st, min ws.flatten.length s.length, out) ∧ out <+: d ∧
      (more = [] → ∃ last, e.finish st = some last ∧ out ++ last.flatten = d) := by
  have hall : ∀ w ∈ ws ++ rest more, w ≠ [] := by
    intro w hw
    rcases List.mem_append.1 hw with hw | hw
    · exact hws w hw
    · unfold rest at hw
      split_ifs at hw with hnil
      · cases hw
      · rw [List.mem_singleton.1 hw]
        exact hnil
  have hflatten : (ws ++ rest more).flatten = s ++ t := by
    rw [List.flatten_append, flatten_rest, heq]
  obtain ⟨st, out, last, hfeed, hfinish, hout⟩ := h.complete _ s d t hall hs hflatten
  by_cases hmore : more = []
  · rw [rest, if_pos hmore, List.append_nil] at hfeed
    have hlong : s.length ≤ ws.flatten.length := by
      have hlength := congrArg List.length heq
      rw [hmore, List.append_nil, List.length_append] at hlength
      omega
    rw [min_eq_right hlong]
    exact ⟨st, out, hfeed, ⟨_, hout⟩, fun _ => ⟨last, hfinish, hout⟩⟩
  · rw [rest, if_neg hmore] at hfeed
    obtain ⟨⟨st₁, n₁, out₁⟩, r₂, hfeed₁, -, heq₂⟩ := feed_of_append hfeed
    obtain ⟨-, -, hout₂⟩ : st = r₂.1 ∧ s.length = n₁ + r₂.2.1 ∧ out = out₁ ++ r₂.2.2.flatten := by
      simpa using heq₂
    refine ⟨st₁, out₁, ?_, ⟨r₂.2.2.flatten ++ last.flatten, by rw [← hout, hout₂]; simp⟩,
      fun hnil => absurd hnil hmore⟩
    -- is the stream there as a whole, or only a part of it?
    by_cases hwhole : ∃ s' d', deflates s' d' ∧ s' <+: ws.flatten
    · obtain ⟨s', d', hs', rest', hrest'⟩ := hwhole
      obtain ⟨st', out', -, hfeed', -, -⟩ := h.complete ws s' d' rest' hws hs' hrest'.symm
      obtain ⟨st'', out'', -, hfeed'', -, -⟩ := h.complete _ s' d' (rest' ++ more) hall hs' (by
        rw [List.flatten_append, flatten_rest, ← hrest', List.append_assoc])
      rw [rest, if_neg hmore, hfeed] at hfeed''
      have hlength : s.length = s'.length := by
        have := Option.some.inj hfeed''
        simp only [Prod.mk.injEq] at this
        exact this.2.1
      rw [hfeed₁] at hfeed'
      have hn : n₁ = s'.length := by
        have := Option.some.inj hfeed'
        simp only [Prod.mk.injEq] at this
        exact this.2.1
      have hshort : s'.length ≤ ws.flatten.length := by
        rw [← hrest', List.length_append]
        omega
      rw [hfeed₁, hn, hlength, min_eq_right hshort]
    · have hnone : ∀ s d, deflates s d → ¬ s <+: ws.flatten :=
        fun s' d' hs' hbegins => hwhole ⟨s', d', hs', hbegins⟩
      obtain ⟨hn, -⟩ := h.pending ws st₁ n₁ out₁ hws hfeed₁ hnone
      have hshort : ws.flatten.length ≤ s.length := by
        by_contra hlong
        have hthere : s <+: ws.flatten ++ more := ⟨t, heq.symm⟩
        exact hnone s d hs (List.prefix_of_prefix_length_le hthere ⟨more, rfl⟩ (by omega))
      rw [hfeed₁, hn, min_eq_left hshort]

/-- **How much is consumed**: the stream that the input begins with, or else all of it. -/
theorem Engine.Inflates.consumed (h : e.Inflates deflates) {ws : List Bytes} {st : e.State}
    {n : ℕ} {out : Bytes} (hws : ∀ w ∈ ws, w ≠ []) (hfeed : e.feed e.start ws = some (st, n, out)) :
    (∃ s d, deflates s d ∧ s <+: ws.flatten ∧ n = s.length ∧
        ∃ last, e.finish st = some last ∧ out ++ last.flatten = d) ∨
      (∀ s d, deflates s d → ¬ s <+: ws.flatten) ∧ n = ws.flatten.length ∧ e.finish st = none := by
  by_cases hwhole : ∃ s d, deflates s d ∧ s <+: ws.flatten
  · obtain ⟨s, d, hs, more, hmore⟩ := hwhole
    obtain ⟨st', out', last, hfeed', hfinish, hout⟩ := h.complete ws s d more hws hs hmore.symm
    rw [hfeed] at hfeed'
    obtain ⟨rfl, rfl, rfl⟩ : st = st' ∧ n = s.length ∧ out = out' := by simpa using hfeed'
    exact .inl ⟨s, d, hs, ⟨more, hmore⟩, rfl, last, hfinish, hout⟩
  · have hnone : ∀ s d, deflates s d → ¬ s <+: ws.flatten :=
      fun s d hs hbegins => hwhole ⟨s, d, hs, hbegins⟩
    exact .inr ⟨hnone, h.pending ws st n out hws hfeed hnone⟩

/-- **What a write leaves over** goes behind what was left over before. -/
theorem Engine.Inflates.leftover (h : e.Inflates deflates) {ws : List Bytes} {w : Bytes}
    {st st' : e.State} {n k : ℕ} {out out' : Bytes} (hws : ∀ w ∈ ws, w ≠ []) (hw : w ≠ [])
    (hfeed : e.feed e.start ws = some (st, n, out))
    (hfeed' : e.feed e.start (ws ++ [w]) = some (st', n + k, out')) :
    (if k < w.length then ws.flatten.drop n ++ w.drop k else ws.flatten.drop n) =
      (ws ++ [w]).flatten.drop (n + k) := by
  have hws' : ∀ w' ∈ ws ++ [w], w' ≠ [] := by
    intro w' hw'
    rcases List.mem_append.1 hw' with hw' | hw'
    · exact hws w' hw'
    · rwa [List.mem_singleton.1 hw']
  have hflatten : (ws ++ [w]).flatten = ws.flatten ++ w := by simp
  have hpos := List.length_pos_of_ne_nil hw
  rw [hflatten]
  rcases h.consumed hws hfeed with ⟨s, d, hs, ⟨more, hmore⟩, rfl, -⟩ | ⟨-, rfl, -⟩
  · -- the stream was there before, and nothing more is consumed
    obtain ⟨st₂, out₂, -, hfeed₂, -, -⟩ := h.complete _ s d (more ++ w) hws' hs (by
      rw [hflatten, ← hmore, List.append_assoc])
    have hk : k = 0 := by
      rw [hfeed'] at hfeed₂
      have hlength : s.length + k = s.length := by
        have := Option.some.inj hfeed₂
        simp only [Prod.mk.injEq] at this
        exact this.2.1
      omega
    rw [hk, if_pos hpos, List.drop_zero, Nat.add_zero,
      List.drop_append_of_le_length (by rw [← hmore, List.length_append]; omega)]
  · have hk : k ≤ w.length := by
      rcases h.consumed hws' hfeed' with ⟨s, d, -, hbegins, hn, -⟩ | ⟨-, hn, -⟩
      · have hle := hbegins.length_le
        rw [hflatten, List.length_append] at hle
        omega
      · rw [hflatten, List.length_append] at hn
        omega
    have hpast : ws.flatten.drop (ws.flatten.length + k) = [] :=
      List.drop_of_length_le (Nat.le_add_right _ _)
    rw [List.drop_length, List.nil_append, List.drop_append, hpast, List.nil_append,
      Nat.add_sub_cancel_left]
    split_ifs with hless
    · rfl
    · exact (List.drop_of_length_le (by omega)).symm

end Engine

/-! ### A stored block

The least engine: it knows the stream of one stored block, the last, and decodes it as a whole. -/

/-- **One stored block**, the last of its stream. -/
def Stored (s d : Bytes) : Prop :=
  ∃ lo hi : UInt8, s = 1 :: lo :: hi :: ~~~lo :: ~~~hi :: d ∧ d.length = lo.toNat + 256 * hi.toNat

/-- What the block decodes to that some bytes begin with, where it is there as a whole. -/
def storedIn : Bytes → Option Bytes
  | 1 :: lo :: hi :: nlo :: nhi :: body =>
    let length := lo.toNat + 256 * hi.toNat
    if nlo = ~~~lo ∧ nhi = ~~~hi ∧ length ≤ body.length then some (body.take length) else none
  | _ => none

/-- **The engine of a stored block.** -/
abbrev storedEngine : Engine where
  State := Bytes
  start := []
  write st w :=
    match storedIn st, storedIn (st ++ w) with
    | some _, _ => some (st ++ w, 0, [])
    | none, some d => some (st ++ w, 5 + d.length - st.length, [d])
    | none, none => some (st ++ w, w.length, [])
  finish st := (storedIn st).map fun _ => []

theorem Stored.length {s d : Bytes} (h : Stored s d) : s.length = 5 + d.length := by
  obtain ⟨lo, hi, rfl, -⟩ := h
  simp only [List.length_cons]
  omega

theorem storedIn_eq_some {bytes d : Bytes} :
    storedIn bytes = some d ↔ ∃ s, Stored s d ∧ s <+: bytes := by
  constructor
  · intro h
    unfold storedIn at h
    split at h
    · rename_i lo hi nlo nhi body
      simp only at h
      split_ifs at h with hgood
      obtain ⟨rfl, rfl, hlong⟩ := hgood
      obtain rfl := Option.some.inj h
      refine ⟨_, ⟨lo, hi, rfl, by rw [List.length_take, min_eq_left hlong]⟩,
        body.drop (lo.toNat + 256 * hi.toNat), ?_⟩
      simp only [List.cons_append, List.take_append_drop]
    · cases h
  · rintro ⟨s, ⟨lo, hi, rfl, hlength⟩, more, rfl⟩
    simp only [List.cons_append, storedIn]
    rw [if_pos ⟨trivial, trivial, by rw [List.length_append]; omega⟩, ← hlength, List.take_left]

theorem storedIn_append {bytes more d : Bytes} (h : storedIn bytes = some d) :
    storedIn (bytes ++ more) = some d := by
  obtain ⟨s, hs, hbegins⟩ := storedIn_eq_some.1 h
  exact storedIn_eq_some.2 ⟨s, hs, hbegins.trans (List.prefix_append ..)⟩

/-- The block is not there before all of it is. -/
theorem length_lt_of_storedIn {bytes more d : Bytes} (h : storedIn bytes = none)
    (hmore : storedIn (bytes ++ more) = some d) : bytes.length < 5 + d.length := by
  obtain ⟨s, hs, hbegins⟩ := storedIn_eq_some.1 hmore
  by_contra hlong
  rw [← hs.length, not_lt] at hlong
  have hthere := storedIn_eq_some.2
    ⟨s, hs, List.prefix_of_prefix_length_le hbegins (List.prefix_append ..) hlong⟩
  rw [h] at hthere
  cases hthere

/-- **What is fed to it**: all that was written, how much of that it has consumed, and the block. -/
theorem feed_storedEngine (ws : List Bytes) :
    storedEngine.feed storedEngine.start ws = some (ws.flatten,
      ((storedIn ws.flatten).map fun d => 5 + d.length).getD ws.flatten.length,
      (storedIn ws.flatten).getD []) := by
  induction ws using List.reverseRecOn with
  | nil => rfl
  | append_singleton ws w ih =>
    have hflatten : (ws ++ [w]).flatten = ws.flatten ++ w := by simp
    rw [feed_append, ih, Option.bind_some, hflatten]
    cases hbefore : storedIn ws.flatten with
    | some d => simp [storedEngine, hbefore, storedIn_append hbefore]
    | none =>
      cases hafter : storedIn (ws.flatten ++ w) with
      | none => simp [storedEngine, hbefore, hafter]
      | some d =>
        have hless := length_lt_of_storedIn hbefore hafter
        simp only [storedEngine, hbefore, hafter, Option.map_some, Option.map_none,
          Option.getD_some, Option.getD_none, List.flatten_singleton, List.nil_append]
        rw [Nat.add_sub_cancel' hless.le]

/-- **It inflates a stored block.** -/
theorem storedEngine_inflates : storedEngine.Inflates Stored where
  complete ws s d rest _ hs heq := by
    have hin : storedIn ws.flatten = some d :=
      storedIn_eq_some.2 ⟨s, hs, ⟨rest, heq.symm⟩⟩
    refine ⟨ws.flatten, d, [], ?_, ?_, by simp⟩
    · rw [feed_storedEngine, hin, hs.length]
      rfl
    · show (storedIn ws.flatten).map _ = some []
      rw [hin]
      rfl
  pending ws st n out _ hfeed hnone := by
    have hin : storedIn ws.flatten = none := by
      cases h : storedIn ws.flatten with
      | none => rfl
      | some d =>
        obtain ⟨s, hs, hbegins⟩ := storedIn_eq_some.1 h
        exact absurd hbegins (hnone s d hs)
    rw [feed_storedEngine, hin] at hfeed
    obtain ⟨rfl, rfl, -⟩ : ws.flatten = st ∧ ws.flatten.length = n ∧ _ := by simpa using hfeed
    refine ⟨rfl, ?_⟩
    show (storedIn ws.flatten).map _ = none
    rw [hin]
    rfl

end Inflate
end Stream
end LaneBroker
