/-
# Replacing words in a text

A text is cut, from left to right, into the words of a list, the longest where several begin at
one place, and the symbols between them (`cut`).  To replace words is put write the pieces with
something else for each word (`render`), so two replacements of the same words in one text differ
in nothing but what they write.

When words are replaced by tokens, and the tokens by other words later, the second cut has to find
the tokens where they were written and nowhere else.  It does when a token stands between double
marks (`token`) and every word stood after a symbol that no token has, or at the front, or after
another word: a token read at a symbol of the text would have to lie in the text as a whole
(`cut_render`).

At the end, a text that is read in chunks, each with the end of what was read before it: a word is
seen whole in one of these windows (`exists_window_iff`).
-/

import LaneBroker.Basis.Framing
import Mathlib.Data.List.Infix
import Mathlib.Data.List.MinMax

namespace LaneBroker
namespace Basis
namespace Substitution

variable {α : Type}

/-! ### Pieces -/

/-- **A piece of a text that is cut up.** -/
inductive Piece (α : Type)
  /-- A symbol between the words. -/
  | keep (a : α)
  | word (w : List α)
  deriving DecidableEq, Repr

/-- **The pieces with something written for each word.** -/
def render (put : List α → List α) : List (Piece α) → List α
  | [] => []
  | .keep a :: ps => a :: render put ps
  | .word w :: ps => put w ++ render put ps

/-- The piece with another word for its word. -/
def Piece.replace (put : List α → List α) : Piece α → Piece α
  | .keep a => .keep a
  | .word w => .word (put w)

theorem render_append (put : List α → List α) (ps qs : List (Piece α)) :
    render put (ps ++ qs) = render put ps ++ render put qs := by
  induction ps with
  | nil => rfl
  | cons p ps ih =>
    cases p with
    | keep a => simp [render, ih]
    | word w => simp [render, ih]

theorem render_map_keep (put : List α → List α) (gap : List α) :
    render put (gap.map .keep) = gap := by
  induction gap with
  | nil => rfl
  | cons a gap ih => rw [List.map_cons, render, ih]

theorem render_congr {put put' : List α → List α} {ps : List (Piece α)}
    (h : ∀ w, .word w ∈ ps → put w = put' w) : render put ps = render put' ps := by
  induction ps with
  | nil => rfl
  | cons p ps ih =>
    have hrest := ih fun w hw => h w (List.mem_cons_of_mem _ hw)
    cases p with
    | keep a => rw [render, render, hrest]
    | word w => rw [render, render, hrest, h w List.mem_cons_self]

theorem render_replace (back put : List α → List α) (ps : List (Piece α)) :
    render back (ps.map (Piece.replace put)) = render (fun w => back (put w)) ps := by
  induction ps with
  | nil => rfl
  | cons p ps ih =>
    cases p with
    | keep a | word w => simp [Piece.replace, render, ih]

/-! ### Cutting a text -/

section cutting

variable [DecidableEq α]

/-- **The longest word that the text begins with.** -/
def longest (ws : List (List α)) (text : List α) : Option (List α) :=
  (ws.filter fun w => w ≠ [] ∧ w <+: text).argmax List.length

theorem longest_eq_some_iff {ws : List (List α)} {text w : List α} :
    longest ws text = some w ↔ w ∈ ws ∧ w ≠ [] ∧ w <+: text ∧
      ∀ w' ∈ ws, w' ≠ [] → w' <+: text → w'.length ≤ w.length := by
  unfold longest
  constructor
  · intro h
    have hmem := List.argmax_mem h
    rw [List.mem_filter, decide_eq_true_iff] at hmem
    refine ⟨hmem.1, hmem.2.1, hmem.2.2, fun w' hw' hne hpre => ?_⟩
    refine List.le_of_mem_argmax ?_ h
    rw [List.mem_filter, decide_eq_true_iff]
    exact ⟨hw', hne, hpre⟩
  · rintro ⟨hmem, hne, hpre, hmax⟩
    have hfilter : w ∈ ws.filter fun w => w ≠ [] ∧ w <+: text := by
      rw [List.mem_filter, decide_eq_true_iff]
      exact ⟨hmem, hne, hpre⟩
    obtain ⟨v, hv⟩ : ∃ v, (ws.filter fun w => w ≠ [] ∧ w <+: text).argmax List.length = some v := by
      rw [← Option.isSome_iff_exists, Option.isSome_iff_ne_none, Ne, List.argmax_eq_none]
      exact List.ne_nil_of_mem hfilter
    have hvmem := List.argmax_mem hv
    rw [List.mem_filter, decide_eq_true_iff] at hvmem
    obtain ⟨hvws, hvne, hvpre⟩ := hvmem
    have hlen : v.length = w.length :=
      le_antisymm (hmax v hvws hvne hvpre) (List.le_of_mem_argmax hfilter hv)
    rw [hv, List.prefix_iff_eq_take.1 hvpre, List.prefix_iff_eq_take.1 hpre, hlen]

theorem longest_eq_none_iff {ws : List (List α)} {text : List α} :
    longest ws text = none ↔ ∀ w ∈ ws, w ≠ [] → ¬ w <+: text := by
  unfold longest
  rw [List.argmax_eq_none, List.filter_eq_nil_iff]
  refine forall₂_congr fun w _ => ?_
  rw [decide_eq_true_iff, not_and]

/-- Only the words that occur in the text count. -/
theorem longest_congr {ws ws' : List (List α)} {text : List α}
    (h : ∀ w, w <+: text → (w ∈ ws ↔ w ∈ ws')) : longest ws text = longest ws' text := by
  ext w
  rw [longest_eq_some_iff, longest_eq_some_iff]
  constructor
  · rintro ⟨hmem, hne, hpre, hmax⟩
    exact ⟨(h w hpre).1 hmem, hne, hpre, fun w' hw' hne' hpre' =>
      hmax w' ((h w' hpre').2 hw') hne' hpre'⟩
  · rintro ⟨hmem, hne, hpre, hmax⟩
    exact ⟨(h w hpre).2 hmem, hne, hpre, fun w' hw' hne' hpre' =>
      hmax w' ((h w' hpre').1 hw') hne' hpre'⟩

/-- **The pieces of a text.** -/
def cut (ws : List (List α)) : List α → List (Piece α)
  | [] => []
  | a :: rest =>
    match _h : longest ws (a :: rest) with
    | none => .keep a :: cut ws rest
    | some w => .word w :: cut ws ((a :: rest).drop w.length)
termination_by text => text.length
decreasing_by
  · simp
  · have := List.length_pos_iff.2 (longest_eq_some_iff.1 _h).2.1
    simp only [List.length_drop, List.length_cons]
    omega

/-- **Every word of the text replaced**, in one pass from left to right. -/
def substitute (ws : List (List α)) (put : List α → List α) (text : List α) : List α :=
  render put (cut ws text)

theorem cut_keep {ws : List (List α)} {a : α} {rest : List α}
    (h : longest ws (a :: rest) = none) : cut ws (a :: rest) = .keep a :: cut ws rest := by
  rw [cut]
  split
  · rfl
  · rename_i w hw
    rw [h] at hw
    cases hw

theorem cut_word {ws : List (List α)} {w rest : List α} (h : longest ws (w ++ rest) = some w) :
    cut ws (w ++ rest) = .word w :: cut ws rest := by
  obtain ⟨a, w, rfl⟩ := List.exists_cons_of_ne_nil (longest_eq_some_iff.1 h).2.1
  rw [List.cons_append] at h ⊢
  rw [cut]
  split
  · rename_i hnone
    rw [h] at hnone
    cases hnone
  · rename_i v hv
    obtain rfl := Option.some.inj (h.symm.trans hv)
    rw [← List.cons_append, List.drop_left]

/-- Symbols at which no word begins are kept. -/
theorem cut_append {ws : List (List α)} {gap rest : List α}
    (h : ∀ post, post ≠ [] → post <:+ gap → longest ws (post ++ rest) = none) :
    cut ws (gap ++ rest) = gap.map .keep ++ cut ws rest := by
  induction gap with
  | nil => rfl
  | cons a gap ih =>
    have hkeep : longest ws (a :: (gap ++ rest)) = none :=
      h (a :: gap) (by simp) (List.suffix_refl _)
    rw [List.cons_append, cut_keep hkeep, ih, List.map_cons, List.cons_append]
    exact fun post hne hpost => h post hne (hpost.trans (List.suffix_cons a gap))

/-- **Only the words that occur in the text count.** -/
theorem cut_congr {ws ws' : List (List α)} {text : List α}
    (h : ∀ w, w <:+: text → (w ∈ ws ↔ w ∈ ws')) : cut ws text = cut ws' text := by
  induction hlen : text.length using Nat.strong_induction_on generalizing text with
  | _ n ih =>
    cases text with
    | nil => simp [cut]
    | cons a rest =>
      have hlongest : longest ws (a :: rest) = longest ws' (a :: rest) :=
        longest_congr fun w hw => h w hw.isInfix
      cases hw : longest ws (a :: rest) with
      | none =>
        rw [cut_keep hw, cut_keep (hlongest ▸ hw)]
        rw [ih rest.length (by simp [← hlen]) (fun w hw => h w (hw.trans (List.infix_cons
          (List.infix_refl rest)))) rfl]
      | some w =>
        obtain ⟨-, hne, ⟨post, hpost⟩, -⟩ := longest_eq_some_iff.1 hw
        have hpos := List.length_pos_iff.2 hne
        rw [← hpost] at hw hlongest h hlen ⊢
        rw [List.length_append] at hlen
        rw [cut_word hw, cut_word (hlongest ▸ hw)]
        rw [ih post.length (by omega) (fun w hw => h w (List.infix_append_of_infix_right hw)) rfl]

/-- **A text is what its pieces say.** -/
theorem render_cut (ws : List (List α)) (text : List α) : render id (cut ws text) = text := by
  induction hlen : text.length using Nat.strong_induction_on generalizing text with
  | _ n ih =>
    cases text with
    | nil => simp [cut, render]
    | cons a rest =>
      cases hw : longest ws (a :: rest) with
      | none => rw [cut_keep hw, render, ih rest.length (by simp [← hlen]) rest rfl]
      | some w =>
        obtain ⟨-, hne, ⟨post, hpost⟩, -⟩ := longest_eq_some_iff.1 hw
        have hpos := List.length_pos_iff.2 hne
        rw [← hpost] at hw hlen ⊢
        rw [List.length_append] at hlen
        rw [cut_word hw, render, id, ih post.length (by omega) post rfl]

/-- The words in the pieces are words of the list. -/
theorem mem_of_word_mem {ws : List (List α)} {text w : List α} (h : .word w ∈ cut ws text) :
    w ∈ ws := by
  induction hlen : text.length using Nat.strong_induction_on generalizing text with
  | _ n ih =>
    cases text with
    | nil => simp [cut] at h
    | cons a rest =>
      cases hw : longest ws (a :: rest) with
      | none =>
        rw [cut_keep hw, List.mem_cons] at h
        exact ih rest.length (by simp [← hlen]) (h.resolve_left nofun) rfl
      | some v =>
        obtain ⟨hmem, hne, ⟨post, hpost⟩, -⟩ := longest_eq_some_iff.1 hw
        have hpos := List.length_pos_iff.2 hne
        rw [← hpost] at hw hlen h
        rw [List.length_append] at hlen
        rw [cut_word hw, List.mem_cons] at h
        rcases h with h | h
        · rwa [Piece.word.inj h]
        · exact ih post.length (by omega) h rfl

/-- The words in the pieces stand in the text. -/
theorem infix_of_word_mem {ws : List (List α)} {text w : List α} (h : .word w ∈ cut ws text) :
    w <:+: text := by
  obtain ⟨ps, qs, hps⟩ := List.append_of_mem h
  have htext := render_cut ws text
  rw [hps, render_append, render] at htext
  rw [← htext]
  exact List.infix_append' _ _ _

/-- Where no word stands, nothing is replaced. -/
theorem substitute_of_not_infix {ws : List (List α)} {put : List α → List α} {text : List α}
    (h : ∀ w ∈ ws, ¬ w <:+: text) : substitute ws put text = text := by
  have hrender : render put (cut ws text) = render id (cut ws text) := render_congr fun w hw =>
    absurd (infix_of_word_mem hw) (h w (mem_of_word_mem hw))
  rw [substitute, hrender, render_cut]

end cutting

/-! ### Tokens between double marks -/

/-- **A token**: its body between double marks. -/
def token (mark : α) (body : List α) : List α := mark :: mark :: (body ++ [mark, mark])

theorem token_ne_nil (mark : α) (body : List α) : token mark body ≠ [] := by simp [token]

/-- **A token is read back from what begins with it.** -/
theorem token_prefix_inj {mark : α} {b b' rest rest' : List α} (hb : mark ∉ b) (hb' : mark ∉ b')
    (h : token mark b ++ rest = token mark b' ++ rest') : b = b' := by
  simp only [token, List.cons_append, List.append_assoc, List.nil_append, List.cons.injEq,
    true_and] at h
  exact (Framing.cut_inj hb hb' h).1

/-- **No word stands right after a symbol that is not a delimiter.** -/
def Delimited (delim : α → Prop) (ps : List (Piece α)) : Prop :=
  ∀ a w, [.keep a, .word w] <:+: ps → delim a

theorem Delimited.tail {delim : α → Prop} {p : Piece α} {ps : List (Piece α)}
    (h : Delimited delim (p :: ps)) : Delimited delim ps :=
  fun a w hin => h a w (List.infix_cons hin)

theorem Delimited.head {delim : α → Prop} {a : α} {w : List α} {ps : List (Piece α)}
    (h : Delimited delim (.keep a :: .word w :: ps)) : delim a :=
  h a w ⟨[], ps, rfl⟩

/-- **What has no delimiter and begins at a symbol of the text lies in the text.** -/
theorem prefix_of_prefix_render {delim : α → Prop} {put : List α → List α} {t : List α}
    (ht : ∀ x ∈ t, ¬ delim x) {ps : List (Piece α)} (hps : Delimited delim ps)
    (hfront : ∀ w rest, ps ≠ .word w :: rest) (h : t <+: render put ps) : t <+: render id ps := by
  induction ps generalizing t with
  | nil => exact h
  | cons p ps ih =>
    cases p with
    | word w => exact absurd rfl (hfront w ps)
    | keep a =>
      rw [render] at h ⊢
      cases t with
      | nil => exact List.nil_prefix
      | cons x t =>
        obtain ⟨rfl, htail⟩ := List.cons_prefix_cons.1 h
        obtain ⟨hx, hrest⟩ := List.forall_mem_cons.1 ht
        refine List.cons_prefix_cons.2 ⟨rfl, ih hrest hps.tail ?_ htail⟩
        rintro w rest rfl
        exact hx hps.head

section tokens

variable [DecidableEq α]

/-- Where the text goes on with a token, no other token begins. -/
theorem longest_token {mark : α} {bodies : List (List α)} (hbodies : ∀ b ∈ bodies, mark ∉ b)
    {b : List α} (hb : b ∈ bodies) (rest : List α) :
    longest (bodies.map (token mark)) (token mark b ++ rest) = some (token mark b) := by
  rw [longest_eq_some_iff]
  refine ⟨List.mem_map_of_mem hb, token_ne_nil mark b, List.prefix_append _ _, ?_⟩
  intro w hw _ hpre
  obtain ⟨b', hb', rfl⟩ := List.mem_map.1 hw
  obtain ⟨rest', hrest'⟩ := hpre
  rw [token_prefix_inj (hbodies b' hb') (hbodies b hb) hrest']

/-- **The tokens are found where they were written.**  No token lies in the text, and no token has
a delimiter. -/
theorem cut_render {delim : α → Prop} {mark : α} {bodies : List (List α)} {put : List α → List α}
    (hbodies : ∀ b ∈ bodies, mark ∉ b)
    (hdelim : ∀ b ∈ bodies, ∀ x ∈ token mark b, ¬ delim x) {ps : List (Piece α)}
    (hput : ∀ w, .word w ∈ ps → ∃ b ∈ bodies, put w = token mark b) (hps : Delimited delim ps)
    (hno : ∀ b ∈ bodies, ¬ token mark b <:+: render id ps) :
    cut (bodies.map (token mark)) (render put ps) =
      ps.map (Piece.replace put) := by
  induction ps with
  | nil => simp [render, cut]
  | cons p ps ih =>
    have hput' : ∀ w, .word w ∈ ps → ∃ b ∈ bodies, put w = token mark b :=
      fun w hw => hput w (List.mem_cons_of_mem _ hw)
    cases p with
    | word w =>
      obtain ⟨b, hb, hw⟩ := hput w List.mem_cons_self
      have hno' : ∀ b ∈ bodies, ¬ token mark b <:+: render id ps :=
        fun b hb hin => hno b hb (List.infix_append_of_infix_right hin)
      rw [render, hw, cut_word (longest_token hbodies hb _), ih hput' hps.tail hno', List.map_cons,
        Piece.replace, hw]
    | keep a =>
      have hno' : ∀ b ∈ bodies, ¬ token mark b <:+: render id ps :=
        fun b hb hin => hno b hb (List.infix_cons hin)
      have hnone : longest (bodies.map (token mark)) (a :: render put ps) = none := by
        rw [longest_eq_none_iff]
        intro t ht _ hpre
        obtain ⟨b, hb, rfl⟩ := List.mem_map.1 ht
        exact hno b hb (prefix_of_prefix_render (hdelim b hb) hps nofun hpre).isInfix
      rw [render, cut_keep hnone, ih hput' hps.tail hno', List.map_cons, Piece.replace]

/-- **A text in which the words were replaced by tokens, and the tokens by something else, is the
text with the words replaced by that.** -/
theorem substitute_token {delim : α → Prop} {mark : α} {ws bodies : List (List α)}
    {put back : List α → List α} {text : List α} (hbodies : ∀ b ∈ bodies, mark ∉ b)
    (hdelim : ∀ b ∈ bodies, ∀ x ∈ token mark b, ¬ delim x)
    (hput : ∀ w ∈ ws, ∃ b ∈ bodies, put w = token mark b) (hcut : Delimited delim (cut ws text))
    (hno : ∀ b ∈ bodies, ¬ token mark b <:+: text) :
    substitute (bodies.map (token mark)) back (substitute ws put text) =
      substitute ws (fun w => back (put w)) text := by
  have hpieces := cut_render hbodies hdelim (fun w hw => hput w (mem_of_word_mem hw)) hcut
    (by rwa [render_cut])
  rw [substitute, substitute, substitute, hpieces, render_replace]

end tokens

/-! ### Reading in chunks -/

/-- **The chunks of a text**, all but the last of one length. -/
def chunks (size : Nat) (text : List α) : List (List α) :=
  if size = 0 ∨ text.length = 0 then []
  else text.take size :: chunks size (text.drop size)
termination_by text.length
decreasing_by
  rw [List.length_drop]
  omega

theorem flatten_chunks {size : Nat} (hsize : 0 < size) (text : List α) :
    (chunks size text).flatten = text := by
  fun_induction chunks size text with
  | case1 text hend =>
    have hnil : text.length = 0 := by omega
    rw [List.flatten_nil, List.length_eq_zero_iff.1 hnil]
  | case2 text _ ih => rw [List.flatten_cons, ih, List.take_append_drop]

/-- **The windows in which chunks are looked at**: each with at most `overlap` symbols of what came
before it. -/
def windows (overlap : Nat) : List α → List (List α) → List (List α)
  | _, [] => []
  | carry, chunk :: rest =>
    (carry ++ chunk) ::
      windows overlap ((carry ++ chunk).drop ((carry ++ chunk).length - overlap)) rest

/-- What is seen in a window is in the text. -/
theorem infix_of_mem_windows {overlap : Nat} {needle carry window : List α}
    {parts : List (List α)} (hmem : window ∈ windows overlap carry parts)
    (h : needle <:+: window) : needle <:+: carry ++ parts.flatten := by
  induction parts generalizing carry with
  | nil => cases hmem
  | cons chunk rest ih =>
    rw [List.flatten_cons, ← List.append_assoc]
    rcases List.mem_cons.1 hmem with rfl | hmem
    · exact List.infix_append_of_infix_left h
    · obtain ⟨front, back, hwhole⟩ := ih hmem
      refine ⟨(carry ++ chunk).take ((carry ++ chunk).length - overlap) ++ front, back, ?_⟩
      rw [List.append_assoc, List.append_assoc, ← List.append_assoc front, hwhole,
        ← List.append_assoc, List.take_append_drop]

/-- **A word that is not too long is seen whole**, in what is carried over or in a window. -/
theorem exists_window {overlap : Nat} {needle carry : List α} {parts : List (List α)}
    (hlen : needle.length ≤ overlap + 1) (h : needle <:+: carry ++ parts.flatten) :
    needle <:+: carry ∨ ∃ window ∈ windows overlap carry parts, needle <:+: window := by
  induction parts generalizing carry with
  | nil =>
    rw [List.flatten_nil, List.append_nil] at h
    exact .inl h
  | cons chunk rest ih =>
    right
    rw [List.flatten_cons, ← List.append_assoc] at h
    by_cases hin : needle <:+: carry ++ chunk
    · exact ⟨_, List.mem_cons_self, hin⟩
    -- what goes over the end of the window has at most `overlap` symbols in it
    have hover : needle <:+:
        (carry ++ chunk).drop ((carry ++ chunk).length - overlap) ++ rest.flatten := by
      rcases List.infix_append_iff.1 h with hleft | hright | ⟨l, r, rfl, hl, hr⟩
      · exact absurd hleft hin
      · exact List.infix_append_of_infix_right hright
      · have hr' : r ≠ [] := by
          rintro rfl
          exact hin (by simpa using hl.isInfix)
        have hpos := List.length_pos_iff.2 hr'
        rw [List.length_append] at hlen
        refine List.infix_append_iff.2 (.inr (.inr ⟨l, r, rfl, ?_, hr⟩))
        refine List.suffix_of_suffix_length_le hl (List.drop_suffix _ _) ?_
        have := hl.length_le
        rw [List.length_drop]
        omega
    rcases ih hover with hcarry | ⟨window, hmem, hwindow⟩
    · exact absurd (hcarry.trans (List.drop_suffix _ _).isInfix) hin
    · exact ⟨window, List.mem_cons_of_mem _ hmem, hwindow⟩

/-- **A word is in a text just when it is seen in a window.** -/
theorem exists_window_iff {overlap : Nat} {needle : List α} {parts : List (List α)}
    (hne : needle ≠ []) (hlen : needle.length ≤ overlap + 1) :
    (∃ window ∈ windows overlap [] parts, needle <:+: window) ↔ needle <:+: parts.flatten := by
  constructor
  · rintro ⟨window, hmem, h⟩
    exact infix_of_mem_windows hmem h
  · intro h
    refine (exists_window hlen (by rwa [List.nil_append])).resolve_left fun hnil => hne ?_
    exact List.infix_nil.1 hnil

end Substitution
end Basis
end LaneBroker
