/-
# Reading on

A caller that asks for the next line only after it was given a line or a body always finds the
reader knowing of the newline that is queued, if there is one (`Knows`), so up to a last
`hasMore` it reads as off the plain text.  The reader has then pulled no chunk that it did not
need: the last one it pulled is not empty, and what `hasMore` answers behind the end of the
text depends on the last chunk alone (`Knows.hasMore_at_end`).
-/

import LaneBroker.Stream.Reader

namespace LaneBroker
namespace Stream
namespace Reader

variable {r : Reader} {chunks source : List (List UInt8)} {text : List UInt8} {maxLen n : ℕ}

/-- **A reader that has all it needs to know**, with the text that is left. -/
structure Knows (chunks : List (List UInt8)) (r : Reader) (source : List (List UInt8))
    (text : List UInt8) : Prop where
  sound : Sound r
  newline : r.newline = indexOfNewline r.pending
  text : r.pending ++ source.flatten = text
  pulled : ∃ pulled, chunks = pulled ++ source ∧ pulled.getLast? ≠ some []

/-- **What a call has pulled**: nothing that was not needed, and nothing at all only if it was not
short of anything. -/
def Pulls (short : Prop) (source source' : List (List UInt8)) : Prop :=
  ∃ pulled, source = pulled ++ source' ∧ pulled.getLast? ≠ some [] ∧ (pulled = [] → ¬short)

theorem Pulls.nothing {short : Prop} (h : ¬short) : Pulls short source source :=
  ⟨[], rfl, by simp, fun _ => h⟩

/-- One chunk more, which is not empty if it was all that was needed. -/
theorem Pulls.cons {short short' : Prop} {chunk : List UInt8} {rest source' : List (List UInt8)}
    (h : Pulls short' rest source') (hneeded : ¬short' → chunk ≠ []) :
    Pulls short (chunk :: rest) source' := by
  obtain ⟨pulled, hsplit, hlast, hnone⟩ := h
  refine ⟨chunk :: pulled, by rw [hsplit, List.cons_append], ?_, by simp⟩
  by_cases hnil : pulled = []
  · subst hnil
    simpa using hneeded (hnone rfl)
  · rwa [List.getLast?_cons_of_ne_nil hnil]

theorem known_take (h : Filed r) (hn : n ≤ r.pending.length) :
    Filed (r.take n).2 ∧ (r.take n).2.newline = indexOfNewline (r.take n).2.pending ∧
      (r.take n).2.pending.length = r.pending.length - n := by
  obtain ⟨-, hpending, hfiled, hnewline⟩ := take_spec h hn
  exact ⟨hfiled, by rw [hnewline, hpending], by rw [hpending, List.length_drop]⟩

/-- **Behind a line** the newline is known, and nothing was pulled that was not needed. -/
theorem known_readLine (h : Filed r) (hknown : r.newline = indexOfNewline r.pending)
    {line : Basis.JsString} (hline : (r.readLine maxLen source).1 = .line line) :
    (r.readLine maxLen source).2.1.newline =
        indexOfNewline (r.readLine maxLen source).2.1.pending ∧
      Pulls (r.newline = none) source (r.readLine maxLen source).2.2 := by
  induction source generalizing r with
  | nil =>
    unfold readLine at hline ⊢
    cases hnewline : r.newline with
    | none =>
      rw [hnewline] at hline
      simp only at hline
      split at hline <;> cases hline
    | some n =>
      rw [hnewline] at hline hknown
      simp only at hline ⊢
      split at hline
      · cases hline
      · next hshort =>
        have hlt := lt_of_indexOfNewline hknown.symm
        obtain ⟨hfiled, -, hlen⟩ := known_take h hlt.le
        obtain ⟨-, hrest, -⟩ := known_take hfiled (show 1 ≤ _ by omega)
        rw [if_neg hshort]
        exact ⟨hrest, Pulls.nothing (by simp)⟩
  | cons chunk rest ih =>
    unfold readLine at hline ⊢
    cases hnewline : r.newline with
    | none =>
      have hfill := newline_fill h hknown chunk
      rw [hnewline] at hline
      simp only at hline ⊢
      split at hline
      · cases hline
      · next hshort =>
        rw [if_neg hshort]
        obtain ⟨hafter, hpulls⟩ := ih (h.fill true chunk) hfill hline
        refine ⟨hafter, hpulls.cons fun hfound hempty => hfound ?_⟩
        rw [hempty]
        simp [fill, hnewline, indexOfNewline]
    | some n =>
      rw [hnewline] at hline hknown
      simp only at hline ⊢
      split at hline
      · cases hline
      · next hshort =>
        have hlt := lt_of_indexOfNewline hknown.symm
        obtain ⟨hfiled, -, hlen⟩ := known_take h hlt.le
        obtain ⟨-, hrest, -⟩ := known_take hfiled (show 1 ≤ _ by omega)
        rw [if_neg hshort]
        exact ⟨hrest, Pulls.nothing (by simp)⟩

/-- **Behind a body** likewise. -/
theorem known_readBytes (h : Filed r) {body : List UInt8}
    (hbody : (r.readBytes n source).1 = .bytes body) :
    (r.readBytes n source).2.1.newline =
        indexOfNewline (r.readBytes n source).2.1.pending ∧
      Pulls (r.queued < n) source (r.readBytes n source).2.2 := by
  induction source generalizing r with
  | nil =>
    unfold readBytes at hbody ⊢
    split at hbody
    · next hn =>
      obtain ⟨-, hknown, -⟩ := known_take h (h.queued ▸ hn)
      rw [if_pos hn]
      exact ⟨hknown, Pulls.nothing (by omega)⟩
    · cases hbody
  | cons chunk rest ih =>
    unfold readBytes at hbody ⊢
    split at hbody
    · next hn =>
      obtain ⟨-, hknown, -⟩ := known_take h (h.queued ▸ hn)
      rw [if_pos hn]
      exact ⟨hknown, Pulls.nothing (by omega)⟩
    · next hn =>
      rw [if_neg hn]
      obtain ⟨hafter, hpulls⟩ := ih (h.fill false chunk) hbody
      refine ⟨hafter, hpulls.cons fun henough hempty => henough ?_⟩
      simp only [fill, hempty, List.length_nil]
      omega

/-- What was pulled in all. -/
theorem Pulls.after {short : Prop} {source' : List (List UInt8)} (h : Pulls short source source')
    (hbefore : ∃ pulled, chunks = pulled ++ source ∧ pulled.getLast? ≠ some []) :
    ∃ pulled, chunks = pulled ++ source' ∧ pulled.getLast? ≠ some [] := by
  obtain ⟨more, rfl, hlast, -⟩ := h
  obtain ⟨pulled, rfl, hbefore⟩ := hbefore
  refine ⟨pulled ++ more, by rw [List.append_assoc], ?_⟩
  by_cases hnil : more = []
  · simpa [hnil] using hbefore
  · rwa [List.getLast?_append_of_ne_nil _ hnil]

theorem knows_new (chunks : List (List UInt8)) : Knows chunks {} chunks chunks.flatten where
  sound := sound_new
  newline := rfl
  text := rfl
  pulled := ⟨[], rfl, by simp⟩

/-- **A line is read as off the text**, and the reader knows what it needs to behind it. -/
theorem Knows.readLine (h : Knows chunks r source text) (maxLen : ℕ) :
    (r.readLine maxLen source).1 = (Plain.readLine maxLen text).1 ∧
      ∀ line, (Plain.readLine maxLen text).1 = .line line →
        Knows chunks (r.readLine maxLen source).2.1 (r.readLine maxLen source).2.2
          (Plain.readLine maxLen text).2 := by
  obtain ⟨hanswer, hsound, hleft⟩ := readLine_known
    h.sound.toFiled h.newline
  rw [h.text] at hanswer hleft
  refine ⟨hanswer, fun line hline => ?_⟩
  obtain ⟨hknown, hpulls⟩ := known_readLine h.sound.toFiled h.newline (hanswer.trans hline)
  exact
    { sound := hsound
      newline := hknown
      text := hleft
      pulled := hpulls.after h.pulled }

/-- **A body is read as off the text** likewise. -/
theorem Knows.readBytes (h : Knows chunks r source text) (n : ℕ) :
    (r.readBytes n source).1 = (Plain.readBytes n text).1 ∧
      ∀ body, (Plain.readBytes n text).1 = .bytes body →
        Knows chunks (r.readBytes n source).2.1 (r.readBytes n source).2.2
          (Plain.readBytes n text).2 := by
  obtain ⟨hanswer, hsound, hleft⟩ := readBytes_spec (n := n) h.sound
  rw [h.text] at hanswer hleft
  refine ⟨hanswer, fun body hbody => ?_⟩
  obtain ⟨hknown, hpulls⟩ := known_readBytes h.sound.toFiled (hanswer.trans hbody)
  exact
    { sound := hsound
      newline := hknown
      text := hleft
      pulled := hpulls.after h.pulled }

/-- **Behind the end of the text** there is no more just if the last chunk is not empty. -/
theorem Knows.hasMore_at_end (h : Knows chunks r source []) :
    (r.hasMore source).1 = .more false ↔ chunks.getLast? ≠ some [] := by
  obtain ⟨hpending, hflatten⟩ := List.append_eq_nil_iff.1 h.text
  have hqueued : r.queued = 0 := by rw [h.sound.queued, hpending, List.length_nil]
  obtain ⟨pulled, hsplit, hlast⟩ := h.pulled
  unfold Reader.hasMore
  rw [if_neg (by omega)]
  cases source with
  | nil =>
    rw [List.append_nil] at hsplit
    simpa [hsplit] using hlast
  | cons chunk rest =>
    have hempty : ∀ c ∈ chunk :: rest, c = [] := List.flatten_eq_nil_iff.1 hflatten
    have hend : chunks.getLast? = some [] := by
      rw [hsplit, List.getLast?_append_of_ne_nil _ (List.cons_ne_nil chunk rest)]
      obtain ⟨c, hc⟩ := Option.isSome_iff_exists.1
        (List.getLast?_isSome.2 (List.cons_ne_nil chunk rest))
      rw [hc, hempty c (List.mem_of_getLast? hc)]
    simp [hend]

/-- **`hasMore` denies** at the end of the text, if the last chunk is not empty. -/
theorem Knows.hasMore_eq_false_iff (h : Knows chunks r source text) :
    (r.hasMore source).1 = .more false ↔ text = [] ∧ chunks.getLast? ≠ some [] := by
  by_cases hend : text = []
  · subst hend
    simpa using h.hasMore_at_end
  · have hcareful : r.Careful .hasMore source := by
      intro hqueued _ hflatten
      have hpending : r.pending = [] :=
        List.eq_nil_of_length_eq_zero (h.sound.queued ▸ hqueued)
      exact hend (by rw [← h.text, hpending, hflatten, List.nil_append])
    have hanswer := (hasMore_spec h.sound).1 hcareful
    have hsame := hanswer.1
    rw [h.text] at hsame
    have hpos := List.length_pos_iff.2 hend
    simp [hsame, hend, Plain.call, hpos]

end Reader
end Stream
end LaneBroker
