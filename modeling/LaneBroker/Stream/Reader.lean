/-
# Reading a stream line by line

`makeReader` of `remote-stream.js`: lines and bodies are read off a stream that comes in chunks.
The chunks are queued as they come, an index stands before the first that is not used up, and the
offset of the first newline in the queue is kept between the calls.  It is looked for in a chunk
that `readLine` pulls, and in the whole queue whenever something was taken; a chunk that `readBytes`
or `hasMore` pulls is queued without a look.

What a reader is for is the plain reader of the whole text (`Plain`), which knows of no chunks.  The
two answer alike, call by call, just as long as no line is asked for while a newline within the limit
stands in the queue unseen, and `hasMore` does not pull an empty chunk at the end of the stream
(`answers_iff`).
-/

import LaneBroker.Basis.Utf8

namespace LaneBroker
namespace Stream

open LaneBroker.Basis

/-! ### The reader -/

/-- `NEWLINE`. -/
def newlineByte : UInt8 := 0x0a

/-- `chunk.indexOf(NEWLINE)`. -/
def indexOfNewline (bytes : List UInt8) : Option ℕ := bytes.findIdx? (· == newlineByte)

/-- A slot of the queue; `undefined` once its chunk is used up. -/
abbrev Slot := Option (List UInt8)

/-- **The state of `makeReader`.**  That the iterator is done is that it has no chunk left. -/
structure Reader where
  queue : List Slot := []
  /-- The index of the first chunk that is not used up. -/
  head : ℕ := 0
  queued : ℕ := 0
  /-- The offset of the first newline in the queue, `none` when none is known. -/
  newline : Option ℕ := none
  deriving DecidableEq

/-- What a call asks for. -/
inductive Call
  | readLine (maxLen : ℕ)
  | readBytes (n : ℕ)
  | hasMore
  deriving DecidableEq

/-- What it gets; `null` is `ended`. -/
inductive Answer
  /-- `line exceeds max length`. -/
  | tooLong
  | ended
  | line (text : JsString)
  | bytes (body : List UInt8)
  | more (b : Bool)
  deriving DecidableEq

namespace Reader

/-- The loop of `rescan`. -/
def rescanFrom (pos : ℕ) : List Slot → Option ℕ
  | [] => none
  | none :: slots => rescanFrom pos slots
  | some chunk :: slots =>
    match indexOfNewline chunk with
    | some idx => some (pos + idx)
    | none => rescanFrom (pos + chunk.length) slots

/-- `rescan`. -/
def rescan (r : Reader) : Reader := { r with newline := rescanFrom 0 (r.queue.drop r.head) }

/-- **`fill`**, of the chunk that the iterator yields. -/
def fill (scan : Bool) (chunk : List UInt8) (r : Reader) : Reader :=
  { r with
    queue := r.queue ++ [some chunk]
    queued := r.queued + chunk.length
    newline :=
      if scan && r.newline.isNone then (indexOfNewline chunk).map (r.queued + ·) else r.newline }

/-- The loop of `take`: the parts, the slots as they are left, and how many of them are passed. -/
def takeLoop (need : ℕ) : List Slot → List (List UInt8) × List Slot × ℕ
  | some first :: slots =>
    if need = 0 then ([], some first :: slots, 0)
    else if first.length ≤ need then
      let rest := takeLoop (need - first.length) slots
      (first :: rest.1, none :: rest.2.1, rest.2.2 + 1)
    else ([first.take need], some (first.drop need) :: slots, 0)
  | slots => ([], slots, 0)

/-- The slots that are used up go, once they are many. -/
def compact (r : Reader) : Reader :=
  if 1024 < r.head ∧ r.queue.length < r.head * 2 then
    { r with queue := r.queue.drop r.head, head := 0 }
  else r

/-- **`take`.** -/
def take (n : ℕ) (r : Reader) : List UInt8 × Reader :=
  let taken := takeLoop n (r.queue.drop r.head)
  let passed : Reader :=
    { r with
      queue := r.queue.take r.head ++ taken.2.1
      head := r.head + taken.2.2 }
  (taken.1.flatten, rescan { passed.compact with queued := r.queued - n })

/-- **`readLine`.** -/
def readLine (maxLen : ℕ) (r : Reader) (source : List (List UInt8)) :
    Answer × Reader × List (List UInt8) :=
  match r.newline with
  | some newline =>
    if maxLen < newline then (.tooLong, r, source)
    else
      let line := r.take newline
      (.line (decodeUtf8 line.1), (line.2.take 1).2, source)
  | none =>
    if maxLen < r.queued then (.tooLong, r, source)
    else
      match source with
      | [] => (.ended, r, [])
      | chunk :: rest => readLine maxLen (r.fill true chunk) rest

/-- **`readBytes`.** -/
def readBytes (n : ℕ) (r : Reader) (source : List (List UInt8)) :
    Answer × Reader × List (List UInt8) :=
  if n ≤ r.queued then
    let body := r.take n
    (.bytes body.1, body.2, source)
  else
    match source with
    | [] => (.ended, r, [])
    | chunk :: rest => readBytes n (r.fill false chunk) rest

/-- **`hasMore`.** -/
def hasMore (r : Reader) (source : List (List UInt8)) : Answer × Reader × List (List UInt8) :=
  if 0 < r.queued then (.more true, r, source)
  else
    match source with
    | [] => (.more false, r, [])
    | chunk :: rest => (.more true, r.fill false chunk, rest)

/-- One call. -/
def call (c : Call) (r : Reader) (source : List (List UInt8)) :
    Answer × Reader × List (List UInt8) :=
  match c with
  | .readLine maxLen => r.readLine maxLen source
  | .readBytes n => r.readBytes n source
  | .hasMore => r.hasMore source

/-- **What a reader answers to a sequence of calls.** -/
def answers : List Call → Reader → List (List UInt8) → List Answer
  | [], _, _ => []
  | c :: calls, r, source =>
    let done := r.call c source
    done.1 :: answers calls done.2.1 done.2.2

end Reader

/-! ### The plain reader -/

namespace Plain

/-- A line of the text, and what is left. -/
def readLine (maxLen : ℕ) (text : List UInt8) : Answer × List UInt8 :=
  match indexOfNewline text with
  | some newline =>
    if maxLen < newline then (.tooLong, text)
    else (.line (decodeUtf8 (text.take newline)), text.drop (newline + 1))
  | none => if maxLen < text.length then (.tooLong, text) else (.ended, text)

/-- So many bytes of the text, and what is left. -/
def readBytes (n : ℕ) (text : List UInt8) : Answer × List UInt8 :=
  if n ≤ text.length then (.bytes (text.take n), text.drop n) else (.ended, text)

/-- One call on the text that is left. -/
def call (c : Call) (text : List UInt8) : Answer × List UInt8 :=
  match c with
  | .readLine maxLen => readLine maxLen text
  | .readBytes n => readBytes n text
  | .hasMore => (.more (decide (0 < text.length)), text)

/-- **What the plain reader answers to a sequence of calls.** -/
def answers : List Call → List UInt8 → List Answer
  | [], _ => []
  | c :: calls, text => (call c text).1 :: answers calls (call c text).2

end Plain

/-! ### Newlines -/

theorem indexOfNewline_append (a b : List UInt8) :
    indexOfNewline (a ++ b) =
      (indexOfNewline a).or ((indexOfNewline b).map (a.length + ·)) := by
  rw [indexOfNewline, List.findIdx?_append]
  refine congrArg _ (congrArg (Option.map · _) ?_)
  funext i
  exact Nat.add_comm i a.length

theorem indexOfNewline_append_of_some {a : List UInt8} {n : ℕ} (h : indexOfNewline a = some n)
    (b : List UInt8) : indexOfNewline (a ++ b) = some n := by
  rw [indexOfNewline_append, h, Option.some_or]

theorem lt_of_indexOfNewline {text : List UInt8} {n : ℕ} (h : indexOfNewline text = some n) :
    n < text.length := by
  obtain ⟨hlt, -⟩ := List.findIdx?_eq_some_iff_getElem.1 h
  exact hlt

/-- The text up to its first newline, the newline, and the rest. -/
theorem split_of_indexOfNewline {text : List UInt8} {n : ℕ} (h : indexOfNewline text = some n) :
    text = text.take n ++ newlineByte :: text.drop (n + 1) ∧ newlineByte ∉ text.take n := by
  obtain ⟨hlt, hat, hbefore⟩ := List.findIdx?_eq_some_iff_getElem.1 h
  constructor
  · have hbyte : text[n] = newlineByte := by simpa using hat
    rw [← hbyte, ← List.drop_eq_getElem_cons hlt, List.take_append_drop]
  · intro hmem
    obtain ⟨j, hj, hat⟩ := List.getElem_of_mem hmem
    rw [List.length_take] at hj
    have := hbefore j (by omega)
    rw [List.getElem_take] at hat
    simp [hat] at this

/-! ### What a reader holds -/

namespace Reader

/-- The bytes that are queued. -/
def pending (r : Reader) : List UInt8 := ((r.queue.drop r.head).map fun slot => slot.getD []).flatten

/-- **The queue is in order**: behind the head no slot is used up, and the bytes are counted. -/
structure Filed (r : Reader) : Prop where
  head_le : r.head ≤ r.queue.length
  slots : ∀ slot ∈ r.queue.drop r.head, slot.isSome = true
  queued : r.queued = r.pending.length

/-- **What is known of the newline is right.** -/
structure Sound (r : Reader) : Prop extends Filed r where
  newline : ∀ n, r.newline = some n → indexOfNewline r.pending = some n

section Queue

variable {r : Reader} {n : ℕ}

theorem filed_new : Filed {} := by
  refine ⟨le_rfl, fun slot h => ?_, rfl⟩
  cases h

theorem sound_new : Sound {} := by
  refine ⟨filed_new, fun n h => ?_⟩
  cases h

theorem pending_fill (h : Filed r) (scan : Bool) (chunk : List UInt8) :
    (r.fill scan chunk).pending = r.pending ++ chunk := by
  simp [pending, fill, List.drop_append_of_le_length h.head_le]

theorem Filed.fill (h : Filed r) (scan : Bool) (chunk : List UInt8) :
    Filed (r.fill scan chunk) := by
  constructor
  · show r.head ≤ (r.queue ++ [some chunk]).length
    rw [List.length_append]
    exact Nat.le_add_right_of_le h.head_le
  · intro slot hslot
    have hdrop : (r.fill scan chunk).queue.drop (r.fill scan chunk).head =
        r.queue.drop r.head ++ [some chunk] := List.drop_append_of_le_length h.head_le
    rw [hdrop, List.mem_append, List.mem_singleton] at hslot
    rcases hslot with hslot | rfl
    · exact h.slots slot hslot
    · rfl
  · rw [pending_fill h, List.length_append, ← h.queued]
    rfl

/-- The loop of `rescan` finds the first newline behind the position it is at. -/
theorem rescanFrom_eq (pos : ℕ) (slots : List Slot) :
    rescanFrom pos slots =
      (indexOfNewline ((slots.map fun slot => slot.getD []).flatten)).map (pos + ·) := by
  induction slots generalizing pos with
  | nil => rfl
  | cons slot slots ih =>
    cases slot with
    | none => simpa [rescanFrom] using ih pos
    | some chunk =>
      rw [rescanFrom, List.map_cons, List.flatten_cons, Option.getD_some, indexOfNewline_append]
      cases hchunk : indexOfNewline chunk with
      | some idx => rfl
      | none =>
        simp only [ih, Option.none_or, Option.map_map]
        congr 1
        funext i
        show pos + chunk.length + i = pos + (chunk.length + i)
        omega

/-- **`rescan` knows the first newline.** -/
theorem newline_rescan (r : Reader) : r.rescan.newline = indexOfNewline r.rescan.pending := by
  show rescanFrom 0 (r.queue.drop r.head) = indexOfNewline r.pending
  rw [rescanFrom_eq, pending]
  cases indexOfNewline ((r.queue.drop r.head).map fun slot => slot.getD []).flatten <;> simp

/-- **The loop of `take`** splits the bytes of the slots, and leaves no slot behind the passed ones
that is used up. -/
theorem takeLoop_spec {need : ℕ} {slots : List Slot} (hslots : ∀ slot ∈ slots, slot.isSome = true)
    (hneed : need ≤ ((slots.map fun slot => slot.getD []).flatten).length) :
    let taken := takeLoop need slots
    let text := (slots.map fun slot => slot.getD []).flatten
    taken.1.flatten = text.take need ∧ taken.2.2 ≤ taken.2.1.length ∧
      (∀ slot ∈ taken.2.1.drop taken.2.2, slot.isSome = true) ∧
      ((taken.2.1.drop taken.2.2).map fun slot => slot.getD []).flatten = text.drop need := by
  induction slots generalizing need with
  | nil =>
    obtain rfl : need = 0 := by simpa using hneed
    simp [takeLoop]
  | cons slot slots ih =>
    obtain ⟨hfirst, hrest⟩ := List.forall_mem_cons.1 hslots
    obtain ⟨first, rfl⟩ := Option.isSome_iff_exists.1 hfirst
    simp only [List.map_cons, List.flatten_cons, Option.getD_some, List.length_append] at hneed ⊢
    rw [takeLoop]
    split_ifs with hzero hwhole
    · subst hzero
      simpa using hrest
    · obtain ⟨hparts, hpassed, hlive, hleft⟩ :=
        @ih (need - first.length) hrest (by omega)
      refine ⟨?_, Nat.succ_le_succ hpassed, by simpa using hlive, ?_⟩
      · rw [List.flatten_cons, hparts, List.take_append, List.take_of_length_le hwhole]
      · simpa [List.drop_append, List.drop_of_length_le hwhole] using hleft
    · have hshort : need ≤ first.length := by omega
      refine ⟨?_, Nat.zero_le _, ?_, ?_⟩
      · simp [List.take_append_of_le_length hshort]
      · simpa using hrest
      · simp [List.drop_append_of_le_length hshort]

theorem compact_head_le (h : r.head ≤ r.queue.length) : r.compact.head ≤ r.compact.queue.length := by
  unfold compact
  split_ifs
  · exact Nat.zero_le _
  · exact h

/-- Compaction drops only what is used up. -/
theorem drop_compact (r : Reader) :
    r.compact.queue.drop r.compact.head = r.queue.drop r.head := by
  unfold compact
  split_ifs
  · exact List.drop_zero
  · rfl

/-- **`take`** splits what is queued, and looks for the newline anew. -/
theorem take_spec (h : Filed r) (hn : n ≤ r.pending.length) :
    (r.take n).1 = r.pending.take n ∧ (r.take n).2.pending = r.pending.drop n ∧
      Filed (r.take n).2 ∧ (r.take n).2.newline = indexOfNewline (r.pending.drop n) := by
  obtain ⟨hparts, hpassed, hlive, hleft⟩ := takeLoop_spec h.slots hn
  -- the queue behind the head that `take` leaves
  have hdrop : (r.take n).2.queue.drop (r.take n).2.head =
      (takeLoop n (r.queue.drop r.head)).2.1.drop (takeLoop n (r.queue.drop r.head)).2.2 := by
    show List.drop (compact _).head (compact _).queue = _
    rw [drop_compact]
    have hlen : (r.queue.take r.head).length = r.head := List.length_take_of_le h.head_le
    show List.drop (r.head + _) (r.queue.take r.head ++ _) = _
    rw [List.drop_append, hlen, Nat.add_sub_cancel_left,
      List.drop_eq_nil_of_le (by omega), List.nil_append]
  have hpending : (r.take n).2.pending = r.pending.drop n := by
    rw [pending, hdrop]
    exact hleft
  refine ⟨hparts, hpending, ⟨?_, ?_, ?_⟩, ?_⟩
  · refine compact_head_le ?_
    show r.head + _ ≤ (r.queue.take r.head ++ _).length
    rw [List.length_append, List.length_take_of_le h.head_le]
    omega
  · rw [hdrop]
    exact hlive
  · rw [hpending, List.length_drop, ← h.queued]
    rfl
  · rw [← hpending]
    exact newline_rescan _

end Queue

/-! ### The calls -/

/-- **The call is in order** at this state: a line is asked for only while the reader knows of the
newline that ends it, if that is queued; and if `hasMore` has to pull an empty chunk, there are bytes
behind it. -/
def Careful (c : Call) (r : Reader) (source : List (List UInt8)) : Prop :=
  match c with
  | .readLine maxLen =>
    ∀ n, indexOfNewline r.pending = some n → n ≤ maxLen → r.newline = some n
  | .readBytes _ => True
  | .hasMore => r.queued = 0 → source.head? = some [] → source.flatten ≠ []

/-- **Every call of a sequence is in order** when its turn comes. -/
def AllCareful : List Call → Reader → List (List UInt8) → Prop
  | [], _, _ => True
  | c :: calls, r, source =>
    r.Careful c source ∧ AllCareful calls (r.call c source).2.1 (r.call c source).2.2

/-- The answer is that of the plain reader, and so is what is left. -/
def Agrees (got : Answer × Reader × List (List UInt8)) (plain : Answer × List UInt8) : Prop :=
  got.1 = plain.1 ∧ Sound got.2.1 ∧ got.2.1.pending ++ got.2.2.flatten = plain.2

section Calls

variable {r : Reader} {source : List (List UInt8)} {maxLen n : ℕ}

/-- A known newline stays known, and behind a chunk without one none is known. -/
theorem Sound.fill (h : Sound r) (chunk : List UInt8) : Sound (r.fill false chunk) := by
  refine ⟨h.toFiled.fill false chunk, fun n hn => ?_⟩
  rw [pending_fill h.toFiled]
  exact indexOfNewline_append_of_some (h.newline n hn) chunk

/-- A chunk that is looked through leaves the newline known, if the reader knew before. -/
theorem newline_fill (h : Filed r) (hknown : r.newline = indexOfNewline r.pending)
    (chunk : List UInt8) :
    (r.fill true chunk).newline = indexOfNewline (r.fill true chunk).pending := by
  rw [pending_fill h, indexOfNewline_append, ← hknown, ← h.queued]
  cases hnewline : r.newline <;> simp [Reader.fill, hnewline]

/-- A line of which the end is queued. -/
theorem readLine_queued (h : Sound r) (hnewline : r.newline = some n) :
    Agrees (r.readLine maxLen source) (Plain.readLine maxLen (r.pending ++ source.flatten)) := by
  have hpending := h.newline n hnewline
  have htext := indexOfNewline_append_of_some hpending source.flatten
  have hlt := lt_of_indexOfNewline hpending
  rw [Plain.readLine, htext]
  unfold readLine
  rw [hnewline]
  simp only
  split_ifs
  · exact ⟨rfl, h, rfl⟩
  · obtain ⟨hline, hrest, hfiled, -⟩ := take_spec h.toFiled hlt.le
    have hone : 1 ≤ (r.take n).2.pending.length := by
      rw [hrest, List.length_drop]
      omega
    obtain ⟨-, hrest', hfiled', hnewline'⟩ := take_spec hfiled hone
    rw [hrest, List.drop_drop] at hrest' hnewline'
    refine ⟨?_, ⟨hfiled', fun m hm => ?_⟩, ?_⟩
    · show Answer.line _ = Answer.line _
      rw [hline, List.take_append_of_le_length hlt.le]
    · rw [hrest', ← hnewline']
      exact hm
    · show ((r.take n).2.take 1).2.pending ++ source.flatten = _
      rw [hrest', List.drop_append_of_le_length (by omega)]

/-- What is queued without a newline is too long already. -/
theorem readLine_long (hpending : indexOfNewline r.pending = none)
    (hlong : maxLen < r.pending.length) (rest : List UInt8) :
    Plain.readLine maxLen (r.pending ++ rest) = (.tooLong, r.pending ++ rest) := by
  rw [Plain.readLine, indexOfNewline_append, hpending, Option.none_or]
  cases indexOfNewline rest with
  | none => exact if_pos (by rw [List.length_append]; omega)
  | some m =>
    show (if maxLen < r.pending.length + m then _ else _) = _
    exact if_pos (by omega)

/-- **A reader that knows of the newline reads a line as from the plain text.** -/
theorem readLine_known (h : Filed r) (hknown : r.newline = indexOfNewline r.pending) :
    Agrees (r.readLine maxLen source) (Plain.readLine maxLen (r.pending ++ source.flatten)) := by
  have hsound : Sound r := ⟨h, fun n hn => hknown ▸ hn⟩
  induction source generalizing r with
  | nil =>
    cases hnewline : r.newline with
    | some n => exact readLine_queued hsound hnewline
    | none =>
      have hpending : indexOfNewline r.pending = none := hknown ▸ hnewline
      unfold readLine
      rw [hnewline, List.flatten_nil, List.append_nil, Plain.readLine, hpending, ← h.queued]
      simp only
      split_ifs
      · exact ⟨rfl, hsound, List.append_nil _⟩
      · exact ⟨rfl, hsound, List.append_nil _⟩
  | cons chunk rest ih =>
    cases hnewline : r.newline with
    | some n => exact readLine_queued hsound hnewline
    | none =>
      have hpending : indexOfNewline r.pending = none := hknown ▸ hnewline
      unfold readLine
      rw [hnewline]
      simp only
      split_ifs with hlong
      · rw [readLine_long hpending (h.queued ▸ hlong)]
        exact ⟨rfl, hsound, rfl⟩
      · rw [List.flatten_cons, ← List.append_assoc, ← pending_fill h true chunk]
        have hknown' := newline_fill h hknown chunk
        have hfiled := h.fill true chunk
        exact ih hfiled hknown' ⟨hfiled, fun n hn => hknown' ▸ hn⟩

/-- A newline stands in the queue, and the reader knows of none, or of a later one. -/
def Missed (r : Reader) (n : ℕ) : Prop :=
  indexOfNewline r.pending = some n ∧ ∀ m, r.newline = some m → n < m ∧ m < r.pending.length

theorem Missed.fill (h : Filed r) (hmissed : r.Missed n) (chunk : List UInt8) :
    (r.fill true chunk).Missed n := by
  constructor
  · rw [pending_fill h]
    exact indexOfNewline_append_of_some hmissed.1 chunk
  · intro m hm
    rw [pending_fill h, List.length_append]
    have hlt := lt_of_indexOfNewline hmissed.1
    cases hnewline : r.newline with
    | some m' =>
      have hm' : r.newline = some m := by simpa [Reader.fill, hnewline] using hm
      have := hmissed.2 m hm'
      omega
    | none =>
      have hm' : (indexOfNewline chunk).map (r.queued + ·) = some m := by
        simpa [Reader.fill, hnewline] using hm
      obtain ⟨i, hi, rfl⟩ := Option.map_eq_some_iff.1 hm'
      have := lt_of_indexOfNewline hi
      have := h.queued
      omega

/-- A line with a newline in it is not the line up to that newline. -/
theorem decode_take_ne {text : List UInt8} {m : ℕ} (h : indexOfNewline text = some n) (hm : n < m) :
    decodeUtf8 (text.take m) ≠ decodeUtf8 (text.take n) := by
  obtain ⟨hsplit, hnot⟩ := split_of_indexOfNewline h
  have hlt := lt_of_indexOfNewline h
  have htake : text.take m = text.take n ++ newlineByte :: (text.drop (n + 1)).take (m - n - 1) := by
    have hlen : (text.take n).length = n := List.length_take_of_le hlt.le
    conv_lhs => rw [hsplit]
    rw [List.take_append, hlen, List.take_of_length_le (by omega)]
    obtain ⟨k, hk⟩ : ∃ k, m - n = k + 1 := ⟨m - n - 1, by omega⟩
    rw [hk, List.take_succ_cons, Nat.add_sub_cancel]
  rw [htake, Utf8.decode_append_ascii (by decide)]
  intro heq
  have hmem : newlineByte.toNat.toUInt16 ∈ decodeUtf8 (text.take n) := by
    rw [← heq]
    exact List.mem_append_right _ List.mem_cons_self
  exact Utf8.ascii_not_mem_decode (by decide) hnot hmem

/-- **A reader that missed the newline does not return the line.** -/
theorem readLine_missed (h : Filed r) (hmissed : r.Missed n) :
    (r.readLine maxLen source).1 ≠ .line (decodeUtf8 (r.pending.take n)) := by
  induction source generalizing r with
  | nil =>
    unfold readLine
    cases hnewline : r.newline with
    | some m =>
      have hm := hmissed.2 m hnewline
      simp only
      split_ifs
      · simp
      · rw [(take_spec h hm.2.le).1]
        simpa using decode_take_ne hmissed.1 hm.1
    | none =>
      simp only
      split_ifs <;> simp
  | cons chunk rest ih =>
    unfold readLine
    cases hnewline : r.newline with
    | some m =>
      have hm := hmissed.2 m hnewline
      simp only
      split_ifs
      · simp
      · rw [(take_spec h hm.2.le).1]
        simpa using decode_take_ne hmissed.1 hm.1
    | none =>
      simp only
      split_ifs
      · simp
      · have hsame := ih (h.fill true chunk) (hmissed.fill h chunk)
        rw [pending_fill h, List.take_append_of_le_length (lt_of_indexOfNewline hmissed.1).le]
          at hsame
        exact hsame

/-- **`readLine`**: the reader agrees with the plain one just when the call is in order. -/
theorem readLine_spec (h : Sound r) :
    (r.Careful (.readLine maxLen) source →
      Agrees (r.readLine maxLen source) (Plain.readLine maxLen (r.pending ++ source.flatten))) ∧
    (¬ r.Careful (.readLine maxLen) source →
      (r.readLine maxLen source).1 ≠ (Plain.readLine maxLen (r.pending ++ source.flatten)).1) := by
  by_cases hknown : r.newline = indexOfNewline r.pending
  · refine ⟨fun _ => readLine_known h.toFiled hknown, fun hnot => absurd ?_ hnot⟩
    intro n hn _
    rw [hknown, hn]
  · -- the newline that is queued was never looked for
    have hnone : r.newline = none := by
      by_contra hsome
      obtain ⟨n, hn⟩ := Option.ne_none_iff_exists'.1 hsome
      exact hknown (hn.trans (h.newline n hn).symm)
    obtain ⟨n, hn⟩ := Option.ne_none_iff_exists'.1 fun hpending => hknown (hnone.trans hpending.symm)
    have hlt := lt_of_indexOfNewline hn
    have htext := indexOfNewline_append_of_some hn source.flatten
    constructor
    · intro hcareful
      have hlong : maxLen < n := by
        by_contra hle
        have := hcareful n hn (by omega)
        rw [hnone] at this
        cases this
      rw [Plain.readLine, htext]
      simp only [hlong, if_true]
      unfold readLine
      rw [hnone]
      simp only
      have hqueued : maxLen < r.queued := by
        rw [h.queued]
        omega
      rw [if_pos hqueued]
      exact ⟨rfl, h, rfl⟩
    · intro hnot
      have hle : n ≤ maxLen := by
        by_contra hlong
        refine hnot fun n' hn' hle => ?_
        obtain rfl := Option.some.inj (hn.symm.trans hn')
        omega
      have hmissed : r.Missed n := ⟨hn, fun m hm => by rw [hnone] at hm; cases hm⟩
      have hline : (r.readLine maxLen source).1 ≠ .line (decodeUtf8 (r.pending.take n)) :=
        readLine_missed h.toFiled hmissed
      rw [Plain.readLine, htext]
      simp only [show ¬ maxLen < n by omega, if_false]
      rw [List.take_append_of_le_length hlt.le]
      exact hline

/-- **`readBytes`** agrees with the plain reader. -/
theorem readBytes_spec (h : Sound r) :
    Agrees (r.readBytes n source) (Plain.readBytes n (r.pending ++ source.flatten)) := by
  induction source generalizing r with
  | nil =>
    unfold readBytes
    rw [List.flatten_nil, List.append_nil, Plain.readBytes, ← h.queued]
    split_ifs with hn
    · rw [h.queued] at hn
      obtain ⟨hbody, hrest, hfiled, hnewline⟩ := take_spec h.toFiled hn
      refine ⟨congrArg Answer.bytes hbody, ⟨hfiled, fun m hm => ?_⟩, ?_⟩
      · rw [hrest, ← hnewline]
        exact hm
      · simpa using hrest
    · exact ⟨rfl, h, List.append_nil _⟩
  | cons chunk rest ih =>
    unfold readBytes
    split_ifs with hn
    · rw [h.queued] at hn
      obtain ⟨hbody, hrest, hfiled, hnewline⟩ := take_spec h.toFiled hn
      have hall : n ≤ (r.pending ++ (chunk :: rest).flatten).length := by
        rw [List.length_append]
        omega
      rw [Plain.readBytes, if_pos hall, List.take_append_of_le_length hn,
        List.drop_append_of_le_length hn]
      refine ⟨congrArg Answer.bytes hbody, ⟨hfiled, fun m hm => ?_⟩, ?_⟩
      · rw [hrest, ← hnewline]
        exact hm
      · show (r.take n).2.pending ++ (chunk :: rest).flatten = _
        rw [hrest]
    · rw [List.flatten_cons, ← List.append_assoc, ← pending_fill h.toFiled false chunk]
      exact ih (h.fill chunk)

/-- **`hasMore`** agrees with the plain reader just when the call is in order. -/
theorem hasMore_spec (h : Sound r) :
    (r.Careful .hasMore source →
      Agrees (r.hasMore source) (Plain.call .hasMore (r.pending ++ source.flatten))) ∧
    (¬ r.Careful .hasMore source →
      (r.hasMore source).1 ≠ (Plain.call .hasMore (r.pending ++ source.flatten)).1) := by
  have hqueued := h.queued
  unfold hasMore
  by_cases hsome : 0 < r.queued
  · rw [if_pos hsome]
    constructor
    · intro _
      refine ⟨congrArg Answer.more (decide_eq_true ?_).symm, h, rfl⟩
      rw [List.length_append]
      omega
    · intro hnot
      exact absurd (fun hzero => absurd hzero (by omega)) hnot
  · rw [if_neg hsome]
    have hnil : r.pending = [] := List.eq_nil_of_length_eq_zero (by omega)
    cases source with
    | nil =>
      constructor
      · intro _
        exact ⟨by simp [Plain.call, hnil], h, rfl⟩
      · intro hnot
        exact absurd (fun _ hhead => absurd hhead (by simp)) hnot
    | cons chunk rest =>
      have hanswer : (Plain.call .hasMore (r.pending ++ (chunk :: rest).flatten)).1 =
          .more (decide ((chunk :: rest).flatten ≠ [])) := by
        rw [hnil, List.nil_append]
        exact congrArg Answer.more (decide_eq_decide.2 List.length_pos_iff)
      constructor
      · intro hcareful
        refine ⟨?_, h.fill chunk, ?_⟩
        · rw [hanswer]
          refine congrArg Answer.more (decide_eq_true ?_).symm
          cases chunk with
          | nil => exact hcareful (by omega) rfl
          | cons b bytes => simp
        · show (r.fill false chunk).pending ++ rest.flatten = _
          rw [pending_fill h.toFiled, List.append_assoc, List.flatten_cons]
          rfl
      · intro hnot
        rw [hanswer]
        obtain ⟨-, -, hempty⟩ : r.queued = 0 ∧ (chunk :: rest).head? = some [] ∧
            (chunk :: rest).flatten = [] := by simpa [Careful] using hnot
        rw [hempty]
        simp

/-- **One call**: the reader agrees with the plain one just when the call is in order. -/
theorem call_spec (h : Sound r) (c : Call) :
    (r.Careful c source →
      Agrees (r.call c source) (Plain.call c (r.pending ++ source.flatten))) ∧
    (¬ r.Careful c source →
      (r.call c source).1 ≠ (Plain.call c (r.pending ++ source.flatten)).1) := by
  cases c with
  | readLine maxLen => exact readLine_spec h
  | readBytes n => exact ⟨fun _ => readBytes_spec h, fun hnot => absurd trivial hnot⟩
  | hasMore => exact hasMore_spec h

/-- **A sequence of calls** from a sound state. -/
theorem answers_iff_of_sound (h : Sound r) (calls : List Call) :
    r.answers calls source = Plain.answers calls (r.pending ++ source.flatten) ↔
      r.AllCareful calls source := by
  induction calls generalizing r source with
  | nil => exact ⟨fun _ => trivial, fun _ => rfl⟩
  | cons c calls ih =>
    obtain ⟨hagrees, hdiffers⟩ := @call_spec r source h c
    rw [answers, Plain.answers, AllCareful, List.cons.injEq]
    constructor
    · rintro ⟨hanswer, hrest⟩
      have hcareful : r.Careful c source := by
        by_contra hnot
        exact hdiffers hnot hanswer
      obtain ⟨-, hsound, htext⟩ := hagrees hcareful
      rw [← htext] at hrest
      exact ⟨hcareful, (ih hsound).1 hrest⟩
    · rintro ⟨hcareful, hall⟩
      obtain ⟨hanswer, hsound, htext⟩ := hagrees hcareful
      rw [← htext]
      exact ⟨hanswer, (ih hsound).2 hall⟩

end Calls

end Reader

/-- `makeReader`: what a sequence of calls gets of a stream that comes in these chunks. -/
def makeReader (chunks : List (List UInt8)) (calls : List Call) : List Answer :=
  Reader.answers calls {} chunks

/-- **The calls are made in order.** -/
def ReadsInOrder (chunks : List (List UInt8)) (calls : List Call) : Prop :=
  Reader.AllCareful calls {} chunks

/-- **`makeReader` is the plain reader of the whole text, for the calls that are made in order and
for no others**; so what it answers to those, a refused line too, does not depend on the chunks. -/
theorem makeReader_plain_iff (chunks : List (List UInt8)) (calls : List Call) :
    makeReader chunks calls = Plain.answers calls chunks.flatten ↔ ReadsInOrder chunks calls :=
  Reader.answers_iff_of_sound Reader.sound_new calls

/-- **A short line is refused** when `hasMore` has pulled the chunk it stands in: the newline in the
chunk is not looked for, and the body behind the line makes the queue longer than the limit. -/
theorem makeReader_refuses_a_short_line :
    ¬ ∀ (chunks : List (List UInt8)) (calls : List Call),
      makeReader chunks calls = Plain.answers calls chunks.flatten := by
  intro h
  exact absurd (h [[0x61, 0x0a, 0x62, 0x63]] [.hasMore, .readLine 2]) (by decide)

end Stream
end LaneBroker
