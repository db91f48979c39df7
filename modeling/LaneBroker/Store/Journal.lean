/-
# The journal of the object store

`store/journal.js`: one line of JSON for each committed change, numbered from 1.  A process
appends a line, syncs the file and only then moves its committed offset; readers stop there.
A failed append is rolled back by a truncate and a sync, and where that fails too the journal
is broken for this process.  A process that opens the file drops a torn last line and syncs
what is left before it takes the size of the file as its committed offset.

The functions work on the bytes of the file.  JSON is a `Codec`: what it promises is that a
line read back is the record written, that no line has a newline in it, and that the end of a
line without its start is no line.  (`pending`, which only feeds the metrics, is left out, and
of `replication.json` only the offset that the constructor compares is kept.)
-/

import LaneBroker.Basis.SyncedFile

namespace LaneBroker
namespace Store

open LaneBroker.Basis

/-- `DEFAULT_CHUNK_BYTES`. -/
def defaultChunkBytes : Nat := 256 * 1024

/-- **A journal record**: its number and what was appended. -/
structure Rec (φ : Type) where
  seq : Nat
  fields : φ
  deriving DecidableEq, Repr

/-- **`JSON.stringify` and `JSON.parse` of journal records.** -/
structure Codec (φ : Type) where
  stringify : Rec φ → Bytes
  parse : Bytes → Option (Rec φ)
  /-- What was written is read back. -/
  parse_stringify : ∀ r, parse (stringify r) = some r
  /-- JSON escapes newlines. -/
  newline_not_mem : ∀ r, newline ∉ stringify r
  /-- The end of an object's text is no text. -/
  parse_suffix : ∀ r part rest, stringify r = part ++ rest → part ≠ [] → parse rest = none

variable {φ : Type} (codec : Codec φ)

/-- The line of a record, with its newline. -/
def Codec.line (r : Rec φ) : Bytes := codec.stringify r ++ [newline]

/-- The file of a list of records. -/
def Codec.text (rs : List (Rec φ)) : Bytes := unlines (rs.map codec.stringify)

/-! ### Readers -/

/-- **A record as a reader returns it**, with the bytes it was read from. -/
structure Entry (φ : Type) where
  record : Rec φ
  offset : Nat
  /-- `end`. -/
  finish : Nat
  deriving DecidableEq, Repr

/-- **Why a reader throws.** -/
inductive ReadError
  | recordLargerThanChunk
  | notJson
  | outOfStep (byte seq expected : Nat)
  deriving DecidableEq, Repr

/-- The loop of `readJournalFrom` over the lines of its chunk. -/
def entriesFrom : Option Nat → Nat → List Bytes → Except ReadError (List (Entry φ))
  | _, _, [] => .ok []
  | want, pos, l :: ls =>
    match codec.parse l with
    | none => .error .notJson
    | some r =>
      if want.any (· ≠ r.seq) then .error (.outOfStep pos r.seq (want.getD 0))
      else
        match entriesFrom (some (r.seq + 1)) (pos + l.length + 1) ls with
        | .error e => .error e
        | .ok rest => .ok ({ record := r, offset := pos, finish := pos + l.length + 1 } :: rest)

/-- **`readJournalFrom`**, on the content of the file. -/
def readJournalFrom (content : Bytes) (offset maxBytes : Nat) (expectSeq : Option Nat)
    (limit : Nat) : Except ReadError (List (Entry φ)) :=
  let size := min content.length limit
  if size ≤ offset then .ok []
  else
    let buf := (content.drop offset).take (min maxBytes (size - offset))
    let (ls, _) := splitLines buf
    if ls = [] then
      if buf.length = maxBytes then .error .recordLargerThanChunk else .ok []
    else entriesFrom codec expectSeq offset ls

/-- The rounds of `iterateJournal`: what it yields, and the error that ends it if one does. -/
def iterateRounds (content : Bytes) (maxBytes limit : Nat) :
    Nat → Nat → List (Entry φ) × Option ReadError
  | 0, _ => ([], none)
  | rounds + 1, place =>
    match readJournalFrom codec content place maxBytes none limit with
    | .error e => ([], some e)
    | .ok entries =>
      match entries.getLast? with
      | none => ([], none)
      | some last =>
        let (more, e) := iterateRounds content maxBytes limit rounds last.finish
        (entries ++ more, e)

/-- **`iterateJournal`** from an offset.  Every round moves on by a byte at least, so there are
no more rounds than bytes. -/
def iterateJournal (content : Bytes) (offset maxBytes limit : Nat) :
    List (Entry φ) × Option ReadError :=
  iterateRounds codec content maxBytes limit (content.length + 1) offset

/-! ### Opening -/

/-- `buf.lastIndexOf(0x0a)`. -/
def lastNewline : Bytes → Option Nat
  | [] => none
  | b :: bs =>
    match lastNewline bs with
    | some i => some (i + 1)
    | none => if b = newline then some 0 else none

/-- The last bytes of the file, a chunk of them at most. -/
def probe (content : Bytes) : Bytes := (content.reverse.take defaultChunkBytes).reverse

/-- **The size `dropTornTail` cuts the file to**: `none` where it throws, the old size where the
last line is whole. -/
def tornSize (content : Bytes) : Option Nat :=
  let tail := probe content
  if tail.getLast?.all (· = newline) then some content.length
  else match lastNewline tail with
  | none => if tail.length = content.length then some 0 else none
  | some i => some (content.length - tail.length + i + 1)

/-- **`tailSeq`**: the number of the last record, `none` where it throws. -/
def tailSeq (content : Bytes) : Option Nat :=
  if content = [] then some 0
  else (splitLines (probe content)).1.getLast?.bind fun l => (codec.parse l).map Rec.seq

/-- **Where an append stands.** -/
inductive Pc (φ : Type)
  | idle
  /-- So many bytes of the line are written. -/
  | writing (r : Rec φ) (done : Nat)
  | written (r : Rec φ)
  /-- A write or the sync threw. -/
  | failed (r : Rec φ)
  | truncated (r : Rec φ)
  deriving DecidableEq, Repr

/-- **The `Journal` of a process.** -/
structure Journal (φ : Type) where
  committedSeq : Nat
  committedOffset : Nat
  broken : Bool := false
  pc : Pc φ := .idle
  deriving DecidableEq, Repr

/-- **What the host answers while the journal is opened**: which calls succeed, and the offset in
`replication.json`. -/
structure OpenIo where
  truncateOk : Bool := true
  tailSyncOk : Bool := true
  syncOk : Bool := true
  replicatedOffset : Nat := 0

/-- `dropTornTail`: the file after it, and whether it returned. -/
def dropTornTail (file : SyncedFile) (io : OpenIo) : SyncedFile × Bool :=
  match tornSize file.content with
  | none => (file, false)
  | some size =>
    if size = file.content.length then (file, true)
    else if !io.truncateOk then (file, false)
    else
      let cut := file.truncate size
      if io.tailSyncOk then (cut.sync, true) else (cut, false)

/-- **The constructor**: the file it leaves, and the journal if it does not throw. -/
def openJournal (file : SyncedFile) (io : OpenIo) : SyncedFile × Option (Journal φ) :=
  match dropTornTail file io with
  | (file, false) => (file, none)
  | (file, true) =>
    if !io.syncOk then (file, none)
    else
      let file := file.sync
      match tailSeq codec file.content with
      | none => (file, none)
      | some seq =>
        if file.content.length < io.replicatedOffset then (file, none)
        else (file, some { committedSeq := seq, committedOffset := file.content.length })

/-- **`read`** of an open journal: up to the committed offset. -/
def Journal.read (j : Journal φ) (file : SyncedFile) (offset maxBytes : Nat)
    (expectSeq : Option Nat) : Except ReadError (List (Entry φ)) :=
  readJournalFrom codec file.content offset maxBytes expectSeq j.committedOffset

/-- **`iterate`** of an open journal. -/
def Journal.iterate (j : Journal φ) (file : SyncedFile) (offset maxBytes : Nat) :
    List (Entry φ) × Option ReadError :=
  iterateJournal codec file.content offset maxBytes j.committedOffset

/-! ### Appending -/

/-- **What the host answers to the calls of `append`**, one after the other. -/
inductive AppendIo
  /-- `writeSync` writes so many bytes more. -/
  | wrote (n : Nat)
  /-- It throws, or makes no progress. -/
  | writeFails
  /-- The `fsyncSync` behind the write. -/
  | sync (ok : Bool)
  /-- The `ftruncateSync` of the rollback. -/
  | truncate (ok : Bool)
  /-- Its `fsyncSync`. -/
  | syncBack (ok : Bool)
  deriving DecidableEq, Repr

/-- What an `append` comes to, where a call was its last: it returned, it threw with the record
rolled back, or it threw with the journal broken. -/
inductive AppendEnd
  | returned
  | rolledBack
  | broken
  deriving DecidableEq, Repr

/-- **`append` begins**, unless the journal is broken. -/
def Journal.begin (j : Journal φ) (fields : φ) : Option (Journal φ) :=
  match j.broken, j.pc with
  | false, .idle => some { j with pc := .writing { seq := j.committedSeq + 1, fields } 0 }
  | _, _ => none

/-- **The next call of an `append`.** -/
def Journal.step (j : Journal φ) (file : SyncedFile) :
    AppendIo → Option (SyncedFile × Journal φ × Option AppendEnd)
  | .wrote n =>
    match j.pc with
    | .writing r done =>
      let line := codec.line r
      if n = 0 ∨ line.length < done + n then none
      else
        let file := file.append ((line.drop done).take n)
        let pc := if done + n = line.length then .written r else .writing r (done + n)
        some (file, { j with pc }, none)
    | _ => none
  | .writeFails =>
    match j.pc with
    | .writing r _ => some (file, { j with pc := .failed r }, none)
    | _ => none
  | .sync ok =>
    match j.pc with
    | .written r =>
      if ok then
        let offset := j.committedOffset + (codec.line r).length
        some (file.sync, { j with committedSeq := r.seq, committedOffset := offset, pc := .idle },
          some .returned)
      else some (file, { j with pc := .failed r }, none)
    | _ => none
  | .truncate ok =>
    match j.pc with
    | .failed r =>
      if ok then some (file.truncate j.committedOffset, { j with pc := .truncated r }, none)
      else some (file, { j with broken := true, pc := .idle }, some .broken)
    | _ => none
  | .syncBack ok =>
    match j.pc with
    | .truncated _ =>
      if ok then some (file.sync, { j with pc := .idle }, some .rolledBack)
      else some (file, { j with broken := true, pc := .idle }, some .broken)
    | _ => none

/-! ### What the readers return -/

section Readers

variable {codec}

@[simp] theorem text_nil : codec.text [] = [] := rfl

@[simp] theorem text_cons (r : Rec φ) (rs : List (Rec φ)) :
    codec.text (r :: rs) = codec.line r ++ codec.text rs := by
  simp [Codec.text, Codec.line]

@[simp] theorem text_append (rs qs : List (Rec φ)) :
    codec.text (rs ++ qs) = codec.text rs ++ codec.text qs := by
  simp [Codec.text]

theorem text_proper (codec : Codec φ) (rs : List (Rec φ)) : ∀ l ∈ rs.map codec.stringify, newline ∉ l := by
  intro l hl
  obtain ⟨r, -, rfl⟩ := List.mem_map.1 hl
  exact codec.newline_not_mem r

/-- The entries of a list of records that starts at an offset. -/
def entriesOf (codec : Codec φ) : Nat → List (Rec φ) → List (Entry φ)
  | _, [] => []
  | pos, r :: rs =>
    { record := r, offset := pos, finish := pos + (codec.line r).length } ::
      entriesOf codec (pos + (codec.line r).length) rs

theorem map_record_entriesOf (pos : Nat) (rs : List (Rec φ)) :
    (entriesOf codec pos rs).map Entry.record = rs := by
  induction rs generalizing pos with
  | nil => rfl
  | cons r rs ih => simp [entriesOf, ih]

/-- **No entry ends behind the bytes it was read from.** -/
theorem finish_le_of_entriesFrom {want : Option Nat} {pos : Nat} {ls : List Bytes}
    {entries : List (Entry φ)} (h : entriesFrom codec want pos ls = .ok entries) :
    ∀ e ∈ entries, e.finish ≤ pos + (unlines ls).length := by
  induction ls generalizing want pos entries with
  | nil =>
    obtain rfl := Except.ok.inj h
    simp
  | cons l ls ih =>
    unfold entriesFrom at h
    split at h
    · cases h
    · split_ifs at h
      split at h
      · cases h
      · rename_i rest hrest
        obtain rfl := Except.ok.inj h
        intro e he
        simp only [unlines_cons, List.length_append, List.length_cons]
        rcases List.mem_cons.1 he with rfl | he
        · dsimp only
          omega
        · have := ih hrest e he
          omega

/-- **A reader returns nothing behind its limit.** -/
theorem finish_le_of_read {content : Bytes} {offset maxBytes limit : Nat} {expectSeq : Option Nat}
    {entries : List (Entry φ)}
    (h : readJournalFrom codec content offset maxBytes expectSeq limit = .ok entries) :
    ∀ e ∈ entries, e.finish ≤ limit := by
  unfold readJournalFrom at h
  dsimp only at h
  split_ifs at h with hsize hls
  · obtain rfl := Except.ok.inj h
    simp
  · obtain rfl := Except.ok.inj h
    simp
  · intro e he
    have hfinish := finish_le_of_entriesFrom h e he
    have hlen := length_unlines_splitLines
      ((content.drop offset).take (min maxBytes (min content.length limit - offset)))
    simp only [List.length_take, List.length_drop] at hlen
    omega

/-- Records numbered in order from `n`. -/
def NumberedFrom : Nat → List (Rec φ) → Prop
  | _, [] => True
  | n, r :: rs => r.seq = n ∧ NumberedFrom (n + 1) rs

theorem numberedFrom_append {n : Nat} {rs qs : List (Rec φ)} :
    NumberedFrom n (rs ++ qs) ↔ NumberedFrom n rs ∧ NumberedFrom (n + rs.length) qs := by
  induction rs generalizing n with
  | nil => simp [NumberedFrom]
  | cons r rs ih =>
    simp only [List.cons_append, NumberedFrom, ih, List.length_cons]
    rw [show n + 1 + rs.length = n + (rs.length + 1) from by omega, and_assoc]

theorem entriesFrom_text {n pos : Nat} {want : Option Nat} {rs : List (Rec φ)}
    (hnum : NumberedFrom n rs) (hwant : want = none ∨ want = some n) :
    entriesFrom codec want pos (rs.map codec.stringify) = .ok (entriesOf codec pos rs) := by
  induction rs generalizing n pos want with
  | nil => rfl
  | cons r rs ih =>
    obtain ⟨hr, hrs⟩ := hnum
    have hstep : want.any (· ≠ r.seq) = false := by
      rcases hwant with rfl | rfl
      · rfl
      · simp [hr]
    simp only [List.map_cons, entriesFrom, codec.parse_stringify, hstep]
    rw [hr, ih hrs (.inr rfl)]
    simp [entriesOf, Codec.line, Nat.add_assoc]

/-- **A read from where a record starts returns the records from there on**, up to where its
chunk ends; it throws if the first of them does not fit the chunk. -/
theorem read_at_record {n : Nat} (maxBytes : Nat) {expectSeq : Option Nat}
    (before : List (Rec φ)) {after : List (Rec φ)} (more : Bytes) (hnum : NumberedFrom n after) (hwant : expectSeq = none ∨ expectSeq = some n) :
    (∃ rs, rs <+: after ∧ (after ≠ [] → rs ≠ []) ∧
        readJournalFrom codec (codec.text before ++ codec.text after ++ more)
          (codec.text before).length maxBytes expectSeq
          (codec.text before ++ codec.text after).length =
            .ok (entriesOf codec (codec.text before).length rs)) ∨
      readJournalFrom codec (codec.text before ++ codec.text after ++ more)
          (codec.text before).length maxBytes expectSeq
          (codec.text before ++ codec.text after).length = .error .recordLargerThanChunk := by
  have hsize : min (codec.text before ++ codec.text after ++ more).length
      (codec.text before ++ codec.text after).length =
        (codec.text before).length + (codec.text after).length := by
    simp only [List.length_append]
    omega
  have hbuf : ((codec.text before ++ codec.text after ++ more).drop (codec.text before).length).take
      (min maxBytes (codec.text after).length) =
        (codec.text after).take (min maxBytes (codec.text after).length) := by
    rw [List.append_assoc, List.drop_left, List.take_append_of_le_length (by omega)]
  unfold readJournalFrom
  simp only [hsize, Nat.add_sub_cancel_left, hbuf]
  by_cases hafter : after = []
  · subst hafter
    exact .inl ⟨[], List.prefix_rfl, fun h => absurd rfl h, by simp [entriesOf]⟩
  · have hlong : 0 < (codec.text after).length := by
      obtain ⟨r, rs, rfl⟩ := List.exists_cons_of_ne_nil hafter
      simp only [text_cons, Codec.line, List.length_append, List.length_singleton]
      omega
    rw [if_neg (by omega)]
    generalize hcut : (codec.text after).take (min maxBytes (codec.text after).length) = cut
    have hpre : cut <+: codec.text after := hcut ▸ List.take_prefix _ _
    have hlines := splitLines_of_prefix (text_proper codec after) hpre
    by_cases hnone : (splitLines cut).1 = []
    · rw [if_pos hnone]
      by_cases hfull : cut.length = maxBytes
      · exact .inr (by rw [if_pos hfull])
      · -- the whole rest of the file fits, so its lines are there
        exfalso
        have hall : cut = codec.text after := by
          have hmin : min maxBytes (codec.text after).length = (codec.text after).length := by
            rw [← hcut, List.length_take] at hfull
            omega
          rw [← hcut, hmin, List.take_length]
        rw [hall, Codec.text, splitLines_whole (text_proper codec after)] at hnone
        simp [hafter] at hnone
    · rw [if_neg hnone]
      obtain ⟨ms, hms, hls⟩ :
          ∃ ms, ms <+: after ∧ (splitLines cut).1 = ms.map codec.stringify := by
        obtain ⟨rest, hrest⟩ := hlines
        refine ⟨after.take (splitLines cut).1.length, List.take_prefix _ _, ?_⟩
        rw [List.map_take, ← hrest, List.take_left]
      refine .inl ⟨ms, hms, fun _ hnil => hnone (by rw [hls, hnil, List.map_nil]), ?_⟩
      obtain ⟨qs, rfl⟩ := hms
      rw [hls, entriesFrom_text (numberedFrom_append.1 hnum).1 hwant]

/-- A reader that expects no number returns what one that does returns. -/
theorem entriesFrom_none {want : Option Nat} {pos : Nat} {ls : List Bytes}
    {entries : List (Entry φ)} (h : entriesFrom codec want pos ls = .ok entries) :
    entriesFrom codec none pos ls = .ok entries := by
  cases ls with
  | nil => exact h
  | cons l ls =>
    unfold entriesFrom at h ⊢
    split at h
    · cases h
    · split_ifs at h
      simpa using h

theorem read_none {content : Bytes} {offset maxBytes limit : Nat} {expectSeq : Option Nat}
    {entries : List (Entry φ)}
    (h : readJournalFrom codec content offset maxBytes expectSeq limit = .ok entries) :
    readJournalFrom codec content offset maxBytes none limit = .ok entries := by
  unfold readJournalFrom at h ⊢
  dsimp only at h ⊢
  split_ifs at h ⊢ with hsize hls
  · exact h
  · exact h
  · exact entriesFrom_none h

theorem numberedFrom_seq {n : Nat} {rs : List (Rec φ)} (h : NumberedFrom n rs) :
    rs.map Rec.seq = List.range' n rs.length := by
  induction rs generalizing n with
  | nil => rfl
  | cons r rs ih =>
    rw [List.map_cons, h.1, ih h.2, List.length_cons, List.range'_succ]

/-- Where the entries of some records end, and the next record starts. -/
theorem finish_of_getLast? {pos : Nat} {rs : List (Rec φ)} {e : Entry φ}
    (h : (entriesOf codec pos rs).getLast? = some e) :
    e.finish = pos + (codec.text rs).length := by
  induction rs generalizing pos with
  | nil => cases h
  | cons r rs ih =>
    rw [text_cons, List.length_append, ← Nat.add_assoc]
    cases rs with
    | nil =>
      simp only [entriesOf, List.getLast?_singleton, Option.some.injEq] at h
      simp [← h]
    | cons q rs =>
      refine ih ?_
      rw [← h]
      simp [entriesOf, List.getLast?_cons_cons]

/-- **What a reader returns from where a record starts**: records of the journal from there on,
one after the other. -/
theorem records_of_read {before after : List (Rec φ)} {more : Bytes} {maxBytes : Nat}
    {expectSeq : Option Nat} {entries : List (Entry φ)} {n : Nat} (hnum : NumberedFrom n after)
    (h : readJournalFrom codec (codec.text before ++ codec.text after ++ more)
      (codec.text before).length maxBytes expectSeq
      (codec.text before ++ codec.text after).length = .ok entries) :
    ∃ rs, rs <+: after ∧ entries = entriesOf codec (codec.text before).length rs := by
  rcases read_at_record maxBytes before more hnum (.inl rfl) with ⟨rs, hrs, -, hread⟩ | hread
  · rw [read_none h] at hread
    exact ⟨rs, hrs, Except.ok.inj hread⟩
  · rw [read_none h] at hread
    cases hread

end Readers

/-! ### What opening finds -/

section Opening

variable {codec}

theorem lastNewline_eq_none {bs : Bytes} : lastNewline bs = none ↔ newline ∉ bs := by
  induction bs with
  | nil => simp [lastNewline]
  | cons b bs ih =>
    unfold lastNewline
    cases h : lastNewline bs with
    | none =>
      have hbs := ih.1 h
      by_cases hb : b = newline
      · simp [hb]
      · simp [hb, Ne.symm hb, hbs]
    | some i =>
      have : newline ∈ bs := by
        by_contra hc
        rw [ih.2 hc] at h
        cases h
      simp [this]

/-- The last newline is the one with none behind it. -/
theorem lastNewline_append {bs rest : Bytes} (h : newline ∉ rest) :
    lastNewline (bs ++ newline :: rest) = some bs.length := by
  induction bs with
  | nil =>
    simp [lastNewline, lastNewline_eq_none.2 h]
  | cons b bs ih => simp [lastNewline, ih]

theorem text_ends (codec : Codec φ) (rs : List (Rec φ)) :
    codec.text rs = [] ∨ (codec.text rs).getLast? = some newline := by
  rcases List.eq_nil_or_concat rs with rfl | ⟨rs, r, rfl⟩
  · exact .inl rfl
  · right
    rw [List.concat_eq_append, text_append, text_cons, text_nil, List.append_nil, Codec.line,
      ← List.append_assoc]
    simp

theorem probe_eq_drop (content : Bytes) : ∃ k, probe content = content.drop k := by
  refine ⟨content.length - defaultChunkBytes, ?_⟩
  rw [probe, List.take_reverse, List.reverse_reverse]

theorem probe_eq_nil (content : Bytes) : probe content = [] ↔ content = [] := by
  have hpos : defaultChunkBytes ≠ 0 := by decide
  simp [probe, hpos]

/-- **What `dropTornTail` makes of lines with a torn rest**: it cuts off the rest, or throws. -/
theorem tornSize_text (codec : Codec φ) (rs : List (Rec φ)) {part : Bytes} (h : newline ∉ part) :
    tornSize (codec.text rs ++ part) = none ∨
      tornSize (codec.text rs ++ part) = some (codec.text rs).length := by
  generalize hcontent : codec.text rs ++ part = content
  have htailnil := probe_eq_nil content
  obtain ⟨k, hk⟩ := probe_eq_drop content
  unfold tornSize
  dsimp only
  generalize probe content = tail at hk htailnil ⊢
  by_cases hends : tail.getLast?.all (· = newline) = true
  · -- the file ends in a newline or is empty, so nothing is torn
    rw [if_pos hends]
    right
    have hnil : part = [] := by
      by_contra hne
      have htail : tail ≠ [] := by
        rw [Ne, htailnil, ← hcontent]
        simp [hne]
      obtain ⟨head, hhead⟩ : tail <:+ content := hk ▸ List.drop_suffix k content
      have hlast : tail.getLast? = part.getLast? := by
        rw [← List.getLast?_append_of_ne_nil head htail, hhead, ← hcontent,
          List.getLast?_append_of_ne_nil _ hne]
      rw [hlast, List.getLast?_eq_some_getLast hne] at hends
      simp only [Option.all_some, decide_eq_true_eq] at hends
      exact h (hends ▸ List.getLast_mem hne)
    rw [← hcontent, hnil, List.append_nil]
  · rw [if_neg hends]
    by_cases hmem : newline ∈ content
    · have hne : codec.text rs ≠ [] := by
        intro hnil
        rw [← hcontent, hnil] at hmem
        exact h hmem
      obtain ⟨before, hbefore⟩ : ∃ before, codec.text rs = before ++ [newline] := by
        have hlast := (text_ends codec rs).resolve_left hne
        rw [List.getLast?_eq_some_getLast hne] at hlast
        refine ⟨(codec.text rs).dropLast, ?_⟩
        rw [← Option.some.inj hlast, List.dropLast_append_getLast]
      have hsplit : content = before ++ newline :: part := by
        rw [← hcontent, hbefore]
        simp
      have hlen : (codec.text rs).length = before.length + 1 := by simp [hbefore]
      subst hk
      by_cases hle : k ≤ before.length
      · have hdrop : content.drop k = before.drop k ++ newline :: part := by
          rw [hsplit, List.drop_append_of_le_length hle]
        rw [hdrop, lastNewline_append h, hsplit, hlen]
        right
        simp only [List.length_append, List.length_drop, List.length_cons]
        congr 1
        omega
      · -- the whole chunk is behind the last newline
        left
        have hdrop : newline ∉ content.drop k := by
          intro hin
          have hpart : content.drop k = part.drop (k - before.length - 1) := by
            rw [hsplit, List.drop_append, List.drop_of_length_le (by omega)]
            rw [show k - before.length = (k - before.length - 1) + 1 from by omega]
            simp
          rw [hpart] at hin
          exact h (List.mem_of_mem_drop hin)
        rw [lastNewline_eq_none.2 hdrop]
        dsimp only
        rw [if_neg]
        rw [hsplit]
        simp only [List.length_append, List.length_drop, List.length_cons]
        omega
    · have hnil : codec.text rs = [] := by
        by_contra hne
        have hlast := (text_ends codec rs).resolve_left hne
        exact hmem (by rw [← hcontent]; exact List.mem_append_left _ (List.mem_of_getLast? hlast))
      have hnone : newline ∉ tail := fun hin => hmem (List.mem_of_mem_drop (hk ▸ hin))
      rw [lastNewline_eq_none.2 hnone, hnil]
      dsimp only
      split_ifs
      · exact .inr rfl
      · exact .inl rfl

theorem numberedFrom_concat {n : Nat} {rs : List (Rec φ)} {r : Rec φ}
    (h : NumberedFrom n (rs ++ [r])) : r.seq = n + rs.length :=
  (numberedFrom_append.1 h).2.1

/-- **`tailSeq` is the number of records**, or it throws. -/
theorem tailSeq_text (codec : Codec φ) {rs : List (Rec φ)} (hnum : NumberedFrom 1 rs) :
    tailSeq codec (codec.text rs) = none ∨ tailSeq codec (codec.text rs) = some rs.length := by
  rcases List.eq_nil_or_concat rs with rfl | ⟨init, r, rfl⟩
  · exact .inr rfl
  · rw [List.concat_eq_append] at hnum ⊢
    have hseq := numberedFrom_concat hnum
    have htext : codec.text (init ++ [r]) = codec.text init ++ codec.line r := by simp
    have hne : codec.text (init ++ [r]) ≠ [] := by simp [htext, Codec.line]
    unfold tailSeq
    rw [if_neg hne]
    obtain ⟨k, hk⟩ := probe_eq_drop (codec.text (init ++ [r]))
    obtain ⟨cut, hcut⟩ : probe (codec.text (init ++ [r])) <:+ codec.text (init ++ [r]) :=
      hk ▸ List.drop_suffix k _
    clear hk
    generalize probe (codec.text (init ++ [r])) = tail at hcut ⊢
    rw [htext] at hcut
    by_cases hshort : cut.length ≤ (codec.text init).length
    · -- the last line is in the chunk from its start on
      right
      obtain ⟨front, hfront⟩ : ∃ front, codec.text init = cut ++ front :=
        (List.prefix_of_prefix_length_le ⟨_, hcut⟩ (List.prefix_append _ _) hshort).imp
          fun _ h => h.symm
      have htail : tail = front ++ (codec.stringify r ++ [newline]) := by
        rw [hfront, List.append_assoc] at hcut
        exact List.append_cancel_left hcut
      have hends : front = [] ∨ front.getLast? = some newline := by
        by_cases hnil : front = []
        · exact .inl hnil
        · right
          have := text_ends codec init
          rw [hfront, List.getLast?_append_of_ne_nil _ hnil] at this
          exact this.resolve_left (by simp [hnil])
      rw [htail, getLast?_splitLines hends (codec.newline_not_mem r)]
      simp only [Option.bind_some, codec.parse_stringify, Option.map_some, hseq,
        List.length_append, List.length_singleton]
      congr 1
      omega
    · -- the chunk holds only the end of the last line, which is no text
      left
      obtain ⟨part, hpart⟩ : ∃ part, cut = codec.text init ++ part :=
        (List.prefix_of_prefix_length_le (List.prefix_append _ _) ⟨_, hcut⟩ (by omega)).imp
          fun _ h => h.symm
      have hpartne : part ≠ [] := by
        rintro rfl
        rw [hpart] at hshort
        simp at hshort
      have hline : part ++ tail = codec.stringify r ++ [newline] := by
        rw [hpart, List.append_assoc] at hcut
        exact List.append_cancel_left hcut
      by_cases htail : tail = []
      · rw [htail]
        rfl
      · obtain ⟨rest, hrest⟩ : ∃ rest, tail = rest ++ [newline] := by
          have hlast : tail.getLast? = some newline := by
            rw [← List.getLast?_append_of_ne_nil part htail, hline]
            simp
          rw [List.getLast?_eq_some_getLast htail] at hlast
          refine ⟨tail.dropLast, ?_⟩
          rw [← Option.some.inj hlast, List.dropLast_append_getLast]
        have hstring : codec.stringify r = part ++ rest := by
          rw [hrest, ← List.append_assoc] at hline
          exact (List.append_cancel_right hline).symm
        have hproper : newline ∉ rest := by
          intro hin
          exact codec.newline_not_mem r (by rw [hstring]; exact List.mem_append_right _ hin)
        have hsplit := getLast?_splitLines (.inl rfl) hproper
        rw [List.nil_append] at hsplit
        rw [hrest, hsplit]
        simp [codec.parse_suffix r part rest hstring hpartne]

end Opening

end Store
end LaneBroker
