/-
# The stream of a collected set

Whatever the chunks are, `receiveArtifacts` reads them as it reads the plain text, but for an
empty chunk at the end (`receiveArtifacts_chunked_iff`).  Of the text that `encodeArtifacts`
writes it reads back the header, if that is not too long, and the frames.
-/

import LaneBroker.Client.ReceiveArtifacts
import LaneBroker.Stream.Pulling

namespace LaneBroker
namespace Client
namespace Artifacts

open LaneBroker.Basis LaneBroker.Stream LaneBroker.Stream.Reader

variable {toLowerCase : JsString → JsString} {sha : Sha256} {patterns : List JsString}
  {limits : Limits} {ticketId : JsString}

/-! ### Chunks -/

section Chunks

variable {chunks source : List Bytes} {r : Reader} {text : Bytes}

/-- **The same off the chunks as off the text**, with the reader left where the text is. -/
def Same {α : Type} (chunks : List Bytes) :
    Except JsString (α × (Reader × List Bytes)) → Except JsString (α × Bytes) → Prop
  | .ok (a, at_), .ok (b, text) => a = b ∧ Knows chunks at_.1 at_.2 text
  | .error reason, .error reason' => reason = reason'
  | _, _ => False

theorem chunked_readLine (h : Knows chunks r source text) (maxLen : ℕ) :
    ∃ answer at_ text', chunked (.readLine maxLen) (r, source) = (answer, at_) ∧
      Plain.call (.readLine maxLen) text = (answer, text') ∧
        ∀ line, answer = .line line → Knows chunks at_.1 at_.2 text' := by
  obtain ⟨hanswer, hnext⟩ := h.readLine maxLen
  exact ⟨_, _, _, Prod.ext hanswer rfl, rfl, hnext⟩

theorem chunked_readBytes (h : Knows chunks r source text) (n : ℕ) :
    ∃ answer at_ text', chunked (.readBytes n) (r, source) = (answer, at_) ∧
      Plain.call (.readBytes n) text = (answer, text') ∧
        ∀ body, answer = .bytes body → Knows chunks at_.1 at_.2 text' := by
  obtain ⟨hanswer, hnext⟩ := h.readBytes n
  exact ⟨_, _, _, Prod.ext hanswer rfl, rfl, hnext⟩

theorem readHeaderLine_same (h : Knows chunks r source text) (maxLineBytes : ℕ) :
    Same chunks (readHeaderLine chunked maxLineBytes (r, source))
      (readHeaderLine Plain.call maxLineBytes text) := by
  obtain ⟨answer, at_, text', hchunked, hplain, hnext⟩ := chunked_readLine h maxLineBytes
  unfold readHeaderLine
  rw [hchunked, hplain]
  cases answer with
  | line line =>
    simp only
    cases JsonText.parse line with
    | none => rfl
    | some header => exact ⟨rfl, hnext line rfl⟩
  | tooLong => rfl
  | ended => rfl
  | bytes body => rfl
  | more b => rfl

/-- What is no line is no object with the fields of a frame. -/
theorem parseLine_field {malformed : JsString} {answer : Stream.Answer} {v : Json} {name : JsString}
    (hparse : parseLine malformed answer = .ok v) (hfield : v.field name ≠ .undefined) :
    ∃ line, answer = .line line := by
  cases answer with
  | line line => exact ⟨line, rfl⟩
  | ended =>
    obtain rfl := Except.ok.inj hparse
    exact absurd rfl hfield
  | tooLong => cases hparse
  | bytes body => cases hparse
  | more b => cases hparse

theorem readFrames_same (h : Knows chunks r source text) (files : List FileEntry) :
    Same chunks (readFrames chunked sha files (r, source))
      (readFrames Plain.call sha files text) := by
  induction files generalizing r source text with
  | nil => exact ⟨rfl, h⟩
  | cons entry entries ih =>
    obtain ⟨answer, at_, text', hchunked, hplain, hnext⟩ := chunked_readLine h MAX_FRAME_LINE_BYTES
    unfold readFrames
    simp only [hchunked, hplain]
    cases hparse : parseLine (js "malformed artifact frame") answer with
    | error reason => rfl
    | ok frame =>
      simp only
      split
      · rfl
      · next hmatches =>
        simp only [not_or, not_not] at hmatches
        obtain ⟨line, rfl⟩ := parseLine_field hparse (by rw [hmatches.1]; simp)
        obtain ⟨answer, at', text'', hchunked, hplain, hlater⟩ :=
          chunked_readBytes (hnext line rfl) entry.size
        simp only [hchunked, hplain]
        cases answer with
        | bytes body =>
          simp only
          split
          · rfl
          · have hrest := ih (hlater body rfl)
            revert hrest
            cases readFrames chunked sha entries (at'.1, at'.2) <;>
              cases readFrames Plain.call sha entries text'' <;>
              simp [Same, Except.map]
        | line line => rfl
        | tooLong => rfl
        | ended => rfl
        | more b => rfl

theorem readEnd_iff (h : Knows chunks r source text) {files received : List Received} :
    readEnd chunked files (r, source) = .ok received ↔
      readEnd Plain.call files text = .ok received ∧ chunks.getLast? ≠ some [] := by
  obtain ⟨answer, at_, text', hchunked, hplain, hnext⟩ := chunked_readLine h MAX_FRAME_LINE_BYTES
  unfold readEnd
  simp only [hchunked, hplain]
  cases hparse : parseLine (js "artifact stream: ") answer with
  | error reason => simp
  | ok v =>
    simp only
    by_cases hend : v.field (js "end") = .bool true
    · obtain ⟨line, rfl⟩ := parseLine_field hparse (by rw [hend]; simp)
      have hmore := (hnext line rfl).hasMore_eq_false_iff
      have hanswer : ∃ b, (at_.1.hasMore at_.2).1 = .more b := by
        unfold Reader.hasMore
        split
        · exact ⟨_, rfl⟩
        · split <;> exact ⟨_, rfl⟩
      obtain ⟨b, hb⟩ := hanswer
      have hcall : chunked .hasMore at_ = (.more b, (at_.1.hasMore at_.2).2) := Prod.ext hb rfl
      rw [hb] at hmore
      simp only [hend, ne_eq, not_true_eq_false, if_false, hcall, Plain.call]
      cases b with
      | false =>
        obtain ⟨rfl, hlast⟩ := hmore.1 rfl
        simp [hlast]
      | true =>
        have hnot : ¬(text' = [] ∧ chunks.getLast? ≠ some []) := fun hall => by
          simpa using hmore.2 hall
        simp only [reduceCtorEq, false_iff, not_and, not_not]
        intro hok
        by_contra hlast
        refine hnot ⟨?_, hlast⟩
        by_contra htext
        have hpos := List.length_pos_iff.2 htext
        simp [hpos] at hok
    · simp [hend]

/-- **Off chunks `receiveArtifacts` reads what it reads off the text**, unless the last one is
empty. -/
theorem receiveArtifacts_chunked_iff (chunks : List Bytes) {received : List Received} :
    receiveArtifacts chunked toLowerCase sha patterns limits ticketId ({}, chunks) =
        .ok received ↔
      receiveArtifacts Plain.call toLowerCase sha patterns limits ticketId chunks.flatten =
          .ok received ∧
        chunks.getLast? ≠ some [] := by
  have hheader := readHeaderLine_same (knows_new chunks) MAX_STREAM_HEADER_BYTES
  unfold receiveArtifacts
  revert hheader
  cases readHeaderLine chunked MAX_STREAM_HEADER_BYTES (({} : Reader), chunks) with
  | error reason =>
    cases readHeaderLine Plain.call MAX_STREAM_HEADER_BYTES chunks.flatten <;> simp [Same]
  | ok read =>
    cases readHeaderLine Plain.call MAX_STREAM_HEADER_BYTES chunks.flatten with
    | error reason => simp [Same]
    | ok read' =>
      obtain ⟨header, r, source⟩ := read
      obtain ⟨header', text⟩ := read'
      rintro ⟨rfl, hknows⟩
      simp only
      split
      · simp
      · split
        · simp
        · split
          · split
            · simp
            · cases checkEntries toLowerCase patterns limits [] 0 _ with
              | error reason => simp
              | ok files =>
                have hframes : Same chunks (readFrames chunked sha files (r, source))
                    (readFrames Plain.call sha files text) := readFrames_same hknows files
                simp only
                revert hframes
                cases readFrames chunked sha files (r, source) with
                | error reason =>
                  cases readFrames Plain.call sha files text <;> simp [Same]
                | ok read =>
                  cases readFrames Plain.call sha files text with
                  | error reason => simp [Same]
                  | ok read' =>
                    obtain ⟨files, r, source⟩ := read
                    obtain ⟨files', text⟩ := read'
                    rintro ⟨rfl, hknows⟩
                    exact readEnd_iff hknows
          · simp

end Chunks

/-! ### The text -/

/-- An entry as a value. -/
def entryJson (entry : FileEntry) : Json :=
  .obj [(js "path", .str entry.path), (js "size", .num entry.size),
    (js "sha256", .str entry.sha256)]

/-- The header as a value. -/
def headerJson (ticketId : JsString) (files : List FileEntry) : Json :=
  .obj [(js "protocol", .num ARTIFACT_STREAM_PROTOCOL), (js "ticketId", .str ticketId),
    (js "files", .arr (files.map entryJson))]

section Text

open JsonText

theorem written_entryText (entry : FileEntry) : Written 2 (entryJson entry) (entryText entry) := by
  refine written_objectText (.cons ⟨rfl, ?_⟩ (.cons ⟨rfl, ?_⟩ (.cons ⟨rfl, ?_⟩ .nil)))
  · exact written_quote entry.path
  · exact written_decimalText entry.size
  · exact written_quote entry.sha256

theorem written_headerText (ticketId : JsString) (files : List FileEntry) :
    Written 4 (headerJson ticketId files) (headerText ticketId files) := by
  have hfiles : Written 3 (.arr (files.map entryJson)) (arrayText (files.map entryText)) := by
    refine written_arrayText ?_
    rw [List.forall₂_map_left_iff, List.forall₂_map_right_iff, List.forall₂_same]
    exact fun entry _ => written_entryText entry
  refine written_objectText (.cons ⟨rfl, ?_⟩ (.cons ⟨rfl, ?_⟩ (.cons ⟨rfl, hfiles⟩ .nil)))
  · exact (written_decimalText ARTIFACT_STREAM_PROTOCOL).mono (by decide)
  · exact (written_quote ticketId).mono (by decide)

theorem written_endText : Written 2 (.obj [(js "end", .bool true)]) endText :=
  written_objectText (.cons ⟨rfl, written_true⟩ .nil)

theorem entryJson_fields (entry : FileEntry) :
    (entryJson entry).field (js "path") = .str entry.path ∧
      (entryJson entry).field (js "size") = .num entry.size ∧
        (entryJson entry).field (js "sha256") = .str entry.sha256 :=
  ⟨rfl, rfl, rfl⟩

theorem headerJson_fields (ticketId : JsString) (files : List FileEntry) :
    (headerJson ticketId files).field (js "protocol") = .num ARTIFACT_STREAM_PROTOCOL ∧
      (headerJson ticketId files).field (js "ticketId") = .str ticketId ∧
        (headerJson ticketId files).member (js "files") = some (.arr (files.map entryJson)) :=
  ⟨rfl, rfl, rfl⟩

/-- **A line is read back**, if it is not too long. -/
theorem readLine_lineOf {depth : ℕ} {v : Json} {text : JsString} (h : Written depth v text)
    (maxLen : ℕ) (rest : Bytes) :
    Plain.call (.readLine maxLen) (lineOf text ++ rest) =
      if maxLen < (encodeUtf8 text).length then (.tooLong, lineOf text ++ rest)
      else (.line text, rest) := by
  have hnewline : newlineByte ∉ encodeUtf8 text := by
    refine Utf8.ascii_not_mem_encode (by decide) h.wellFormed fun hmem => ?_
    exact absurd (h.printable _ hmem) (by decide)
  have hindex : indexOfNewline (encodeUtf8 text ++ newlineByte :: rest) =
      some (encodeUtf8 text).length := by
    have hnone : indexOfNewline (encodeUtf8 text) = none := by
      rw [indexOfNewline, List.findIdx?_eq_none_iff]
      intro b hb
      simpa using fun heq : b = newlineByte => hnewline (heq ▸ hb)
    rw [indexOfNewline_append, hnone]
    simp [indexOfNewline, List.findIdx?_cons]
  have htext : lineOf text ++ rest = encodeUtf8 text ++ newlineByte :: rest := by
    simp [lineOf, newlineByte, Basis.newline]
  rw [htext, Plain.call, Plain.readLine, hindex]
  simp only
  split
  · rfl
  · rw [List.take_left, Utf8.decode_encode h.wellFormed, ← List.drop_drop, List.drop_left]
    rfl

theorem readBytes_body (body rest : Bytes) :
    Plain.call (.readBytes body.length) (body ++ rest) = (.bytes body, rest) := by
  rw [Plain.call, Plain.readBytes, if_pos (by simp), List.take_left, List.drop_left]

theorem parseLine_written (malformed : JsString) {depth : ℕ} {v : Json} {text : JsString}
    (h : Written depth v text) (hdepth : depth ≤ text.length + 1) :
    parseLine malformed (.line text) = .ok v := by
  rw [parseLine, parse_written h hdepth]

/-! ### What is read back -/

/-- An entry that the submitter lets through. -/
structure Admissible (toLowerCase : JsString → JsString) (patterns : List JsString)
    (limits : Limits) (entry : FileEntry) : Prop where
  canonical : isCanonicalRelPath entry.path = true
  unprotected : isDeniedArtifactPath toLowerCase entry.path = false
  declared : isUnderDeclaredDir entry.path patterns = true
  size : entry.size ≤ limits.maxFileBytes
  sha256 : isSha256 entry.sha256 = true

/-- **A header that the submitter lets through.** -/
structure Acceptable (toLowerCase : JsString → JsString) (patterns : List JsString)
    (limits : Limits) (files : List FileEntry) : Prop where
  entries : ∀ entry ∈ files, Admissible toLowerCase patterns limits entry
  distinct : (files.map FileEntry.path).Nodup
  count : files.length ≤ limits.maxCount
  total : (files.map FileEntry.size).sum ≤ limits.maxTotalBytes

theorem checkEntries_ok {files : List FileEntry} {seen : List JsString} {total : ℕ}
    (hentries : ∀ entry ∈ files, Admissible toLowerCase patterns limits entry)
    (hdistinct : (files.map FileEntry.path).Nodup) (hseen : ∀ entry ∈ files, entry.path ∉ seen)
    (htotal : total + (files.map FileEntry.size).sum ≤ limits.maxTotalBytes) :
    checkEntries toLowerCase patterns limits seen total (files.map entryJson) = .ok files := by
  induction files generalizing seen total with
  | nil => rfl
  | cons entry files ih =>
    obtain ⟨hentry, hrest⟩ := List.forall_mem_cons.1 hentries
    obtain ⟨hnew, hlater⟩ := List.forall_mem_cons.1 hseen
    obtain ⟨hnot, hdistinct⟩ := List.nodup_cons.1 hdistinct
    rw [List.map_cons, List.sum_cons] at htotal
    obtain ⟨hpath, hsize, hsha⟩ := entryJson_fields entry
    have hinteger : (JsVal.num (entry.size : ℚ)).integer? = some (entry.size : ℤ) := by
      simp [JsVal.integer?]
    have hnext := @ih (entry.path :: seen) (total + entry.size) hrest hdistinct
      (by
        intro other hother hmem
        obtain heq | hmem := List.mem_cons.1 hmem
        · exact hnot (heq ▸ List.mem_map_of_mem hother)
        · exact hlater other hother hmem)
      (by omega)
    have hfile : ¬((limits.maxFileBytes : ℤ) < entry.size) := by
      have := hentry.size
      omega
    have hall : ¬((limits.maxTotalBytes : ℤ) < total + entry.size) := by omega
    rw [Nat.cast_add] at hnext
    rw [List.map_cons, checkEntries, hpath]
    simp only [hentry.canonical, hentry.unprotected, hentry.declared, Bool.not_true,
      Bool.false_eq_true, if_false, hnew, hsize, hinteger, hfile, hall, hsha, hentry.sha256, hnext]
    simp [Except.map]

/-- A file with its entry. -/
def receivedOf (file : FileEntry × Bytes) : Received :=
  ⟨file.1.path, file.1.size, file.1.sha256, file.2⟩

/-- The frame of a file. -/
def frameOf (file : FileEntry × Bytes) : Bytes := lineOf (entryText file.1) ++ file.2

theorem readFrames_ok {files : List (FileEntry × Bytes)}
    (hfits : ∀ file ∈ files, (encodeUtf8 (entryText file.1)).length ≤ MAX_FRAME_LINE_BYTES)
    (hsize : ∀ file ∈ files, file.2.length = file.1.size)
    (hsha : ∀ file ∈ files, sha.sha256Of file.2 = file.1.sha256) (rest : Bytes) :
    readFrames Plain.call sha (files.map Prod.fst) (files.flatMap frameOf ++ rest) =
      .ok (files.map receivedOf, rest) := by
  induction files with
  | nil => rfl
  | cons file files ih =>
    obtain ⟨hfit, hfits⟩ := List.forall_mem_cons.1 hfits
    obtain ⟨hbody, hsize⟩ := List.forall_mem_cons.1 hsize
    obtain ⟨hhash, hsha⟩ := List.forall_mem_cons.1 hsha
    have hwritten := written_entryText file.1
    have hline := readLine_lineOf hwritten MAX_FRAME_LINE_BYTES
      (file.2 ++ (files.flatMap frameOf ++ rest))
    rw [if_neg (by omega)] at hline
    have hparse := parseLine_written (js "malformed artifact frame") hwritten (by
      simp [entryText, JsonText.objectText])
    have hread := readBytes_body file.2 (files.flatMap frameOf ++ rest)
    rw [hbody] at hread
    obtain ⟨hpath, hlength, hdigest⟩ := entryJson_fields file.1
    rw [List.map_cons, List.flatMap_cons, frameOf, List.append_assoc, List.append_assoc, readFrames]
    simp only [hline, hparse, hpath, hlength, hdigest, ne_eq, not_true_eq_false, or_self, if_false,
      hread, hhash, ih hfits hsize hsha, Except.map]
    rfl

theorem readEnd_ok (received : List Received) :
    readEnd Plain.call received (lineOf endText) = .ok received := by
  have hline := readLine_lineOf written_endText MAX_FRAME_LINE_BYTES []
  rw [List.append_nil, if_neg (by decide)] at hline
  have hparse := parseLine_written (js "artifact stream: ") written_endText (by decide)
  have hend : (Json.obj [(js "end", .bool true)]).field (js "end") = .bool true := rfl
  rw [readEnd]
  simp only [hline, hparse, hend]
  rfl

/-- **A part of a text takes no more bytes than the text.** -/
def PartOf (part text : JsString) : Prop := ∃ a b, Utf8.WellFormed a ∧ text = a ++ (part ++ b)

theorem PartOf.trans {a b c : JsString} (h : PartOf a b) (h' : PartOf b c) : PartOf a c := by
  obtain ⟨front, back, hfront, rfl⟩ := h
  obtain ⟨front', back', hfront', rfl⟩ := h'
  exact ⟨front' ++ front, back ++ back', hfront'.append hfront, by simp⟩

theorem PartOf.length_le {part text : JsString} (h : PartOf part text)
    (hpart : Utf8.WellFormed part) : (encodeUtf8 part).length ≤ (encodeUtf8 text).length := by
  obtain ⟨a, b, ha, rfl⟩ := h
  rw [ha.encode_append, hpart.encode_append]
  simp only [List.length_append]
  omega

theorem partOf_intercalate {texts : List JsString}
    (h : ∀ text ∈ texts, Utf8.WellFormed text) {text : JsString} (hmem : text ∈ texts) :
    PartOf text ([0x2c].intercalate texts) := by
  induction texts with
  | nil => cases hmem
  | cons first texts ih =>
    obtain ⟨hfirst, hrest⟩ := List.forall_mem_cons.1 h
    by_cases hlast : texts = []
    · subst hlast
      obtain rfl := List.mem_singleton.1 hmem
      exact ⟨[], [], Utf8.wellFormed_nil, by simp⟩
    · rw [List.intercalate_cons_of_ne_nil hlast]
      obtain rfl | hmem := List.mem_cons.1 hmem
      · exact ⟨[], [0x2c] ++ [0x2c].intercalate texts, Utf8.wellFormed_nil, by simp⟩
      · have hcomma : Utf8.WellFormed [0x2c] := Utf8.wellFormed_of_noSurrogate (by decide)
        refine (ih hrest hmem).trans ⟨first ++ [0x2c], [], hfirst.append hcomma, by simp⟩

theorem partOf_arrayText {texts : List JsString} (h : ∀ text ∈ texts, Utf8.WellFormed text)
    {text : JsString} (hmem : text ∈ texts) : PartOf text (arrayText texts) := by
  have hopen : Utf8.WellFormed [0x5b] := Utf8.wellFormed_of_noSurrogate (by decide)
  exact (partOf_intercalate h hmem).trans ⟨[0x5b], [0x5d], hopen, rfl⟩

/-- The header holds the text of each entry. -/
theorem partOf_headerText (ticketId : JsString) {files : List FileEntry} {entry : FileEntry}
    (hmem : entry ∈ files) :
    PartOf (entryText entry) (headerText ticketId files) := by
  have hentries : ∀ text ∈ files.map entryText, Utf8.WellFormed text := by
    intro text htext
    obtain ⟨entry, -, rfl⟩ := List.mem_map.1 htext
    exact (written_entryText entry).wellFormed
  have harray := partOf_arrayText hentries (List.mem_map_of_mem hmem)
  have hfront : Utf8.WellFormed (0x7b :: (quote (js "protocol") ++ 0x3a ::
      decimalText ARTIFACT_STREAM_PROTOCOL ++ [0x2c] ++
        (quote (js "ticketId") ++ 0x3a :: quote ticketId) ++ [0x2c] ++
          (quote (js "files") ++ [0x3a]))) := by
    have hmark : ∀ u : UInt16, u.toNat < 0xd800 → Utf8.WellFormed [u] :=
      fun u hu => Utf8.wellFormed_of_lt (by simpa using hu)
    have hopen := hmark 0x7b (by decide)
    have hcomma := hmark 0x2c (by decide)
    have hcolon := hmark 0x3a (by decide)
    have hprotocol := (wellFormed_quote (js "protocol")).append
      (hcolon.append (wellFormed_decimalText ARTIFACT_STREAM_PROTOCOL))
    have hticket := (wellFormed_quote (js "ticketId")).append
      (hcolon.append (wellFormed_quote ticketId))
    have hname := (wellFormed_quote (js "files")).append hcolon
    exact hopen.append ((((hprotocol.append hcomma).append hticket).append hcomma).append hname)
  refine harray.trans ⟨_, [0x7d], hfront, ?_⟩
  simp [headerText, objectText, List.intercalate_cons_cons]

/-- What the header says when it is too long. -/
def headerTooLong : JsString := js "header line: line exceeds max length"

/-- **The whole text is read back**, if the header is not too long. -/
theorem receiveArtifacts_text (ticketId : JsString) {files : List (FileEntry × Bytes)}
    (hfiles : Acceptable toLowerCase patterns limits (files.map Prod.fst))
    (hsize : ∀ file ∈ files, file.2.length = file.1.size)
    (hsha : ∀ file ∈ files, sha.sha256Of file.2 = file.1.sha256) :
    receiveArtifacts Plain.call toLowerCase sha patterns limits ticketId
        (lineOf (headerText ticketId (files.map Prod.fst)) ++ files.flatMap frameOf ++
          lineOf endText) =
      if MAX_STREAM_HEADER_BYTES <
          (encodeUtf8 (headerText ticketId (files.map Prod.fst))).length then
        .error headerTooLong
      else .ok (files.map receivedOf) := by
  have hwritten := written_headerText ticketId (files.map Prod.fst)
  have hline := readLine_lineOf hwritten MAX_STREAM_HEADER_BYTES
    (files.flatMap frameOf ++ lineOf endText)
  rw [List.append_assoc, receiveArtifacts, readHeaderLine, hline]
  by_cases hlong : MAX_STREAM_HEADER_BYTES <
      (encodeUtf8 (headerText ticketId (files.map Prod.fst))).length
  · rw [if_pos hlong, if_pos hlong]
    rfl
  · rw [if_neg hlong, if_neg hlong]
    have hparse := parse_written hwritten (by
      simp only [headerText, objectText, List.map_cons, List.map_nil, List.intercalate_cons_cons,
        quote, List.length_cons, List.length_append]
      omega)
    obtain ⟨hprotocol, hticket, hentries⟩ :=
      headerJson_fields ticketId (files.map Prod.fst)
    have hcheck : checkEntries toLowerCase patterns limits [] (0 : ℕ)
        ((files.map Prod.fst).map entryJson) = .ok (files.map Prod.fst) :=
      checkEntries_ok hfiles.entries hfiles.distinct (by simp) (by simpa using hfiles.total)
    have hcount : ¬limits.maxCount < ((files.map Prod.fst).map entryJson).length := by
      have := hfiles.count
      simp only [List.length_map] at this ⊢
      omega
    have hlines : ∀ file ∈ files,
        (encodeUtf8 (entryText file.1)).length ≤ MAX_FRAME_LINE_BYTES := by
      intro file hfile
      have hpart := (partOf_headerText ticketId
        (List.mem_map_of_mem (f := Prod.fst) hfile)).length_le (written_entryText file.1).wellFormed
      have hle : MAX_STREAM_HEADER_BYTES ≤ MAX_FRAME_LINE_BYTES := by decide
      omega
    have hframes := readFrames_ok hlines hsize hsha (lineOf endText)
    rw [Nat.cast_zero] at hcheck
    simp only [hparse, hprotocol, hticket, ne_eq, not_true_eq_false, if_false, hentries, hcount,
      hcheck, hframes, readEnd_ok]

end Text

end Artifacts
end Client
end LaneBroker
