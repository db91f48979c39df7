/-
# What a content key determines

A result is used again for the worktree that has its key.  The parts of the key are framed by
their lengths, so each is determined.  The text of the untracked entries is not framed: its
lines can be told apart as long as no link's target holds a newline, for the name at the
beginning of a line ends at its NUL, and what stands after it then holds no newline.

All this is about the directory that is asked, which is the worktree's if the path of its top
directory survives being printed, trimmed and cut at newlines.  And the diff is about what git
stores, so it says what is in a file if git stores the file as it is.
-/

import LaneBroker.Caches.ContentKey

namespace LaneBroker
namespace Caches

open LaneBroker.Basis
open LaneBroker.Stream (Disk Item Listing parsePathList comparePaths isSpace)

/-! ### What is to be the same -/

section Statement

variable {restore : Restore}

/-- An untracked entry: its name and what is there, in bytes. -/
def Worktree.HasUntracked (w : Worktree restore) (name : List UInt8) (item : Item) : Prop :=
  name ∈ w.untracked.names ∧ w.disk.item name = some item

/-- **Two calls belong to the same tree and command.** -/
structure SameContent (c c' : ContentCall restore) : Prop where
  key : c.key = c'.key
  cmdFingerprint : c.cmdFingerprint = c'.cmdFingerprint
  identity : c.identity = c'.identity
  tracked : c.worktree.tracked = c'.worktree.tracked
  untracked : ∀ name item,
    c.worktree.HasUntracked name item ↔ c'.worktree.HasUntracked name item

/-- The strings that a content key is made of. -/
def ContentCall.texts (c : ContentCall restore) : List JsString :=
  [c.key, c.cmdFingerprint] ++ c.identity.toList

/-- **A path that is read back from git's output**: it is UTF-8, has no newline and does not end
in white space. -/
structure Printable (toplevel : List UInt8) : Prop where
  valid : Utf8.Valid toplevel
  newline : 0x0a ∉ decodeUtf8 toplevel
  last : ∀ u ∈ (decodeUtf8 toplevel).getLast?, isSpace u = false

/-- **A call whose entries can be told apart**: git is asked in the top directory and stores every
tracked entry as it is, the untracked names and the targets of links are UTF-8, no target holds a
newline, and no string has a lone surrogate. -/
structure Legible (c : ContentCall restore) : Prop where
  toplevel : Printable c.worktree.toplevel
  stored : ∀ name item, c.worktree.tracked name = some item → c.worktree.stored name item = item
  texts : ∀ s ∈ c.texts, Utf8.WellFormed s
  names : ∀ name ∈ c.worktree.untracked.names, Utf8.Valid name
  targets : ∀ name target, c.worktree.HasUntracked name (.link target) →
    Utf8.Valid target ∧ 0x0a ∉ decodeUtf8 target

/-- **One key means the same tree and command**, also where a row of the history is used again:
the call under whose key it was recorded is the same. -/
def KeyBelongs (sha256 : List UInt8 → List UInt8) (c c' : ContentCall restore) : Prop :=
  (∀ k, computeContentKey sha256 c = some k → computeContentKey sha256 c' = some k →
    SameContent c c') ∧
  ∀ k rows row now passTtlMs redTtlMs, computeContentKey sha256 c = some k →
    row.contentKey = computeContentKey sha256 c' →
    (decideReuse rows k now passTtlMs redTtlMs = .serve row ∨
      decideReuse rows k now passTtlMs redTtlMs = .refuse row) → SameContent c c'

end Statement

/-- Git stores what is there. -/
theorem Legible.map_stored {restore : Restore} {c : ContentCall restore} (h : Legible c)
    (name : List UInt8) :
    (c.worktree.tracked name).map (c.worktree.stored name) = c.worktree.tracked name := by
  cases hitem : c.worktree.tracked name with
  | none => rfl
  | some item => exact congrArg some (h.stored name item hitem)

/-! ### The digest -/

theorem digest_inj {sha256 : List UInt8 → List UInt8} (hsha : Function.Injective sha256)
    {parts parts' : List (List UInt8)} (h : digest sha256 parts = digest sha256 parts') :
    parts = parts' := Framing.nets_inj (hsha (hexText_inj h))

/-! ### The lines of the untracked entries -/

theorem linesText_cons (line : JsString × JsString) (rest : List (JsString × JsString)) :
    linesText (line :: rest) =
      line.1 ++ 0 :: (line.2 ++ if rest = [] then [] else 0x0a :: linesText rest) := by
  cases rest with
  | nil => simp [linesText, List.intercalate]
  | cons line' rest =>
    have hnewline : js "\n" = [0x0a] := by decide
    simp [linesText, List.intercalate, hnewline]

/-- **The lines are read back**, when no name holds a NUL and nothing after one a newline. -/
theorem linesText_inj {lines lines' : List (JsString × JsString)}
    (hl : ∀ line ∈ lines, 0 ∉ line.1 ∧ 0x0a ∉ line.2)
    (hl' : ∀ line ∈ lines', 0 ∉ line.1 ∧ 0x0a ∉ line.2)
    (h : linesText lines = linesText lines') : lines = lines' := by
  induction lines generalizing lines' with
  | nil =>
    cases lines' with
    | nil => rfl
    | cons line' rest' =>
      rw [linesText_cons] at h
      exact absurd h.symm (by simp [linesText])
  | cons line rest ih =>
    cases lines' with
    | nil =>
      rw [linesText_cons] at h
      exact absurd h (by simp [linesText])
    | cons line' rest' =>
      obtain ⟨⟨hname, htail⟩, hrest⟩ := List.forall_mem_cons.1 hl
      obtain ⟨⟨hname', htail'⟩, hrest'⟩ := List.forall_mem_cons.1 hl'
      rw [linesText_cons, linesText_cons] at h
      obtain ⟨hfirst, hafter⟩ := Framing.cut_inj hname hname' h
      by_cases hnil : rest = [] <;> by_cases hnil' : rest' = []
      · rw [if_pos hnil, if_pos hnil', List.append_nil, List.append_nil] at hafter
        rw [hnil, hnil', Prod.ext hfirst hafter]
      · rw [if_pos hnil, if_neg hnil', List.append_nil] at hafter
        exact absurd (by rw [hafter]; simp) htail
      · rw [if_neg hnil, if_pos hnil', List.append_nil] at hafter
        exact absurd (by rw [← hafter]; simp) htail'
      · rw [if_neg hnil, if_neg hnil'] at hafter
        obtain ⟨hsecond, hlines⟩ := Framing.cut_inj htail htail' hafter
        rw [ih hrest hrest' hlines, Prod.ext hfirst hsecond]

theorem wellFormed_hexText (bytes : List UInt8) : Utf8.WellFormed (hexText bytes) :=
  Utf8.wellFormed_of_lt fun u hu => by
    have := (toNat_mem_hexText u hu).2
    omega

section Entries

variable {sha256 : List UInt8 → List UInt8}

theorem fingerprintLines_spec {disk : Disk} {bytes : Nat} {names : List JsString}
    {lines : List (JsString × JsString)}
    (h : fingerprintLines sha256 disk bytes names = some lines) :
    lines.map Prod.fst = names ∧ ∀ line ∈ lines, ∃ item, disk.lstatSync line.1 = some item ∧
      lineTail sha256 item = some line.2 := by
  induction names generalizing bytes lines with
  | nil =>
    obtain rfl := Option.some.inj h
    exact ⟨rfl, nofun⟩
  | cons rel rest ih =>
    unfold fingerprintLines at h
    split at h
    · cases h
    · rename_i item hitem
      split_ifs at h
      split at h
      · cases h
      · rename_i tail htail
        obtain ⟨tails, hrest, rfl⟩ := Option.map_eq_some_iff.1 h
        obtain ⟨hnames, hlines⟩ := ih hrest
        refine ⟨by rw [List.map_cons, hnames], ?_⟩
        rw [List.forall_mem_cons]
        exact ⟨⟨item, hitem, htail⟩, hlines⟩

/-- What stands after a name is of a link whose target is as given, or of a file with a hash. -/
theorem lineTail_eq {item : Item} {tail : JsString} (h : lineTail sha256 item = some tail) :
    (∃ target, item = .link target ∧ tail = js "symlink" ++ 0 :: 0 :: decodeUtf8 target) ∨
    ∃ exec contents, item = .file exec contents ∧ tail =
      js "file" ++ 0 :: js (if exec then "true" else "false") ++ 0 :: hexText (sha256 contents) := by
  unfold lineTail at h
  split at h
  · exact .inl ⟨_, rfl, (Option.some.inj h).symm⟩
  · exact .inr ⟨_, _, rfl, (Option.some.inj h).symm⟩
  · cases h
  · cases h

/-- **What is there is read back**, when the targets of links are UTF-8. -/
theorem lineTail_inj {item item' : Item} {tail : JsString} (hsha : Function.Injective sha256)
    (ht : ∀ target, item = .link target → Utf8.Valid target)
    (ht' : ∀ target, item' = .link target → Utf8.Valid target)
    (h : lineTail sha256 item = some tail) (h' : lineTail sha256 item' = some tail) :
    item = item' := by
  rcases lineTail_eq h with ⟨target, rfl, rfl⟩ | ⟨exec, contents, rfl, rfl⟩
  · rcases lineTail_eq h' with ⟨target', rfl, heq⟩ | ⟨exec', contents', rfl, heq⟩
    · rw [List.append_cancel_left_eq, List.cons.injEq, List.cons.injEq] at heq
      rw [Utf8.decode_inj (ht _ rfl) (ht' _ rfl) heq.2.2]
    · have hhead : some (0x73 : UInt16) = some 0x66 := congrArg List.head? heq
      exact absurd hhead (by decide)
  · rcases lineTail_eq h' with ⟨target', rfl, heq⟩ | ⟨exec', contents', rfl, heq⟩
    · have hhead : some (0x66 : UInt16) = some 0x73 := congrArg List.head? heq
      exact absurd hhead (by decide)
    · rw [List.append_assoc, List.append_assoc, List.append_cancel_left_eq, List.cons_append,
        List.cons_append, List.cons.injEq] at heq
      have hexec : ∀ e : Bool, (0 : UInt16) ∉ js (if e then "true" else "false") := by decide
      obtain ⟨hsame, hhex⟩ := Framing.cut_inj (hexec exec) (hexec exec') heq.2
      have hboth : ∀ e e' : Bool, js (if e then "true" else "false") =
          js (if e' then "true" else "false") → e = e' := by decide
      rw [hboth exec exec' hsame, hsha (hexText_inj hhex)]

/-- No newline stands after a name. -/
theorem newline_not_mem_lineTail {item : Item} {tail : JsString}
    (ht : ∀ target, item = .link target → 0x0a ∉ decodeUtf8 target)
    (h : lineTail sha256 item = some tail) : 0x0a ∉ tail := by
  rcases lineTail_eq h with ⟨target, rfl, rfl⟩ | ⟨exec, contents, rfl, rfl⟩
  · have hkind : (0x0a : UInt16) ∉ js "symlink" := by decide
    simp [hkind, ht target rfl]
  · have hkind : (0x0a : UInt16) ∉ js "file" := by decide
    have hexec : ∀ e : Bool, (0x0a : UInt16) ∉ js (if e then "true" else "false") := by decide
    have hhex : (0x0a : UInt16) ∉ hexText (sha256 contents) := by
      intro hmem
      exact absurd (toNat_mem_hexText _ hmem).1 (by decide)
    simp [hkind, hexec, hhex]

theorem wellFormed_lineTail {item : Item} {tail : JsString}
    (h : lineTail sha256 item = some tail) : Utf8.WellFormed tail := by
  have hzero : Utf8.WellFormed [0] := Utf8.wellFormed_of_noSurrogate rfl
  rcases lineTail_eq h with ⟨target, rfl, rfl⟩ | ⟨exec, contents, rfl, rfl⟩
  · have hkind : Utf8.WellFormed (js "symlink") := Utf8.wellFormed_of_noSurrogate rfl
    exact hkind.append (hzero.append (hzero.append (Utf8.wellFormed_decode target)))
  · have hkind : Utf8.WellFormed (js "file") := Utf8.wellFormed_of_noSurrogate rfl
    have hexec : ∀ e : Bool, Utf8.WellFormed (js (if e then "true" else "false")) :=
      fun e => Utf8.wellFormed_of_noSurrogate (by revert e; decide)
    exact (hkind.append (hzero.append (hexec exec))).append (hzero.append (wellFormed_hexText _))

theorem wellFormed_linesText {lines : List (JsString × JsString)}
    (h : ∀ line ∈ lines, Utf8.WellFormed line.1 ∧ Utf8.WellFormed line.2) :
    Utf8.WellFormed (linesText lines) := by
  have hzero : Utf8.WellFormed [0] := Utf8.wellFormed_of_noSurrogate rfl
  have hnewline : Utf8.WellFormed [0x0a] := Utf8.wellFormed_of_noSurrogate rfl
  induction lines with
  | nil => exact Utf8.wellFormed_nil
  | cons line rest ih =>
    obtain ⟨⟨hname, htail⟩, hrest⟩ := List.forall_mem_cons.1 h
    rw [linesText_cons]
    refine hname.append (hzero.append (htail.append ?_))
    split_ifs
    · exact Utf8.wellFormed_nil
    · exact hnewline.append (ih hrest)

end Entries

/-! ### The directory that is asked -/

theorem hexText_ne_nil {bytes : List UInt8} (h : bytes ≠ []) : hexText bytes ≠ [] := by
  obtain ⟨b, bytes, rfl⟩ := List.exists_cons_of_ne_nil h
  exact nofun

theorem isSpace_hexText {bytes : List UInt8} : ∀ u ∈ hexText bytes, isSpace u = false := by
  intro u hu
  obtain ⟨hlow, hhigh⟩ := toNat_mem_hexText u hu
  simp only [isSpace, decide_eq_false_iff_not, ← UInt16.toNat_inj, UInt16.le_iff_toNat_le,
    not_or, not_and]
  simp
  omega

/-- **The id and the path are read back**, of a path that survives it. -/
theorem splitOn_trim_revParse {restore : Restore} {w : Worktree restore}
    (h : Printable w.toplevel) :
    (trim (decodeUtf8 w.revParse)).splitOn 0x0a = [hexText w.headTree, decodeUtf8 w.toplevel] := by
  have htext : decodeUtf8 w.revParse =
      hexText w.headTree ++ 0x0a :: decodeUtf8 w.toplevel ++ [0x0a] := by
    rw [Worktree.revParse, Utf8.decode_append_ascii (by decide),
      Utf8.decode_append_ascii (by decide), Utf8.decode_encode (wellFormed_hexText _), List.append_assoc]
    rfl
  obtain ⟨u, rest, hhex⟩ := List.exists_cons_of_ne_nil (hexText_ne_nil w.headTree_ne)
  have hu : isSpace u = false := isSpace_hexText u (by rw [hhex]; exact List.mem_cons_self)
  have hhexFree : (0x0a : UInt16) ∉ hexText w.headTree := fun hmem =>
    absurd (isSpace_hexText _ hmem) (by decide)
  have htrim : trim (decodeUtf8 w.revParse) =
      hexText w.headTree ++ 0x0a :: decodeUtf8 w.toplevel := by
    have hdrop : (decodeUtf8 w.revParse).dropWhile isSpace = decodeUtf8 w.revParse := by
      rw [htext, hhex]
      exact List.dropWhile_cons_of_neg (by simp [hu])
    rw [trim, hdrop, htext, List.rdropWhile_concat_pos _ _ _ (by decide),
      List.rdropWhile_eq_self_iff]
    intro hnot
    have hpath := Utf8.decode_ne_nil w.toplevel_ne
    rw [List.getLast_append_of_ne_nil hnot (List.cons_ne_nil _ _), List.getLast_cons hpath,
      h.last _ (List.getLast?_eq_getLast_of_ne_nil hpath)]
    exact Bool.false_ne_true
  rw [htrim, List.splitOn_append_cons_self, List.splitOn_eq_singleton hhexFree,
    List.splitOn_eq_singleton h.newline]
  rfl

/-! ### The key -/

section Keys

variable {restore : Restore} {sha256 : List UInt8 → List UInt8} {c c' : ContentCall restore}

/-- **What a call with a key has read**: the lines of its untracked entries, and the parts. -/
structure Keyed (sha256 : List UInt8 → List UInt8) (c : ContentCall restore) (k : JsString)
    (lines : List (JsString × JsString)) : Prop where
  names : lines.map Prod.fst = sortedNames c.worktree.untracked
  items : ∀ line ∈ lines, ∃ item, c.worktree.disk.lstatSync line.1 = some item ∧
    lineTail sha256 item = some line.2
  key : k = digest sha256 (
    [encodeUtf8 (js "lane-result-cache/1"), encodeUtf8 c.key, encodeUtf8 c.cmdFingerprint,
      encodeUtf8 (hexText c.worktree.headTree), c.worktree.diff, encodeUtf8 (linesText lines)] ++
    c.identity.toList.map encodeUtf8)

/-- Where its path is read back, the worktree itself is looked at. -/
theorem computeContentKey_eq (hc : Printable c.worktree.toplevel) :
    computeContentKey sha256 c =
      if c.key = [] ∨ c.cmdFingerprint = [] then none
      else if c.worktree.gitmodules ∨ c.worktree.flagged then none
      else (untrackedFingerprint sha256 c.worktree.untracked c.worktree.disk).map fun untracked =>
        digest sha256 (
          [encodeUtf8 (js "lane-result-cache/1"), encodeUtf8 c.key, encodeUtf8 c.cmdFingerprint,
            encodeUtf8 (hexText c.worktree.headTree), c.worktree.diff, encodeUtf8 untracked] ++
          c.identity.toList.map encodeUtf8) := by
  have hview : c.viewAt (decodeUtf8 c.worktree.toplevel) = some c.worktree.toView :=
    if_pos ((Utf8.encode_decode_iff _).2 hc.valid)
  rw [computeContentKey, splitOn_trim_revParse hc]
  simp only [hexText_ne_nil c.worktree.headTree_ne, Utf8.decode_ne_nil c.worktree.toplevel_ne,
    or_self, if_false, hview]
  cases untrackedFingerprint sha256 c.worktree.untracked c.worktree.disk <;> rfl

theorem computeContentKey_keyed {k : JsString} (hc : Legible c)
    (h : computeContentKey sha256 c = some k) : ∃ lines, Keyed sha256 c k lines := by
  rw [computeContentKey_eq hc.toplevel] at h
  split_ifs at h
  obtain ⟨untracked, hun, hdigest⟩ := Option.map_eq_some_iff.1 h
  unfold untrackedFingerprint at hun
  split_ifs at hun
  obtain ⟨lines, hlines, rfl⟩ := Option.map_eq_some_iff.1 hun
  obtain ⟨hnames, hitems⟩ := fingerprintLines_spec hlines
  exact ⟨lines, hnames, hitems, hdigest.symm⟩

theorem mem_sortedNames {listing : Listing} {rel : JsString} :
    rel ∈ sortedNames listing ↔ ∃ name ∈ listing.names, decodeUtf8 name = rel := by
  rw [sortedNames, List.mem_mergeSort, Stream.parsePathList_text, List.mem_map]

/-- A line is that of an untracked entry, found under its own name. -/
theorem Keyed.hasUntracked {k : JsString} {lines : List (JsString × JsString)}
    (h : Keyed sha256 c k lines) (hc : Legible c) {line : JsString × JsString}
    (hline : line ∈ lines) : ∃ name item, decodeUtf8 name = line.1 ∧
      c.worktree.HasUntracked name item ∧ lineTail sha256 item = some line.2 := by
  have hmem : line.1 ∈ sortedNames c.worktree.untracked := by
    rw [← h.names]
    exact List.mem_map_of_mem hline
  obtain ⟨name, hname, hdecode⟩ := mem_sortedNames.1 hmem
  obtain ⟨item, hitem, htail⟩ := h.items line hline
  refine ⟨name, item, hdecode, ⟨hname, ?_⟩, htail⟩
  rw [← hdecode, Disk.lstatSync, (Utf8.encode_decode_iff name).2 (hc.names name hname)] at hitem
  split_ifs at hitem
  exact hitem

/-- An untracked entry has its line. -/
theorem Keyed.exists_line {k : JsString} {lines : List (JsString × JsString)}
    (h : Keyed sha256 c k lines) (hc : Legible c) {name : List UInt8} {item : Item}
    (hun : c.worktree.HasUntracked name item) :
    ∃ line ∈ lines, line.1 = decodeUtf8 name ∧ lineTail sha256 item = some line.2 := by
  have hmem : decodeUtf8 name ∈ lines.map Prod.fst := by
    rw [h.names]
    exact mem_sortedNames.2 ⟨name, hun.1, rfl⟩
  obtain ⟨line, hline, hfst⟩ := List.mem_map.1 hmem
  obtain ⟨name', item', hdecode, hun', htail⟩ := h.hasUntracked hc hline
  obtain rfl : name' = name := Utf8.decode_inj (hc.names _ hun'.1) (hc.names _ hun.1)
    (hdecode.trans hfst)
  obtain rfl : item' = item := Option.some.inj (hun'.2.symm.trans hun.2)
  exact ⟨line, hline, hfst, htail⟩

theorem Keyed.plain {k : JsString} {lines : List (JsString × JsString)}
    (h : Keyed sha256 c k lines) (hc : Legible c) :
    (∀ line ∈ lines, 0 ∉ line.1 ∧ 0x0a ∉ line.2) ∧ Utf8.WellFormed (linesText lines) := by
  constructor
  · intro line hline
    obtain ⟨name, item, hdecode, hun, htail⟩ := h.hasUntracked hc hline
    refine ⟨?_, newline_not_mem_lineTail (fun target ht => ?_) htail⟩
    · rw [← hdecode]
      exact Utf8.zero_not_mem_decode (c.worktree.untracked.no_nul name hun.1)
    · rw [ht] at hun
      exact (hc.targets name target hun).2
  · refine wellFormed_linesText fun line hline => ?_
    obtain ⟨name, item, hdecode, -, htail⟩ := h.hasUntracked hc hline
    exact ⟨hdecode ▸ Utf8.wellFormed_decode name, wellFormed_lineTail htail⟩

/-- With the same lines, what is untracked in one worktree is untracked in the other. -/
theorem Keyed.untracked_of_lines {k k' : JsString} {lines : List (JsString × JsString)}
    (hsha : Function.Injective sha256) (h : Keyed sha256 c k lines) (h' : Keyed sha256 c' k' lines)
    (hc : Legible c) (hc' : Legible c') {name : List UInt8} {item : Item}
    (hun : c.worktree.HasUntracked name item) : c'.worktree.HasUntracked name item := by
  obtain ⟨line, hline, hfst, htail⟩ := h.exists_line hc hun
  obtain ⟨name', item', hdecode, hun', htail'⟩ := h'.hasUntracked hc' hline
  obtain rfl : name' = name := Utf8.decode_inj (hc'.names _ hun'.1) (hc.names _ hun.1)
    (hdecode.trans hfst)
  obtain rfl : item' = item := lineTail_inj hsha
    (fun target ht => (hc'.targets name' target (ht ▸ hun')).1)
    (fun target ht => (hc.targets name' target (ht ▸ hun)).1) htail' htail
  exact hun'

/-- **Two legible calls with one key belong to the same tree and command.** -/
theorem sameContent_of_key (hsha : Function.Injective sha256) (hc : Legible c) (hc' : Legible c')
    {k : JsString} (hk : computeContentKey sha256 c = some k)
    (hk' : computeContentKey sha256 c' = some k) : SameContent c c' := by
  obtain ⟨lines, h⟩ := computeContentKey_keyed hc hk
  obtain ⟨lines', h'⟩ := computeContentKey_keyed hc' hk'
  have hparts := digest_inj hsha (h.key.symm.trans h'.key)
  simp only [List.cons_append, List.nil_append, List.cons.injEq, true_and] at hparts
  obtain ⟨hkey, hfingerprint, htree, hdiff, htext, hidentity⟩ := hparts
  have hstring : ∀ {s s' : JsString}, s ∈ c.texts → s' ∈ c'.texts →
      encodeUtf8 s = encodeUtf8 s' → s = s' :=
    fun hs hs' he => Utf8.encode_inj (hc.texts _ hs) (hc'.texts _ hs') he
  have hlines : lines = lines' := linesText_inj (h.plain hc).1 (h'.plain hc').1
    (Utf8.encode_inj (h.plain hc).2 (h'.plain hc').2 htext)
  subst hlines
  have hheadTree := hexText_inj
    (Utf8.encode_inj (wellFormed_hexText _) (wellFormed_hexText _) htree)
  refine ⟨hstring (by simp [ContentCall.texts]) (by simp [ContentCall.texts]) hkey,
    hstring (by simp [ContentCall.texts]) (by simp [ContentCall.texts]) hfingerprint, ?_, ?_,
    fun name item => ⟨h.untracked_of_lines hsha h' hc hc', h'.untracked_of_lines hsha h hc' hc⟩⟩
  · cases hid : c.identity with
    | none =>
      cases hid' : c'.identity with
      | none => rfl
      | some s' => simp [hid, hid'] at hidentity
    | some s =>
      cases hid' : c'.identity with
      | none => simp [hid, hid'] at hidentity
      | some s' =>
        simp only [hid, hid', Option.toList_some, List.map_cons, List.map_nil, List.cons.injEq,
          and_true] at hidentity
        rw [hstring (by simp [ContentCall.texts, hid]) (by simp [ContentCall.texts, hid'])
          hidentity]
  · funext name
    rw [← hc.map_stored, ← hc'.map_stored, c.worktree.reported, c'.worktree.reported, hheadTree,
      hdiff]

end Keys

/-! ### A result that is used again -/

theorem newestRow_key {rows : List HistoryRow} {k : JsString} {now : Int} {row : HistoryRow}
    (h : newestRow rows k now = some row) : row.contentKey = some k := by
  have hcandidate : ∀ r ∈ rows.filter fun r => isNewestRowCandidate r k now,
      r.contentKey = some k := by
    intro r hr
    have := (List.mem_filter.1 hr).2
    simp only [isNewestRowCandidate, Bool.and_eq_true, decide_eq_true_eq] at this
    exact this.1.1.1.1
  suffices hkept : ∀ r ∈ newestRow rows k now, r.contentKey = some k from hkept row h
  -- What has been kept so far is a candidate.
  unfold newestRow
  refine List.foldlRecOn
    (motive := fun newest : Option HistoryRow => ∀ r ∈ newest, r.contentKey = some k) _ _ ?_
      fun newest hnewest row' hrow r hr => ?_
  · intro r hr
    cases hr
  · split at hr
    · obtain rfl := Option.some.inj hr
      exact hcandidate _ hrow
    · split_ifs at hr
      · obtain rfl := Option.some.inj hr
        exact hcandidate _ hrow
      · exact hnewest r hr

/-- A row that is served or refused was recorded under the key. -/
theorem decideReuse_key {rows : List HistoryRow} {k : JsString} {row : HistoryRow}
    {now passTtlMs redTtlMs : Int}
    (h : decideReuse rows k now passTtlMs redTtlMs = .serve row ∨
      decideReuse rows k now passTtlMs redTtlMs = .refuse row) : row.contentKey = some k := by
  unfold decideReuse at h
  split at h
  · rcases h with h | h <;> cases h
  · rename_i newest hnewest
    dsimp only at h
    have hkey := newestRow_key hnewest
    split_ifs at h
    · rcases h with h | h <;> cases h
      exact hkey
    · rcases h with h | h <;> cases h
      exact hkey
    · rcases h with h | h <;> cases h

/-- A call in a worktree of which nothing but two untracked links is known. -/
def linksCall (name target name' target' : String) (nonempty : ∀ n ∈ [js name, js name'],
    encodeUtf8 n ≠ []) (no_nul : ∀ n ∈ [js name, js name'], 0 ∉ encodeUtf8 n) :
    ContentCall fun _ _ _ => none where
  worktree :=
    { tracked := fun _ => none
      stored := fun _ item => item
      headTree := [0x4b, 0x82, 0x5d, 0xc6, 0x42, 0xcb, 0x6e, 0xb9, 0xa0, 0x60, 0xe5, 0x4b, 0xf8,
        0xd6, 0x92, 0x88, 0xfb, 0xee, 0x49, 0x04]
      headTree_ne := by decide
      toplevel := encodeUtf8 (js "/srv/app")
      toplevel_ne := by decide +kernel
      diff := []
      reported := fun _ => rfl
      untracked :=
        { names := [js name, js name'].map encodeUtf8
          nonempty := by simpa using nonempty
          no_nul := by simpa using no_nul }
      disk :=
        { item := fun n =>
            if n = encodeUtf8 (js name) then some (.link (encodeUtf8 (js target)))
            else if n = encodeUtf8 (js name') then some (.link (encodeUtf8 (js target')))
            else none } }
  key := js "unit"
  cmdFingerprint := js "npm test"

/-- Links to `t`, a newline and `b`, and to `u`. -/
def newlineInTarget : ContentCall fun _ _ _ => none :=
  linksCall "a" "t\nb" "c" "u" (by decide) (by decide)

/-- Links to `t` and to `u`, of which the second has a newline in its name. -/
def newlineInName : ContentCall fun _ _ _ => none :=
  linksCall "a" "t" "b\nc" "u" (by decide) (by decide)

/-- The same links, listed the other way round. -/
def newlineInNameFirst : ContentCall fun _ _ _ => none :=
  linksCall "b\nc" "u" "a" "t" (by decide) (by decide)

theorem linksCall_target {name target name' target' : String} {nonempty no_nul}
    {n t : List UInt8}
    (h : (linksCall name target name' target' nonempty no_nul).worktree.HasUntracked n (.link t)) :
    t = encodeUtf8 (js target) ∨ t = encodeUtf8 (js target') := by
  have hitem := h.2
  simp only [linksCall] at hitem
  split_ifs at hitem
  · exact .inl (Item.link.inj (Option.some.inj hitem)).symm
  · exact .inr (Item.link.inj (Option.some.inj hitem)).symm

theorem printable_app : Printable (encodeUtf8 (js "/srv/app")) where
  valid := Utf8.valid_encode _
  newline := by
    rw [Utf8.decode_encode (by decide +kernel)]
    decide
  last := by
    have hlast : (js "/srv/app").getLast? = some 0x70 := by decide
    rw [Utf8.decode_encode (by decide +kernel), hlast]
    rintro u ⟨⟩
    decide

theorem legible_newlineInName : Legible newlineInName where
  toplevel := printable_app
  stored := nofun
  texts := by decide +kernel
  names := by decide +kernel
  targets := by
    intro name target h
    rcases linksCall_target h with rfl | rfl <;> decide +kernel

theorem legible_newlineInNameFirst : Legible newlineInNameFirst where
  toplevel := printable_app
  stored := nofun
  texts := by decide +kernel
  names := by decide +kernel
  targets := by
    intro name target h
    rcases linksCall_target h with rfl | rfl <;> decide +kernel

/-- Names that stand in the order of their bytes. -/
theorem sortedNames_of_sorted {listing : Listing}
    (h : (listing.names.map decodeUtf8).Pairwise fun a b => comparePaths a b = true) :
    sortedNames listing = listing.names.map decodeUtf8 := by
  rw [sortedNames, Stream.parsePathList_text]
  exact List.mergeSort_of_pairwise h

end Caches
end LaneBroker
