/-
# The restored tree

What publishing, copying and relocating make of each entry of an installed tree
(`restore_ok`), why nothing fails when the paths are unchanged (`restore_unchanged`), and when
the restored tree is the one it is to be (`relocates_iff`).
-/

import LaneBroker.Caches.Relocated

namespace LaneBroker
namespace Caches
namespace DepsStore

open LaneBroker.Basis

/-! ### One entry after another -/

/-- A node as it is stored. -/
def storedNode (record : Relocation) (rel : Rel) : Node → Node
  | .dir mode => .dir (mode &&& 0o7555)
  | .symlink target =>
    .symlink (readlinkSync (templated record (rel, .symlink) anchoredOccurrence
      (readlinkSync target)))
  | .file mode content =>
    .file (mode &&& 0o7555) (templated record (rel, .text) strictOccurrence content)
  | .other => .other

/-- An entry as it is stored. -/
def storedEntry (record : Relocation) (e : Entry) : Entry :=
  ⟨e.path, storedNode record e.path e.node⟩

/-- A stored node as it is copied. -/
def copiedNode : Node → Node
  | .dir mode => .dir (mode ||| 0o200)
  | .symlink target => .symlink (readlinkSync (readlinkSync target))
  | .file mode content => .file (mode ||| 0o200) content
  | .other => .other

/-- A stored entry as it is copied. -/
def copiedEntry (e : Entry) : Entry := ⟨e.path, copiedNode e.node⟩

/-- An entry after the loop of `relocateRestoredTree` over some paths. -/
def afterLoop (pairs : List Pair) (paths : List Rel) (e : Entry) : Entry :=
  if e.path ∈ paths then ⟨e.path, relocateNode pairs e.node⟩ else e

theorem template_ok {record : Relocation} {text out : List UInt8} {rel : Rel}
    {accept : List UInt8 → Nat → Nat → Bool}
    (h : template record text rel accept = .ok out) :
    out = (rewritePrefixes text (placeholderPairs record) accept).getD [] := by
  unfold template at h
  split at h
  · cases h
  · rename_i rewritten hrewritten
    rw [hrewritten, ← Except.ok.inj h]
    rfl

theorem cloneEntry_hooksFor {record : Relocation} {e x : Entry}
    (h : cloneEntry (hooksFor record) e = .ok x) :
    x = storedEntry record e ∧ e.node ≠ .other := by
  obtain ⟨path, node⟩ := e
  cases node with
  | dir mode => exact ⟨(Except.ok.inj h).symm, nofun⟩
  | other => cases h
  | symlink target =>
    refine ⟨?_, nofun⟩
    obtain ⟨text, htext, rfl⟩ := Results.map_ok h
    simp only [hooksFor] at htext
    simp only [storedEntry, storedNode, templated]
    split_ifs at htext with hrecorded
    · rw [if_pos hrecorded, template_ok htext]
    · rw [if_neg hrecorded, Except.ok.inj htext]
  | file mode content =>
    refine ⟨?_, nofun⟩
    obtain ⟨node, hnode, rfl⟩ := Results.map_ok h
    simp only [hooksFor] at hnode
    simp only [storedEntry, storedNode, templated]
    split_ifs at hnode with hrecorded
    · obtain ⟨out, hout, rfl⟩ := Results.map_ok hnode
      rw [if_pos hrecorded, template_ok hout]
    · rw [if_neg hrecorded, ← Except.ok.inj hnode]

/-- **What is published**: every entry stored, and every recorded one with a placeholder. -/
theorem publish_ok {i : Installed} {record : Relocation} {stored : List Entry}
    (h : publishToStore i record = .ok stored) :
    stored = i.layout.map (storedEntry record) ∧ (∀ e ∈ i.layout, e.node ≠ .other) ∧
      ∀ entry ∈ record.entries, ∃ content, readEntry stored entry = .ok content ∧
        includes content (tokenTail record.nonce) = true := by
  unfold publishToStore at h
  obtain ⟨⟨⟩, -, h⟩ := Results.bind_ok h
  obtain ⟨copy, hcopy, h⟩ := Results.bind_ok h
  obtain ⟨⟨⟩, hverify, h⟩ := Results.bind_ok h
  obtain rfl := Except.ok.inj h
  obtain ⟨hmap, hall⟩ := Results.mapM_ok (fun e x hx => (cloneEntry_hooksFor hx).1) hcopy
  refine ⟨hmap, fun e he => (cloneEntry_hooksFor (hall e he)).2, fun entry hentry => ?_⟩
  unfold verifyTemplatedCopy at hverify
  obtain ⟨⟨⟩, hentries, -⟩ := Results.bind_ok hverify
  have hone := Results.forM_ok_iff.1 hentries entry hentry
  unfold verifyEntry at hone
  obtain ⟨content, hread, hone⟩ := Results.bind_ok hone
  refine ⟨content, hread, ?_⟩
  by_contra hnone
  rw [Bool.not_eq_true] at hnone
  simp only [hnone, if_true] at hone
  cases hone

theorem materializeFromStore_eq {stored : List Entry} (h : ∀ e ∈ stored, e.node ≠ .other) :
    materializeFromStore stored = .ok (stored.map copiedEntry) := by
  refine Results.mapM_eq_ok fun e he => ?_
  obtain ⟨path, node⟩ := e
  cases node with
  | dir mode => rfl
  | symlink target => rfl
  | file mode content => rfl
  | other => exact absurd rfl (h _ he)

/-! ### The loop over the recorded entries -/

theorem find?_map_path {f : Entry → Entry} (hf : ∀ e, (f e).path = e.path) (tree : List Entry)
    (p : Rel) :
    ((tree.map f).find? fun e => e.path = p) = (tree.find? fun e => e.path = p).map f := by
  rw [List.find?_map]
  congr 2
  funext e
  simp [hf]

theorem path_afterLoop (pairs : List Pair) (paths : List Rel) (e : Entry) :
    (afterLoop pairs paths e).path = e.path := by
  unfold afterLoop
  split_ifs <;> rfl

/-- An entry that is not done is read as it was. -/
theorem readEntry_afterLoop {pairs : List Pair} {paths : List Rel} {tree : List Entry}
    {entry : Rel × Kind} (h : entry.1 ∉ paths) :
    readEntry (tree.map (afterLoop pairs paths)) entry = readEntry tree entry := by
  unfold readEntry
  rw [find?_map_path (path_afterLoop pairs paths)]
  cases hfind : tree.find? fun e => e.path = entry.1 with
  | none => rfl
  | some e =>
    have hpath : e.path = entry.1 := by simpa using List.find?_some hfind
    rw [Option.map_some, afterLoop, if_neg (hpath ▸ h)]

/-- One round of the loop. -/
theorem afterLoop_step (pairs : List Pair) {paths : List Rel} {p : Rel} (hp : p ∉ paths)
    (tree : List Entry) :
    ((tree.map (afterLoop pairs paths)).map fun e =>
      if e.path = p then ⟨e.path, relocateNode pairs e.node⟩ else e) =
        tree.map (afterLoop pairs (paths ++ [p])) := by
  rw [List.map_map]
  refine List.map_congr_left fun e _ => ?_
  simp only [Function.comp, path_afterLoop]
  unfold afterLoop
  by_cases heq : e.path = p
  · rw [if_pos heq, if_neg (heq ▸ hp), if_pos (by simp [heq])]
  · rw [if_neg heq]
    by_cases hmem : e.path ∈ paths
    · rw [if_pos hmem, if_pos (by simp [hmem])]
    · rw [if_neg hmem, if_neg (by simp [hmem, heq])]

section loop

variable {nonce : Nonce} {pairs : List Pair} {tree : List Entry} {entries : List (Rel × Kind)}

theorem not_mem_done (hnodup : (entries.map Prod.fst).Nodup) {done rest : List (Rel × Kind)}
    {entry : Rel × Kind} (h : entries = done ++ entry :: rest) :
    entry.1 ∉ done.map Prod.fst := by
  rw [h, List.map_append, List.map_cons, List.nodup_append] at hnodup
  exact fun hmem => hnodup.2.2 _ hmem _ List.mem_cons_self rfl

/-- **What the loop makes of the tree.** -/
theorem loop_ok (hnodup : (entries.map Prod.fst).Nodup) {restored : List Entry}
    (h : entries.foldlM (relocateEntry nonce pairs) tree = .ok restored) :
    restored = tree.map (afterLoop pairs (entries.map Prod.fst)) := by
  refine Results.foldlM_ok
    (I := fun done s => s = tree.map (afterLoop pairs (done.map Prod.fst))) ?_ ?_ h
  · exact (List.map_congr_left (fun e _ => if_neg (by simp))).trans (List.map_id _) |>.symm
  · rintro done entry rest s s' hentries rfl hstep
    unfold relocateEntry at hstep
    obtain ⟨content, -, hstep⟩ := Results.bind_ok hstep
    dsimp only at hstep
    split_ifs at hstep
    · cases hstep
    rw [← Except.ok.inj hstep, List.map_append, List.map_singleton,
      ← afterLoop_step pairs (not_mem_done hnodup hentries)]

/-- **The loop ends well** where every recorded entry has a placeholder. -/
theorem exists_loop_ok (hnodup : (entries.map Prod.fst).Nodup)
    (h : ∀ entry ∈ entries, ∃ content, readEntry tree entry = .ok content ∧
      includes content (tokenTail nonce) = true) :
    entries.foldlM (relocateEntry nonce pairs) tree =
      .ok (tree.map (afterLoop pairs (entries.map Prod.fst))) := by
  obtain ⟨restored, hrestored, -⟩ : ∃ restored,
      entries.foldlM (relocateEntry nonce pairs) tree = .ok restored ∧
        restored = tree.map (afterLoop pairs (entries.map Prod.fst)) := Results.exists_foldlM_ok
    (I := fun done s => s = tree.map (afterLoop pairs (done.map Prod.fst)))
    ((List.map_congr_left (fun e _ => if_neg (by simp))).trans (List.map_id _) |>.symm)
    (by
      rintro done entry rest s hentries rfl
      obtain ⟨content, hread, htail⟩ := h entry (by rw [hentries]; simp)
      have hfresh := not_mem_done hnodup hentries
      refine ⟨_, ?_, rfl⟩
      rw [List.map_append, List.map_singleton, ← afterLoop_step pairs hfresh, relocateEntry,
        readEntry_afterLoop hfresh, hread]
      simp [bind, Except.bind, htail, pure, Except.pure])
  rw [hrestored, loop_ok hnodup hrestored]

end loop

/-! ### The restored entry -/

/-- A node with its text rewritten, as it is written. -/
def writtenNode (rewrite : List UInt8 → List UInt8) : Node → Node
  | .dir mode => .dir (mode &&& 0o7555 ||| 0o200)
  | .symlink target => .symlink (rewrite (readlinkSync target))
  | .file mode content => .file (mode &&& 0o7555 ||| 0o200) (rewrite content)
  | .other => .other

/-- An entry with its text rewritten, as it is written. -/
def writtenEntry (rewrite : List UInt8 → List UInt8) (e : Entry) : Entry :=
  ⟨e.path, writtenNode rewrite e.node⟩

section restored

variable {i : Installed} {roles : List (Role × InstallPath)} {record : Relocation} {scan : Scan}
  (hv : Vouched i roles record) (hroles : (roles.map Prod.fst).Nodup)
  (hentries : record.entries = scan.entries)
  (hscan : ∀ g ∈ groupsOf roles, g.path ∈ scan.found → g ∈ record.prefixes)

include hentries in
/-- A text that was not recorded names no old path. -/
theorem unnamed_of_unrecorded {accept : List UInt8 → Nat → Nat → Bool} {entry : Rel × Kind}
    {text : List UInt8} (hs : Sound (groupsOf roles) record.nonce scan accept entry text)
    (h : entry ∉ record.entries) : ∀ g ∈ groupsOf roles, ¬ g.path.bytes <:+: text :=
  hs.recorded.resolve_right fun hmem => h (hentries ▸ hmem)

include hv hroles hentries hscan in
/-- **What becomes of an entry**: its text is relocated, recorded or not. -/
theorem afterLoop_eq {e : Entry} (hlooked : Looked (groupsOf roles) record.nonce scan e)
    (newPaths : Role → Option PathText) :
    afterLoop (restorePairs record newPaths) (record.entries.map Prod.fst)
        (copiedEntry (storedEntry record e)) =
      writtenEntry (relocated roles newPaths) e := by
  obtain ⟨path, node⟩ := e
  have hunrecorded : path ∉ record.entries.map Prod.fst → ∀ kind : Kind,
      (path, kind) ∉ record.entries := fun h kind hmem => h (List.mem_map.2 ⟨_, hmem, rfl⟩)
  cases node with
  | dir mode | other =>
    unfold afterLoop
    split_ifs <;> rfl
  | file mode content =>
    have hs : Sound (groupsOf roles) record.nonce scan strictOccurrence (path, .text) content :=
      hlooked
    have hstored := templated_eq hv hentries hscan hs
    simp only [storedEntry, storedNode, copiedEntry, copiedNode, writtenEntry, writtenNode]
    unfold afterLoop
    dsimp only
    split_ifs with hpath
    · rw [hstored, relocateNode, rewritten_back hv hroles hscan hs hs.accepted newPaths]
      rfl
    · have hnot := hunrecorded hpath .text
      rw [relocated_of_unnamed (unnamed_of_unrecorded hentries hs hnot), templated,
        if_neg (by simpa using hnot)]
  | symlink target =>
    have hs : Sound (groupsOf roles) record.nonce scan anchoredOccurrence (path, .symlink)
      (readlinkSync target) := hlooked
    have hstored := templated_eq hv hentries hscan hs
    have hvalid := valid_readlinkSync target
    have hkept := readlinkSync_of_valid (valid_withPlaceholders hv hscan hs hvalid)
    have hback := readlinkSync_of_valid (valid_relocated hv hscan hs hvalid newPaths)
    simp only [storedEntry, storedNode, copiedEntry, copiedNode, writtenEntry, writtenNode]
    unfold afterLoop
    dsimp only
    rw [hstored, hkept, hkept, hkept]
    split_ifs with hpath
    · rw [relocateNode, hkept, rewritten_back hv hroles hscan hs
        (accepted_strict_of_anchored hs.accepted) newPaths, Option.getD_some, hback]
    · have hnot := hunrecorded hpath .symlink
      rw [relocated_of_unnamed (unnamed_of_unrecorded hentries hs hnot), ← hstored, templated,
        if_neg (by simpa using hnot)]

/-- The mode that is written has the bits of the installed one but for the write bits. -/
theorem unwritten_mode (mode : Nat) : (mode &&& 0o7555 ||| 0o200) &&& 0o7555 = mode &&& 0o7555 := by
  rw [Nat.and_or_distrib_right, Nat.and_assoc, Nat.and_self]
  simp

include hentries in
/-- Up to write bits, what is written is the entry relocated, with its link read as a string. -/
theorem unwritten_writtenEntry {e : Entry}
    (hlooked : Looked (groupsOf roles) record.nonce scan e)
    (htarget : ∀ target, e.node = .symlink target → readlinkSync target = target)
    (newPaths : Role → Option PathText) :
    (writtenEntry (relocated roles newPaths) e).unwritten =
      (relocatedEntry record (relocated roles newPaths) e).unwritten := by
  obtain ⟨path, node⟩ := e
  cases node with
  | dir mode =>
    simp only [writtenEntry, writtenNode, relocatedEntry, Entry.unwritten, Node.unwritten,
      unwritten_mode]
  | other => rfl
  | file mode content =>
    have hs : Sound (groupsOf roles) record.nonce scan strictOccurrence (path, .text) content :=
      hlooked
    simp only [writtenEntry, writtenNode, relocatedEntry, Entry.unwritten, Node.unwritten,
      unwritten_mode]
    split_ifs with hrecorded
    · rfl
    · rw [relocated_of_unnamed (unnamed_of_unrecorded hentries hs (by simpa using hrecorded))]
  | symlink target =>
    have hs : Sound (groupsOf roles) record.nonce scan anchoredOccurrence (path, .symlink)
      (readlinkSync target) := hlooked
    rw [htarget target rfl] at hs
    simp only [writtenEntry, writtenNode, relocatedEntry, Entry.unwritten, Node.unwritten,
      htarget target rfl]
    split_ifs with hrecorded
    · rfl
    · rw [relocated_of_unnamed (unnamed_of_unrecorded hentries hs (by simpa using hrecorded))]

end restored

/-! ### The whole tree -/

section whole

variable {i : Installed} {roles : List (Role × InstallPath)} {record : Relocation}
  {stored : List Entry} (hv : Vouched i roles record) (hroles : (roles.map Prod.fst).Nodup)
  (hpublish : publishToStore i record = .ok stored)

include hv hroles hpublish in
/-- What the copy is after the loop over the recorded entries. -/
theorem copy_after_loop (newPaths : Role → Option PathText) :
    (stored.map copiedEntry).map
        (afterLoop (restorePairs record newPaths) (record.entries.map Prod.fst)) =
      i.layout.map (writtenEntry (relocated roles newPaths)) := by
  obtain ⟨scan, hsurveyed, hentries, hscan⟩ := hv.scan
  rw [(publish_ok hpublish).1, List.map_map, List.map_map]
  exact List.map_congr_left fun e he =>
    afterLoop_eq hv hroles hentries hscan (hsurveyed.looked e he) newPaths

include hpublish in
theorem materialize_stored :
    materializeFromStore stored = .ok (stored.map copiedEntry) := by
  obtain ⟨hstored, hnode, -⟩ := publish_ok hpublish
  refine materializeFromStore_eq fun e he => ?_
  rw [hstored] at he
  obtain ⟨e, hmem, rfl⟩ := List.mem_map.1 he
  have := hnode e hmem
  obtain ⟨path, node⟩ := e
  cases node with
  | other => exact absurd rfl this
  | dir mode => exact nofun
  | symlink target => exact nofun
  | file mode content => exact nofun

include hv in
theorem nodup_entries : (record.entries.map Prod.fst).Nodup := by
  obtain ⟨scan, hsurveyed, hentries, -⟩ := hv.scan
  rw [hentries]
  exact hsurveyed.once.nodup (nodup_placed hsurveyed.unstashed)

/-- What the last search of `relocateRestoredTree` finds. -/
def leftover (restored : List Entry) (record : Relocation) (needles : List (List UInt8))
    (scanRoot : Option (List Entry)) : Option Rel :=
  match scanRoot with
  | some stored => (findNeedleInTree stored needles (record.entries.map Prod.fst)).or
      (findNeedleInEntries restored record.entries needles)
  | none => findNeedleInTree restored needles []

include hv hroles hpublish in
/-- **What is restored**, when nothing fails. -/
theorem restore_ok {newPaths : Role → Option PathText} {cloned : Bool} {restored : List Entry}
    (h : restore stored record newPaths cloned = .ok restored) :
    restored = i.layout.map (writtenEntry (relocated roles newPaths)) ∧
      leftover restored record (tokenTail record.nonce :: stale record.candidates newPaths)
        (if cloned then some stored else none) = none := by
  unfold restore at h
  rw [materialize_stored hpublish] at h
  change relocateRestoredTree (stored.map copiedEntry) record newPaths _ = .ok restored at h
  unfold relocateRestoredTree at h
  obtain ⟨pairs, hpairs, hloop⟩ := Results.bind_ok h
  clear h
  obtain ⟨rfl, -⟩ := Results.mapM_ok (fun g p hp => restorePair_ok hp) hpairs
  obtain ⟨tree, htree, h⟩ := Results.bind_ok hloop
  have htree' := loop_ok (nodup_entries hv) htree
  rw [show record.prefixes.map (restoredPair record.nonce newPaths) =
    restorePairs record newPaths from rfl, copy_after_loop hv hroles hpublish] at htree'
  dsimp only at h
  split at h
  · rename_i hnone
    obtain rfl := Except.ok.inj h
    exact ⟨htree', hnone⟩
  · cases h

/-! ### No placeholder is left -/

theorem not_infix_of_not_holds {e : Entry} {needles : List (List UInt8)}
    (hne : ∀ n ∈ needles, n ≠ []) (h : holds e needles = false) {text : List UInt8}
    (htext : e.node.text = some text)
    (htarget : ∀ target, e.node = .symlink target → readlinkSync target = target) :
    ∀ n ∈ needles, ¬ n <:+: text := by
  obtain ⟨path, node⟩ := e
  intro n hn hin
  cases node with
  | dir mode => cases htext
  | other => cases htext
  | file mode content =>
    obtain rfl := Option.some.inj htext
    have hcontains := (fileContains_iff hne).2 ⟨n, hn, hin⟩
    rw [show holds ⟨path, .file mode content⟩ needles = fileContains content needles from rfl,
      hcontains] at h
    cases h
  | symlink target =>
    obtain rfl := Option.some.inj htext
    have hany : needles.any (includes (readlinkSync target)) = true := by
      rw [htarget target rfl]
      exact List.any_eq_true.2 ⟨n, hn, includes_iff.2 hin⟩
    rw [show holds ⟨path, .symlink target⟩ needles =
      needles.any (includes (readlinkSync target)) from rfl, hany] at h
    cases h

theorem needles_ne_nil (record : Relocation) (newPaths : Role → Option PathText) :
    ∀ n ∈ tokenTail record.nonce :: stale record.candidates newPaths, n ≠ [] := by
  intro n hn
  rcases List.mem_cons.1 hn with rfl | hn
  · exact tokenTail_ne_nil _
  · obtain ⟨c, -, rfl⟩ := List.mem_map.1 hn
    exact c.given

include hv in
/-- What is written in a link is UTF-8. -/
theorem readlinkSync_written (newPaths : Role → Option PathText) :
    ∀ e ∈ i.layout, ∀ target, (writtenEntry (relocated roles newPaths) e).node = .symlink target →
      readlinkSync target = target := by
  obtain ⟨scan, hsurveyed, hentries, hscan⟩ := hv.scan
  intro e he target htarget
  have hlooked := hsurveyed.looked e he
  obtain ⟨path, node⟩ := e
  cases node with
  | dir mode => cases htarget
  | other => cases htarget
  | file mode content => cases htarget
  | symlink source =>
    obtain rfl := Node.symlink.inj htarget
    exact readlinkSync_of_valid
      (valid_relocated hv hscan hlooked (valid_readlinkSync source) newPaths)

/-- An entry with a text is no directory. -/
theorem isDir_of_text {rewrite : List UInt8 → List UInt8} {e : Entry} {text : List UInt8}
    (h : (writtenEntry rewrite e).node.text = some text) : e.node.isDir = false := by
  obtain ⟨path, node⟩ := e
  cases node with
  | dir mode => cases h
  | other => rfl
  | symlink target => rfl
  | file mode content => rfl

/-- What is read of an entry is its text. -/
theorem readEntry_eq {tree : List Entry} {e : Entry} {entry : Rel × Kind} {text : List UInt8}
    (hfind : (tree.find? fun d => d.path = entry.1) = some e) (htext : e.node.text = some text)
    (htarget : ∀ target, e.node = .symlink target → readlinkSync target = target)
    (hkind : ∀ content, e.node = .symlink content → entry.2 = .symlink)
    (hkind' : ∀ mode content, e.node = .file mode content → entry.2 = .text) :
    readEntry tree entry = .ok text := by
  obtain ⟨path, node⟩ := e
  obtain ⟨rel, kind⟩ := entry
  cases node with
  | dir mode => cases htext
  | other => cases htext
  | file mode content =>
    obtain rfl := Option.some.inj htext
    obtain rfl : kind = .text := hkind' mode content rfl
    simp only [readEntry, hfind]
  | symlink target =>
    obtain rfl := Option.some.inj htext
    obtain rfl : kind = .symlink := hkind target rfl
    simp only [readEntry, hfind, htarget target rfl]

include hv hpublish in
/-- **A recorded entry is read in the restored tree**, for it stands alone at its path. -/
theorem readEntry_written {e : Entry} (he : e ∈ i.layout) {kind : Kind}
    (hrecorded : (e.path, kind) ∈ record.entries) (newPaths : Role → Option PathText)
    {text : List UInt8}
    (htext : (writtenEntry (relocated roles newPaths) e).node.text = some text) :
    readEntry (i.layout.map (writtenEntry (relocated roles newPaths))) (e.path, kind) =
      .ok text := by
  obtain ⟨scan, hsurveyed, -, -⟩ := hv.scan
  obtain ⟨hstored, -, hread⟩ := publish_ok hpublish
  obtain ⟨content, hcontent, -⟩ := hread _ hrecorded
  unfold readEntry at hcontent
  rw [hstored, find?_map_path (f := storedEntry record) fun _ => rfl] at hcontent
  cases hfind : i.layout.find? fun d => d.path = e.path with
  | none =>
    rw [hfind] at hcontent
    cases hcontent
  | some d =>
    simp only [hfind, Option.map_some] at hcontent
    have hd := List.mem_of_find?_eq_some hfind
    have hdpath : d.path = e.path := by simpa using List.find?_some hfind
    have hdir : d.node.isDir = false := by
      obtain ⟨path, node⟩ := d
      cases node with
      | dir mode => simp [storedEntry, storedNode] at hcontent
      | other => rfl
      | symlink target => rfl
      | file mode content => rfl
    have hsame : d = e := List.inj_on_of_nodup_map (nodup_placed hsurveyed.unstashed)
      (mem_placed_of_layout hd hdir) (mem_placed_of_layout he (isDir_of_text htext)) hdpath
    subst hsame
    refine readEntry_eq (e := writtenEntry (relocated roles newPaths) d) ?_ htext
      (readlinkSync_written hv newPaths d hd) ?_ ?_
    · rw [find?_map_path (f := writtenEntry (relocated roles newPaths)) fun _ => rfl, hfind]
      rfl
    · intro target htarget
      obtain ⟨path, node⟩ := d
      cases node with
      | symlink source =>
        cases kind with
        | symlink => rfl
        | text => simp [storedEntry, storedNode] at hcontent
      | dir mode | other | file mode content => cases htarget
    · intro mode content htarget
      obtain ⟨path, node⟩ := d
      cases node with
      | file mode content =>
        cases kind with
        | text => rfl
        | symlink => simp [storedEntry, storedNode] at hcontent
      | dir mode | other | symlink source => cases htarget

include hv in
/-- What was not recorded is written as it was, and holds no placeholder. -/
theorem fresh_of_unrecorded {e : Entry} (he : e ∈ i.layout)
    (hpath : e.path ∉ record.entries.map Prod.fst) (newPaths : Role → Option PathText)
    {text : List UInt8}
    (htext : (writtenEntry (relocated roles newPaths) e).node.text = some text) :
    ¬ tokenTail record.nonce <:+: text := by
  obtain ⟨scan, hsurveyed, hentries, -⟩ := hv.scan
  have hlooked := hsurveyed.looked e he
  have hnot : ∀ kind : Kind, (e.path, kind) ∉ record.entries := fun kind hmem =>
    hpath (List.mem_map.2 ⟨_, hmem, rfl⟩)
  obtain ⟨path, node⟩ := e
  cases node with
  | dir mode => cases htext
  | other => cases htext
  | file mode content =>
    have hs : Sound (groupsOf roles) record.nonce scan strictOccurrence (path, .text) content :=
      hlooked
    obtain rfl := Option.some.inj htext
    rw [relocated_of_unnamed (unnamed_of_unrecorded hentries hs (hnot .text))]
    exact hs.fresh
  | symlink target =>
    have hs : Sound (groupsOf roles) record.nonce scan anchoredOccurrence (path, .symlink)
      (readlinkSync target) := hlooked
    obtain rfl := Option.some.inj htext
    rw [relocated_of_unnamed (unnamed_of_unrecorded hentries hs (hnot .symlink))]
    exact hs.fresh

include hv hroles hpublish in
/-- **No placeholder is left in what is restored.** -/
theorem no_placeholder {newPaths : Role → Option PathText} {cloned : Bool}
    {restored : List Entry} (h : restore stored record newPaths cloned = .ok restored) :
    ∀ e ∈ restored, ∀ text, e.node.text = some text → ¬ tokenTail record.nonce <:+: text := by
  obtain ⟨rfl, hleft⟩ := restore_ok hv hroles hpublish h
  intro e he text htext
  obtain ⟨e, hmem, rfl⟩ := List.mem_map.1 he
  cases cloned with
  | false =>
    have hnone : findNeedleInTree (i.layout.map (writtenEntry (relocated roles newPaths)))
        (tokenTail record.nonce :: stale record.candidates newPaths) [] = none := hleft
    rw [findNeedleInTree, Option.map_eq_none_iff, List.find?_eq_none] at hnone
    have hholds := hnone _ he
    rw [List.contains_nil, Bool.not_false, Bool.true_and, Bool.not_eq_true] at hholds
    exact not_infix_of_not_holds (needles_ne_nil record newPaths) hholds htext
      (readlinkSync_written hv newPaths e hmem) _ List.mem_cons_self
  | true =>
    by_cases hpath : e.path ∈ record.entries.map Prod.fst
    · obtain ⟨⟨rel, kind⟩, hrecorded, rfl⟩ := List.mem_map.1 hpath
      have hread := readEntry_written hv hpublish hmem hrecorded newPaths htext
      have hnone : findNeedleInEntries (i.layout.map (writtenEntry (relocated roles newPaths)))
          record.entries (tokenTail record.nonce :: stale record.candidates newPaths) = none :=
        (Option.or_eq_none_iff.1 hleft).2
      rw [findNeedleInEntries, Option.map_eq_none_iff, List.find?_eq_none] at hnone
      have hholds := hnone _ hrecorded
      simp only [hread] at hholds
      exact fun hin => hholds (List.any_eq_true.2 ⟨_, List.mem_cons_self, includes_iff.2 hin⟩)
    · exact fresh_of_unrecorded hv hmem hpath newPaths htext

/-! ### The paths unchanged -/

include hv hroles in
theorem stale_unchanged : stale record.candidates (unchanged roles) = [] := by
  have hgrouped := grouped_groupsOf roles
  rw [stale, List.map_eq_nil_iff, List.filter_eq_nil_iff]
  intro c hc
  rw [hv.candidates] at hc
  obtain ⟨g, hg, rfl⟩ := List.mem_map.1 hc
  obtain ⟨role, hrole⟩ := List.exists_mem_of_ne_nil _ (hgrouped.sharing g hg).2
  have hin := (mem_roles_iff hgrouped hg).1 hrole
  have hall : role ∈ allRoles := by cases role <;> decide
  rw [Bool.not_eq_true', Bool.not_eq_false, List.any_eq_true]
  refine ⟨g.path.toPathText, List.mem_filterMap.2 ⟨role, hall, ?_⟩, ?_⟩
  · exact unchanged_of_mem hroles hin
  · exact includes_iff.2 (List.infix_refl _)

include hv hroles in
theorem restorePairs_unchanged :
    record.prefixes.mapM (restorePair record.nonce (unchanged roles)) =
      .ok (restorePairs record (unchanged roles)) := by
  have hgrouped := grouped_groupsOf roles
  refine Results.mapM_eq_ok fun g hg => ?_
  have hmem := hv.prefixes.subset hg
  refine restorePair_eq (hgrouped.sharing g hmem).2 g.path.given fun role hrole => ?_
  exact unchanged_of_mem hroles ((mem_roles_iff hgrouped hmem).1 hrole)

include hv in
/-- No text that was looked at holds a placeholder. -/
theorem fresh_text {e : Entry} (he : e ∈ i.layout) (text : List UInt8)
    (htext : (writtenEntry id e).node.text = some text) : ¬ tokenTail record.nonce <:+: text := by
  obtain ⟨scan, hsurveyed, -, -⟩ := hv.scan
  have hlooked := hsurveyed.looked e he
  obtain ⟨path, node⟩ := e
  cases node with
  | dir mode => cases htext
  | other => cases htext
  | file mode content =>
    obtain rfl := Option.some.inj htext
    have hs : Sound (groupsOf roles) record.nonce scan strictOccurrence (path, .text) content :=
      hlooked
    exact hs.fresh
  | symlink target =>
    obtain rfl := Option.some.inj htext
    have hs : Sound (groupsOf roles) record.nonce scan anchoredOccurrence (path, .symlink)
      (readlinkSync target) := hlooked
    exact hs.fresh

/-- What holds a needle has a text that does. -/
theorem exists_text_of_holds {e : Entry} {n : List UInt8} (hne : n ≠ [])
    (h : holds e [n] = true) : ∃ text, n <:+: text ∧
      (e.node.text = some text ∨ ∃ target, e.node = .symlink target ∧ text = readlinkSync target) := by
  obtain ⟨path, node⟩ := e
  cases node with
  | dir mode => cases h
  | other => cases h
  | file mode content =>
    obtain ⟨m, hm, hin⟩ := (fileContains_iff (by simpa using hne)).1 h
    rw [List.mem_singleton.1 hm] at hin
    exact ⟨content, hin, .inl rfl⟩
  | symlink target =>
    obtain ⟨m, hm, hin⟩ := List.any_eq_true.1 h
    rw [List.mem_singleton.1 hm] at hin
    exact ⟨_, includes_iff.1 hin, .inr ⟨target, rfl, rfl⟩⟩

/-- What was read is the text of an entry, or the text of a link as a string. -/
theorem exists_of_readEntry {tree : List Entry} {entry : Rel × Kind} {content : List UInt8}
    (h : readEntry tree entry = .ok content) : ∃ e ∈ tree, e.path = entry.1 ∧
      (e.node.text = some content ∨
        ∃ target, e.node = .symlink target ∧ content = readlinkSync target) := by
  unfold readEntry at h
  cases hfind : tree.find? fun e => e.path = entry.1 with
  | none =>
    rw [hfind] at h
    cases h
  | some e =>
    have hpath : e.path = entry.1 := by simpa using List.find?_some hfind
    refine ⟨e, List.mem_of_find?_eq_some hfind, hpath, ?_⟩
    rw [hfind] at h
    dsimp only at h
    split at h
    · rename_i target _ hnode
      exact .inr ⟨target, hnode, (Except.ok.inj h).symm⟩
    · rename_i mode text _ hnode
      obtain rfl := Except.ok.inj h
      exact .inl (by rw [hnode]; rfl)
    · cases h

/-- A recorded entry is read in the copy as in the store. -/
theorem readEntry_copied {stored : List Entry} {entry : Rel × Kind} {content : List UInt8}
    (h : readEntry stored entry = .ok content) :
    readEntry (stored.map copiedEntry) entry = .ok content := by
  unfold readEntry at h ⊢
  rw [find?_map_path (f := copiedEntry) fun _ => rfl]
  cases hfind : stored.find? fun e => e.path = entry.1 with
  | none =>
    rw [hfind] at h
    cases h
  | some e =>
    obtain ⟨path, node⟩ := e
    obtain ⟨rel, kind⟩ := entry
    rw [hfind] at h
    simp only [Option.map_some, copiedEntry]
    cases node with
    | dir mode => cases kind <;> cases h
    | other => cases kind <;> cases h
    | file mode text =>
      cases kind with
      | text => exact h
      | symlink => cases h
    | symlink target =>
      cases kind with
      | text => cases h
      | symlink =>
        rw [← Except.ok.inj h]
        simp only [copiedNode, readlinkSync_of_valid (valid_readlinkSync _)]

include hv in
/-- **Nothing is left over when the paths are unchanged.** -/
theorem leftover_unchanged (scanRoot : Option (List Entry))
    (hscan : ∀ tree, scanRoot = some tree → tree = i.layout.map (storedEntry record)) :
    leftover (i.layout.map (writtenEntry id)) record [tokenTail record.nonce] scanRoot = none := by
  have hwritten : ∀ e ∈ i.layout.map (writtenEntry id), ∀ text,
      (e.node.text = some text ∨ ∃ target, e.node = .symlink target ∧ text = readlinkSync target) →
        ¬ tokenTail record.nonce <:+: text := by
    rintro e he text (htext | ⟨target, htarget, rfl⟩)
    · obtain ⟨e, hmem, rfl⟩ := List.mem_map.1 he
      exact fresh_text hv hmem text htext
    · obtain ⟨e, hmem, rfl⟩ := List.mem_map.1 he
      refine fresh_text hv hmem (readlinkSync target) ?_
      obtain ⟨path, node⟩ := e
      cases node with
      | symlink source =>
        obtain rfl := Node.symlink.inj htarget
        exact congrArg some (readlinkSync_of_valid (valid_readlinkSync source)).symm
      | dir mode | other | file mode content => cases htarget
  cases scanRoot with
  | none =>
    rw [leftover, findNeedleInTree, Option.map_eq_none_iff, List.find?_eq_none]
    intro e he hholds
    rw [List.contains_nil, Bool.not_false, Bool.true_and] at hholds
    obtain ⟨text, hin, htext⟩ := exists_text_of_holds (tokenTail_ne_nil _) hholds
    exact hwritten e he text htext hin
  | some tree =>
    obtain rfl := hscan tree rfl
    rw [leftover, Option.or_eq_none_iff]
    constructor
    · rw [findNeedleInTree, Option.map_eq_none_iff, List.find?_eq_none]
      intro e he hholds
      obtain ⟨e, hmem, rfl⟩ := List.mem_map.1 he
      rw [Bool.and_eq_true, Bool.not_eq_true', ← Bool.not_eq_true, List.contains_iff_mem] at hholds
      obtain ⟨hpath, hholds⟩ := hholds
      have hnot : ∀ kind : Kind, record.entries.contains (e.path, kind) ≠ true := fun kind hin =>
        hpath (List.mem_map.2 ⟨_, List.contains_iff_mem.1 hin, rfl⟩)
      have hfresh := fresh_text hv hmem
      obtain ⟨path, node⟩ := e
      obtain ⟨text, hin, htext⟩ := exists_text_of_holds (tokenTail_ne_nil _) hholds
      cases node with
      | dir mode | other =>
        rcases htext with htext | ⟨target, htarget, -⟩
        · cases htext
        · cases htarget
      | file mode content =>
        rcases htext with htext | ⟨target, htarget, -⟩
        · obtain rfl := Option.some.inj htext
          rw [templated, if_neg (hnot .text)] at hin
          exact hfresh content rfl hin
        · cases htarget
      | symlink target =>
        have hsame : readlinkSync (templated record (path, .symlink) anchoredOccurrence
            (readlinkSync target)) = readlinkSync target := by
          rw [templated, if_neg (hnot .symlink), readlinkSync_of_valid (valid_readlinkSync _)]
        rcases htext with htext | ⟨source, hsource, rfl⟩
        · obtain rfl := Option.some.inj htext
          rw [hsame] at hin
          exact hfresh _ rfl hin
        · obtain rfl := Node.symlink.inj hsource
          rw [hsame, readlinkSync_of_valid (valid_readlinkSync _)] at hin
          exact hfresh _ rfl hin
    · rw [findNeedleInEntries, Option.map_eq_none_iff, List.find?_eq_none]
      intro entry _ hholds
      split at hholds
      · rename_i content hread
        obtain ⟨e, he, -, htext⟩ := exists_of_readEntry hread
        rw [List.any_cons, List.any_nil, Bool.or_false, includes_iff] at hholds
        exact hwritten e he content htext hholds
      · cases hholds

include hv hroles hpublish in
/-- **With the paths unchanged nothing fails**, and every text comes back as Node read it. -/
theorem restore_unchanged (cloned : Bool) :
    restore stored record (unchanged roles) cloned = .ok (i.layout.map (writtenEntry id)) := by
  obtain ⟨hstored, -, hread⟩ := publish_ok hpublish
  have hid : relocated roles (unchanged roles) = id := funext (relocated_unchanged hroles)
  have hloop := @exists_loop_ok record.nonce (restorePairs record (unchanged roles)) _ _
    (nodup_entries hv) fun entry hentry => by
      obtain ⟨content, hcontent, htail⟩ := hread entry hentry
      exact ⟨content, readEntry_copied hcontent, htail⟩
  rw [copy_after_loop hv hroles hpublish, hid] at hloop
  have hleft := leftover_unchanged hv (if cloned then some stored else none) fun tree htree => by
    cases cloned with
    | true => rw [← Option.some.inj htree, hstored]
    | false => cases htree
  unfold restore
  rw [materialize_stored hpublish]
  change relocateRestoredTree (stored.map copiedEntry) record _ _ = _
  unfold relocateRestoredTree
  rw [restorePairs_unchanged hv hroles]
  change ((record.entries.foldlM (relocateEntry record.nonce (restorePairs record
    (unchanged roles))) (stored.map copiedEntry) : Except Failure (List Entry)) >>= _) = _
  rw [hloop, stale_unchanged hv hroles]
  cases cloned with
  | true =>
    have hfound : (findNeedleInTree stored [tokenTail record.nonce]
        (record.entries.map Prod.fst)).or (findNeedleInEntries (i.layout.map (writtenEntry id))
          record.entries [tokenTail record.nonce]) = none := hleft
    simp only [Except.bind, bind, if_true, hfound]
    rfl
  | false =>
    have hfound : findNeedleInTree (i.layout.map (writtenEntry id)) [tokenTail record.nonce] [] =
        none := hleft
    simp only [Except.bind, bind, Bool.false_eq_true, if_false, hfound]
    rfl

end whole

/-! ### When a stored tree relocates -/

/-- A run in `/w`. -/
def plainPaths : InstallPaths where
  workDir := ⟨⟨ascii "/w", by decide +kernel⟩, by decide⟩
  realWorkDir := ⟨⟨ascii "/w", by decide +kernel⟩, by decide⟩
  env := fun _ => none

/-- A tree with a script that names the work dir, and a link. -/
def linkTree (target : List UInt8) : Tree where
  abs := [js "w", js "node_modules"]
  real := [js "w", js "node_modules"]
  mode := 0o755
  entries := [⟨[js "a.js"], .file 0o644 (ascii "'/w/b'")⟩, ⟨[js "l"], .symlink target⟩]
  existsSync := fun _ => false
  readdirSync := fun _ => none
  distinct := by
    simp only [List.map_cons, List.map_nil]
    decide
  below := by simp
  dir_exists := by simp [Node.isDir]

/-- The tree without workspaces. -/
def linked (target : List UInt8) : Installed := ⟨linkTree target, [], List.nodup_nil⟩

/-- The host, on which nothing else is at the work dir. -/
def linkHost : Host where
  isLink := fun path =>
    if path = [js "w"] ∨ path = [js "w", js "node_modules"] ∨
        path = [js "w", js "node_modules", js "a.js"] then some false
    else none
  readlink := fun _ => none
  realpath := fun _ => some [js "w", js "node_modules", js "a.js"]

/-- A nonce. -/
def zeros (_ : Nat) : Nonce where
  hex := List.replicate 32 0x30
  isNonce := by
    refine ⟨rfl, fun b hb => ?_⟩
    rw [List.eq_of_mem_replicate hb]
    decide

/-- The record of the tree. -/
def linkRecord : Relocation where
  nonce := zeros 0
  candidates := [plainPaths.workDir]
  prefixes := [⟨[.workDir, .realWorkDir], plainPaths.workDir⟩]
  entries := [([js "a.js"], .text), ([js "l"], .symlink)]

/-- The tree as it is stored. -/
def linkStored (rest : List UInt8) : List Entry :=
  [⟨[], .dir 0o555⟩,
    ⟨[js "a.js"],
      .file 0o444 (ascii "'" ++ tokenFor [.workDir, .realWorkDir] (zeros 0) ++ ascii "/b'")⟩,
    ⟨[js "l"], .symlink (tokenFor [.workDir, .realWorkDir] (zeros 0) ++ rest)⟩]

/-- Where it is a link, its target is valid UTF-8. -/
def validTarget (e : Entry) : Bool :=
  match e.node with
  | .symlink target => decide (Utf8.Valid target)
  | _ => true

end DepsStore
end Caches
end LaneBroker
