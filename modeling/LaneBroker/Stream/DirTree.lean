/-
# A directory tree, and the walk over it

`walkDir` of `remote-manifest.js`, over a tree whose names and link targets are bytes.  A directory
is listed as text, and each name in it is then looked up by the bytes of that text: these are others
where the name is no UTF-8, and then the walk is led astray or beside the name.

What stands in the tree is said of the bytes (`Stands`, `entryOf`).  A walk that ends has found just
what stands at names that are text (`walk_mem`), and it ends with no path twice just on a tree where
each name that is no text stands beside the directory it is read as, with nothing to be found below
that one (`ReadsOnce`, `walkDir_iff`).
-/

import LaneBroker.Stream.Manifest
import LaneBroker.Basis.Results
import Mathlib.Data.List.Pairwise
import Mathlib.Data.List.Nodup
import Mathlib.Data.Set.Finite.Lattice

namespace LaneBroker
namespace Stream

open LaneBroker.Basis

/-! ### The tree -/

/-- **What stands in a directory.** -/
inductive DirNode
  | file (exec : Bool) (bytes : List UInt8)
  | link (target : List UInt8)
  /-- A socket, a fifo, a device. -/
  | special
  | dir (entries : List (List UInt8 × DirNode))

/-- What stands in one directory, by name. -/
abbrev DirEntries := List (List UInt8 × DirNode)

/-- What `lstat` says of it. -/
def DirNode.item : DirNode → Item
  | .file exec bytes => .file exec bytes
  | .link target => .link target
  | .special => .special
  | .dir _ => .dir

/-- What can be a name in a directory. -/
structure ProperName (name : List UInt8) : Prop where
  nonempty : name ≠ []
  noSlash : 0x2f ∉ name
  noNul : 0 ∉ name
  notDot : name ≠ [0x2e] ∧ name ≠ [0x2e, 0x2e]

/-- No name is there twice, down to some depth, and below that is no directory. -/
inductive ProperDir : ℕ → DirEntries → Prop
  | mk {depth : ℕ} {es : DirEntries} (nodup : (es.map Prod.fst).Nodup)
      (names : ∀ e ∈ es, ProperName e.1)
      (below : ∀ n b, (n, DirNode.dir b) ∈ es → ProperDir depth b) : ProperDir (depth + 1) es

/-- **A directory tree.** -/
structure DirTree where
  entries : DirEntries
  depth : ℕ
  proper : ProperDir depth entries

/-- **What stands in a tree**, and the names that lead to it; a directory is only led through. -/
inductive Stands : DirEntries → List (List UInt8) → DirNode → Prop
  | here {es : DirEntries} {n : List UInt8} {node : DirNode} : (n, node) ∈ es →
      (∀ b, node ≠ .dir b) → Stands es [n] node
  | inside {es b : DirEntries} {n : List UInt8} {names : List (List UInt8)} {node : DirNode} :
      (n, .dir b) ∈ es → Stands b names node → Stands es (n :: names) node

/-- The bytes are those of a text. -/
def IsText (bytes : List UInt8) : Prop := encodeUtf8 (decodeUtf8 bytes) = bytes

instance (bytes : List UInt8) : Decidable (IsText bytes) := inferInstanceAs (Decidable (_ = _))

/-- The target of a link is a text. -/
def DirNode.targetIsText : DirNode → Bool
  | .link target => IsText target
  | .file .. | .special | .dir _ => true

section Entries

variable (sha256 : List UInt8 → JsString)

/-- The entry of what stands at a path, its target read as text. -/
def entryAt (p : JsString) : DirNode → Option Built.Entry
  | .file exec bytes => some (.file p exec bytes.length (sha256 bytes))
  | .link target => some (.symlink p (decodeUtf8 target))
  | .special | .dir _ => none

/-- **The entry of a manifest that states what stands at these names**, where there is one: the path
and a link's target have to be texts. -/
def entryOf (names : List (List UInt8)) (node : DirNode) : Option Built.Entry :=
  if (∀ n ∈ names, IsText n) ∧ node.targetIsText then
    entryAt sha256 (JsString.joinSegments (names.map decodeUtf8)) node
  else none

end Entries

/-! ### The walk -/

/-- `lstat` in a directory, by the bytes of a name. -/
def lookup (es : DirEntries) (name : List UInt8) : Option DirNode :=
  (es.find? fun e => e.1 = name).map Prod.snd

/-- A disk on which every read succeeds. -/
def readable : Disk where
  item _ := none

section Walk

variable (sha256 : List UInt8 → JsString) (ignoreRootGit : Bool)

/-- `relDir ? relDir/name : name`. -/
def relOf (relDir name : JsString) : JsString :=
  if relDir = [] then name else relDir ++ JsString.slash :: name

/-- One name of a directory: what stands there, or what the walk into it finds. -/
def visitName (into : DirEntries → JsString → Except Refusal (List Built.Entry)) (es : DirEntries)
    (relDir name : JsString) : Except Refusal (List Built.Entry) :=
  let rel := relOf relDir name
  match lookup es (encodeUtf8 name) with
  -- `lstat` throws
  | none => .error (.failed rel)
  | some (.dir b) => into b rel
  | some node => (computeEntry sha256 readable rel node.item).map fun e => [e]

/-- **`recurse`**, as deep as the tree is. -/
def recurse : ℕ → DirEntries → JsString → Except Refusal (List Built.Entry)
  | 0, _, relDir => .error (.failed relDir)
  | depth + 1, es, relDir =>
    let names := (es.map fun e => decodeUtf8 e.1).mergeSort fun a b => a ≤ b
    let kept := names.filter fun name => ¬ (ignoreRootGit ∧ relDir = [] ∧ name = js ".git")
    (kept.mapM fun name => visitName sha256 (recurse depth) es relDir name).map List.flatten

/-- **`walkDir`.** -/
def walkDir (tree : DirTree) : Except Refusal (List Built.Entry) :=
  recurse sha256 ignoreRootGit tree.depth tree.entries []

end Walk

/-! ### Names as text -/

/-- The bytes by which a name is looked up that was read as text. -/
def asText (name : List UInt8) : List UInt8 := encodeUtf8 (decodeUtf8 name)

@[simp] theorem decode_asText (name : List UInt8) : decodeUtf8 (asText name) = decodeUtf8 name :=
  Utf8.decode_encode (Utf8.wellFormed_decode name)

theorem isText_asText (name : List UInt8) : IsText (asText name) := by
  show encodeUtf8 (decodeUtf8 (asText name)) = asText name
  rw [decode_asText]
  rfl

/-- A segment of a path. -/
def IsSegment (s : JsString) : Prop := s ≠ [] ∧ JsString.slash ∉ s

theorem ProperName.isSegment {name : List UInt8} (h : ProperName name) :
    IsSegment (decodeUtf8 name) := by
  refine ⟨Utf8.decode_ne_nil h.nonempty, ?_⟩
  exact @Utf8.ascii_not_mem_decode 0x2f (by decide) name h.noSlash

theorem join_cons {seg : JsString} {segs : List JsString} (h : segs ≠ []) :
    JsString.joinSegments (seg :: segs) =
      seg ++ JsString.slash :: JsString.joinSegments segs := by
  obtain ⟨seg', segs, rfl⟩ := List.exists_cons_of_ne_nil h
  simp [JsString.joinSegments, List.intercalate]

theorem join_ne_nil {segs : List JsString} (hsegs : ∀ s ∈ segs, IsSegment s)
    (hne : segs ≠ []) : JsString.joinSegments segs ≠ [] := by
  match segs with
  | [] => exact absurd rfl hne
  | [s] => simpa [JsString.joinSegments] using (hsegs s (List.mem_cons_self ..)).1
  | s :: s' :: segs =>
    rw [join_cons (by simp)]
    simp

theorem join_concat (segs : List JsString) (hsegs : ∀ s ∈ segs, IsSegment s) (seg : JsString) :
    relOf (JsString.joinSegments segs) seg = JsString.joinSegments (segs ++ [seg]) := by
  induction segs with
  | nil => simp [relOf, JsString.joinSegments]
  | cons s segs ih =>
    have hrest : ∀ x ∈ segs, IsSegment x := fun x hx => hsegs x (List.mem_cons_of_mem _ hx)
    rw [List.cons_append, @join_cons s (segs ++ [seg]) (by simp), ← ih hrest, relOf,
      if_neg (join_ne_nil hsegs (by simp))]
    match segs with
    | [] => simp [relOf, JsString.joinSegments]
    | s' :: segs =>
      rw [join_cons (by simp), relOf, if_neg (join_ne_nil hrest (by simp)), List.append_assoc]
      rfl

theorem join_inj {segs segs' : List JsString} (h : ∀ s ∈ segs, IsSegment s)
    (h' : ∀ s ∈ segs', IsSegment s) (hne : segs ≠ []) (hne' : segs' ≠ [])
    (hjoin : JsString.joinSegments segs = JsString.joinSegments segs') : segs = segs' := by
  have hsplit := congrArg (List.splitOn JsString.slash) hjoin
  rwa [JsString.joinSegments, JsString.joinSegments,
    List.splitOn_intercalate _ (fun s hs => (h s hs).2) hne,
    List.splitOn_intercalate _ (fun s hs => (h' s hs).2) hne'] at hsplit

/-! ### One directory of the walk -/

variable {sha256 : List UInt8 → JsString} {es : DirEntries} {n : List UInt8} {node : DirNode}

theorem unique_name {node' : DirNode} (hnodup : (es.map Prod.fst).Nodup) (h : (n, node) ∈ es)
    (h' : (n, node') ∈ es) : node = node' :=
  congrArg Prod.snd (List.inj_on_of_nodup_map hnodup h h' rfl)

theorem lookup_eq_some_iff (hnodup : (es.map Prod.fst).Nodup) :
    lookup es n = some node ↔ (n, node) ∈ es := by
  constructor
  · intro h
    obtain ⟨e, he, rfl⟩ := Option.map_eq_some_iff.1 h
    have hn : e.1 = n := by simpa using List.find?_some he
    exact hn ▸ List.mem_of_find?_eq_some he
  · intro h
    obtain ⟨e, he⟩ : ∃ e, (es.find? fun e => e.1 = n) = some e :=
      Option.isSome_iff_exists.1 (List.find?_isSome.2 ⟨(n, node), h, by simp⟩)
    have hn : e.1 = n := by simpa using List.find?_some he
    have heq := List.inj_on_of_nodup_map hnodup (List.mem_of_find?_eq_some he) h hn
    rw [lookup, he, heq]
    rfl

/-- What is no directory is found at its path, where an entry states it. -/
theorem leaf_ok_iff (p : JsString) (h : ∀ b, node ≠ .dir b) (l : List Built.Entry) :
    (computeEntry sha256 readable p node.item).map (fun e => [e]) = .ok l ↔
      ∃ e, entryAt sha256 p node = some e ∧ l = [e] := by
  match node with
  | .file exec bytes | .link target =>
    constructor
    · rintro ⟨⟩
      exact ⟨_, rfl, rfl⟩
    · rintro ⟨e, ⟨⟩, rfl⟩
      rfl
  | .special =>
    constructor
    · rintro ⟨⟩
    · rintro ⟨e, ⟨⟩, -⟩
  | .dir b => exact absurd rfl (h b)

/-- **What a name of a directory comes to**, by what stands at the bytes of its text. -/
def Found (sha256 : List UInt8 → JsString)
    (into : DirEntries → JsString → Except Refusal (List Built.Entry)) (es : DirEntries)
    (relDir : JsString) (n : List UInt8) (l : List Built.Entry) : Prop :=
  (∃ b, (asText n, .dir b) ∈ es ∧ into b (relOf relDir (decodeUtf8 n)) = .ok l) ∨
    ∃ node e, (asText n, node) ∈ es ∧
      entryAt sha256 (relOf relDir (decodeUtf8 n)) node = some e ∧ l = [e]

theorem visitName_ok_iff {into : DirEntries → JsString → Except Refusal (List Built.Entry)}
    (hnodup : (es.map Prod.fst).Nodup) (relDir : JsString) (n : List UInt8)
    (l : List Built.Entry) :
    visitName sha256 into es relDir (decodeUtf8 n) = .ok l ↔ Found sha256 into es relDir n l := by
  have hleaf : ∀ node, (∀ b, node ≠ .dir b) → lookup es (asText n) = some node →
      ((computeEntry sha256 readable (relOf relDir (decodeUtf8 n)) node.item).map
        (fun e => [e]) = .ok l ↔ Found sha256 into es relDir n l) := by
    intro node hdir hfind
    have hmem := (lookup_eq_some_iff hnodup).1 hfind
    rw [leaf_ok_iff _ hdir]
    constructor
    · rintro ⟨e, hentry, hl⟩
      exact .inr ⟨node, e, hmem, hentry, hl⟩
    · rintro (⟨b, hmem', -⟩ | ⟨node', e, hmem', hentry, hl⟩)
      · exact absurd (unique_name hnodup hmem hmem') (hdir b)
      · obtain rfl := unique_name hnodup hmem hmem'
        exact ⟨e, hentry, hl⟩
  show (match lookup es (asText n) with
    | none => Except.error (Refusal.failed (relOf relDir (decodeUtf8 n)))
    | some (.dir b) => into b (relOf relDir (decodeUtf8 n))
    | some node => (computeEntry sha256 readable (relOf relDir (decodeUtf8 n)) node.item).map
        fun e => [e]) = .ok l ↔ _
  match hfind : lookup es (asText n) with
  | none =>
    have hnone : ∀ node, (asText n, node) ∉ es := by
      intro node hmem
      simp [(lookup_eq_some_iff hnodup).2 hmem] at hfind
    constructor
    · rintro ⟨⟩
    · rintro (⟨b, hmem, -⟩ | ⟨node, -, hmem, -⟩)
      · exact absurd hmem (hnone _)
      · exact absurd hmem (hnone _)
  | some (.dir b) =>
    have hmem := (lookup_eq_some_iff hnodup).1 hfind
    constructor
    · exact fun hinto => .inl ⟨b, hmem, hinto⟩
    · rintro (⟨b', hmem', hinto⟩ | ⟨node, e, hmem', hentry, -⟩)
      · obtain rfl := DirNode.dir.inj (unique_name hnodup hmem hmem')
        exact hinto
      · rw [← unique_name hnodup hmem hmem'] at hentry
        cases hentry
  | some (.file exec bytes) | some (.link target) | some .special => exact hleaf _ (by nofun) hfind

/-- **What a directory shows of itself**: at the root, `.git` may be passed over. -/
def listed (ignoreRootGit : Bool) (relDir : JsString) (es : DirEntries) : DirEntries :=
  es.filter fun e => ¬ (ignoreRootGit ∧ relDir = [] ∧ decodeUtf8 e.1 = js ".git")

variable {ignoreRootGit : Bool}

theorem listed_inside {relDir : JsString} (h : relDir ≠ []) (es : DirEntries) :
    listed ignoreRootGit relDir es = es := by
  simp [listed, h]

theorem mem_of_mem_listed {relDir : JsString} {e : List UInt8 × DirNode}
    (h : e ∈ listed ignoreRootGit relDir es) : e ∈ es := (List.mem_filter.1 h).1

theorem nodup_listed {relDir : JsString} (h : (es.map Prod.fst).Nodup) :
    ((listed ignoreRootGit relDir es).map Prod.fst).Nodup :=
  h.sublist (List.filter_sublist.map _)

/-- A name that is shown is not led to one that is not. -/
theorem mem_listed_asText {relDir : JsString} {e : List UInt8 × DirNode}
    (h : e ∈ listed ignoreRootGit relDir es) :
    (asText e.1, node) ∈ listed ignoreRootGit relDir es ↔ (asText e.1, node) ∈ es := by
  have hshown := (List.mem_filter.1 h).2
  rw [listed, List.mem_filter, decode_asText]
  exact ⟨And.left, fun hmem => ⟨hmem, hshown⟩⟩

theorem found_listed {into : DirEntries → JsString → Except Refusal (List Built.Entry)}
    {relDir : JsString} {e : List UInt8 × DirNode} (h : e ∈ listed ignoreRootGit relDir es)
    (l : List Built.Entry) : Found sha256 into (listed ignoreRootGit relDir es) relDir e.1 l ↔
      Found sha256 into es relDir e.1 l := by
  simp only [Found, mem_listed_asText h]

/-- Under a directory's own name, what is found is what the walk into it finds. -/
theorem Found.dir {into : DirEntries → JsString → Except Refusal (List Built.Entry)}
    {relDir : JsString} {b : DirEntries} {l : List Built.Entry} (hnodup : (es.map Prod.fst).Nodup)
    (hn : IsText n) (hb : (n, .dir b) ∈ es) (h : Found sha256 into es relDir n l) :
    into b (relOf relDir (decodeUtf8 n)) = .ok l := by
  have hsame : asText n = n := hn
  obtain ⟨b', hb', hinto⟩ | ⟨node, e, hnode, hentry, -⟩ := h
  · rw [hsame] at hb'
    obtain rfl := DirNode.dir.inj (unique_name hnodup hb hb')
    exact hinto
  · rw [hsame] at hnode
    rw [← unique_name hnodup hb hnode] at hentry
    cases hentry

/-- Under the name of what is no directory, its entry is found. -/
theorem Found.leaf {into : DirEntries → JsString → Except Refusal (List Built.Entry)}
    {relDir : JsString} {l : List Built.Entry} (hnodup : (es.map Prod.fst).Nodup)
    (hn : IsText n) (hmem : (n, node) ∈ es) (hdir : ∀ b, node ≠ .dir b)
    (h : Found sha256 into es relDir n l) :
    ∃ e, entryAt sha256 (relOf relDir (decodeUtf8 n)) node = some e ∧ l = [e] := by
  have hsame : asText n = n := hn
  obtain ⟨b, hb, -⟩ | ⟨node', e, hnode, hentry, hl⟩ := h
  · rw [hsame] at hb
    exact absurd (unique_name hnodup hmem hb) (hdir b)
  · rw [hsame] at hnode
    obtain rfl := unique_name hnodup hmem hnode
    exact ⟨e, hentry, hl⟩

/-- The names of a directory that the walk goes through, in some order. -/
theorem perm_kept (relDir : JsString) (es : DirEntries) :
    (((es.map fun e => decodeUtf8 e.1).mergeSort fun a b => a ≤ b).filter
      fun name => ¬ (ignoreRootGit ∧ relDir = [] ∧ name = js ".git")).Perm
        ((listed ignoreRootGit relDir es).map fun e => decodeUtf8 e.1) := by
  refine ((List.mergeSort_perm _ _).filter _).trans (.of_eq ?_)
  rw [List.filter_map]
  rfl

/-- What a computation that may fail comes to, where it does not. -/
theorem exists_results {α β ε : Type} (f : α → Except ε (List β)) :
    ∃ g : α → List β, ∀ x y, f x = .ok y → y = g x :=
  ⟨fun x => (f x).toOption.getD [], fun x y hy => by simp [hy, Except.toOption]⟩

/-- **What the walk finds in one directory** is what it finds under each of its names. -/
theorem recurse_found {depth : ℕ} {relDir : JsString} {L : List Built.Entry}
    (hnodup : (es.map Prod.fst).Nodup)
    (h : recurse sha256 ignoreRootGit (depth + 1) es relDir = .ok L) :
    ∃ g : JsString → List Built.Entry,
      (∀ e ∈ listed ignoreRootGit relDir es,
        Found sha256 (recurse sha256 ignoreRootGit depth) (listed ignoreRootGit relDir es) relDir
          e.1 (g (decodeUtf8 e.1))) ∧
      L.Perm ((listed ignoreRootGit relDir es).flatMap fun e => g (decodeUtf8 e.1)) := by
  obtain ⟨ls, hls, rfl⟩ := Results.map_ok h
  obtain ⟨g, hg⟩ := exists_results (visitName sha256 (recurse sha256 ignoreRootGit depth) es relDir)
  obtain ⟨rfl, hall⟩ := Results.mapM_ok hg hls
  refine ⟨g, fun e he => ?_, ?_⟩
  · rw [found_listed he, ← visitName_ok_iff hnodup]
    exact hall _ ((perm_kept relDir es).mem_iff.2 (List.mem_map_of_mem he))
  · rw [← List.flatMap_def]
    refine ((perm_kept relDir es).flatMap_right _).trans (.of_eq ?_)
    rw [List.flatMap_map]

/-- The walk through a directory ends where it ends under each name. -/
theorem recurse_ends {depth : ℕ} {relDir : JsString} (hnodup : (es.map Prod.fst).Nodup)
    (h : ∀ e ∈ listed ignoreRootGit relDir es, ∃ l,
      Found sha256 (recurse sha256 ignoreRootGit depth) (listed ignoreRootGit relDir es) relDir
        e.1 l) : ∃ L, recurse sha256 ignoreRootGit (depth + 1) es relDir = .ok L := by
  obtain ⟨g, hg⟩ := exists_results (visitName sha256 (recurse sha256 ignoreRootGit depth) es relDir)
  have hnames : ∀ name ∈ ((es.map fun e => decodeUtf8 e.1).mergeSort fun a b => a ≤ b).filter
      (fun name => ¬ (ignoreRootGit ∧ relDir = [] ∧ name = js ".git")),
      visitName sha256 (recurse sha256 ignoreRootGit depth) es relDir name = .ok (g name) := by
    intro name hname
    obtain ⟨e, he, rfl⟩ := List.mem_map.1 ((perm_kept relDir es).mem_iff.1 hname)
    obtain ⟨l, hl⟩ := h e he
    have hvisit := (visitName_ok_iff hnodup relDir e.1 l).2 ((found_listed he l).1 hl)
    rw [hvisit, hg _ _ hvisit]
  have hmap := Results.mapM_eq_ok hnames
  rw [recurse, hmap]
  exact ⟨_, rfl⟩

/-! ### The whole walk -/

/-- The paths behind a directory. -/
def behind (segs : List JsString) (names : List (List UInt8)) : JsString :=
  JsString.joinSegments (segs ++ names.map decodeUtf8)

theorem ProperDir.cases {depth : ℕ} (h : ProperDir depth es) : (es.map Prod.fst).Nodup ∧
    (∀ e ∈ es, ProperName e.1) ∧ ∃ below, depth = below + 1 ∧
      ∀ n b, (n, DirNode.dir b) ∈ es → ProperDir below b := by
  cases h with
  | mk nodup names below => exact ⟨nodup, names, _, rfl, below⟩

/-- Behind a name the path is one of segments, and all is shown. -/
theorem inside_dir (ignoreRootGit : Bool) {segs : List JsString}
    (hsegs : ∀ s ∈ segs, IsSegment s) (hn : ProperName n) (b : DirEntries) :
    (∀ s ∈ segs ++ [decodeUtf8 n], IsSegment s) ∧
      listed ignoreRootGit (JsString.joinSegments (segs ++ [decodeUtf8 n])) b = b := by
  have hbehind : ∀ s ∈ segs ++ [decodeUtf8 n], IsSegment s := by
    rw [List.forall_mem_append, List.forall_mem_singleton]
    exact ⟨hsegs, hn.isSegment⟩
  exact ⟨hbehind, listed_inside (join_ne_nil hbehind (by simp)) b⟩

/-- **What the walk finds**: what stands at names that are text, each at its path. -/
theorem walk_mem {depth : ℕ} (h : ProperDir depth es) {segs : List JsString}
    (hsegs : ∀ s ∈ segs, IsSegment s) {L : List Built.Entry}
    (hwalk : recurse sha256 ignoreRootGit depth es (JsString.joinSegments segs) = .ok L)
    (e : Built.Entry) : e ∈ L ↔ ∃ names node,
      Stands (listed ignoreRootGit (JsString.joinSegments segs) es) names node ∧
        (∀ n ∈ names, IsText n) ∧ entryAt sha256 (behind segs names) node = some e := by
  induction h generalizing segs L with
  | @mk depth es hnodup hnames hbelow ih =>
    obtain ⟨g, hfound, hperm⟩ := recurse_found hnodup hwalk
    -- a directory is walked behind the text of its name, and there all is shown
    have hinner : ∀ n b, (n, DirNode.dir b) ∈ es → ∀ l,
        recurse sha256 ignoreRootGit depth b (relOf (JsString.joinSegments segs) (decodeUtf8 n)) =
          .ok l → (e ∈ l ↔ ∃ names node, Stands b names node ∧ (∀ n ∈ names, IsText n) ∧
            entryAt sha256 (behind segs (n :: names)) node = some e) := by
      intro n b hb l hl
      obtain ⟨hbehind, hall⟩ := inside_dir ignoreRootGit hsegs (hnames _ hb) b
      rw [join_concat segs hsegs] at hl
      have hin := ih n b hb hbehind hl
      rw [hall] at hin
      simpa [behind] using hin
    rw [hperm.mem_iff, List.mem_flatMap]
    constructor
    · rintro ⟨x, hx, he⟩
      obtain ⟨b, hb, hinto⟩ | ⟨node, e', hmem, hentry, hl⟩ := hfound x hx
      · rw [← decode_asText x.1] at hinto he
        obtain ⟨names, node, hst, htext, hentry⟩ :=
          (hinner _ b (mem_of_mem_listed hb) _ hinto).1 he
        refine ⟨asText x.1 :: names, node, .inside hb hst, ?_, hentry⟩
        exact List.forall_mem_cons.2 ⟨isText_asText x.1, htext⟩
      · rw [hl, List.mem_singleton] at he
        subst he
        refine ⟨[asText x.1], node, .here hmem ?_, ?_, ?_⟩
        · rintro b rfl
          cases hentry
        · exact List.forall_mem_singleton.2 (isText_asText x.1)
        · rw [join_concat segs hsegs] at hentry
          simpa [behind] using hentry
    · rintro ⟨names, node, hst, htext, hentry⟩
      cases hst with
      | @here _ n _ hmem hdir =>
        have hn : IsText n := htext n (List.mem_singleton.2 rfl)
        refine ⟨(n, node), hmem, ?_⟩
        obtain ⟨e', hentry', hl⟩ := (hfound _ hmem).leaf (nodup_listed hnodup) hn hmem hdir
        rw [join_concat segs hsegs] at hentry'
        obtain rfl := Option.some.inj (hentry.symm.trans hentry')
        rw [hl]
        exact List.mem_singleton.2 rfl
      | @inside _ b n names _ hmem hst =>
        obtain ⟨hn, htext⟩ := List.forall_mem_cons.1 htext
        have hinto := (hfound _ hmem).dir (nodup_listed hnodup) hn hmem
        refine ⟨(n, .dir b), hmem, ?_⟩
        exact (hinner n b (mem_of_mem_listed hmem) _ hinto).2 ⟨names, node, hst, htext, hentry⟩

/-! ### Each path once -/

/-- Nothing stands at names that are text. -/
def Bare (es : DirEntries) : Prop := ∀ names node, Stands es names node → ∃ n ∈ names, ¬ IsText n

/-- **Reading the names as text leads to each thing once.**  At names that are text nothing stands
but files, links and directories; and a name that is no text stands beside the directory it is read
as, which is bare. -/
inductive ReadsOnce : DirEntries → Prop
  | mk {es : DirEntries} (plain : ∀ n, IsText n → (n, DirNode.special) ∉ es)
      (within : ∀ n b, IsText n → (n, DirNode.dir b) ∈ es → ReadsOnce b)
      (others : ∀ e ∈ es, ¬ IsText e.1 → ∃ b, (asText e.1, DirNode.dir b) ∈ es ∧ Bare b) :
      ReadsOnce es

theorem ReadsOnce.cases (h : ReadsOnce es) : (∀ n, IsText n → (n, DirNode.special) ∉ es) ∧
    (∀ n b, IsText n → (n, DirNode.dir b) ∈ es → ReadsOnce b) ∧
    ∀ e ∈ es, ¬ IsText e.1 → ∃ b, (asText e.1, DirNode.dir b) ∈ es ∧ Bare b := by
  cases h with
  | mk plain within others => exact ⟨plain, within, others⟩

/-- What stands at names that are text has an entry, read as text. -/
theorem ReadsOnce.entry {names : List (List UInt8)} (h : ReadsOnce es)
    (sha256 : List UInt8 → JsString)
    (hst : Stands es names node) (htext : ∀ n ∈ names, IsText n) (p : JsString) :
    ∃ e, entryAt sha256 p node = some e := by
  induction hst with
  | @here es n node hmem hdir =>
    match node with
    | .file exec bytes => exact ⟨_, rfl⟩
    | .link target => exact ⟨_, rfl⟩
    | .special => exact absurd hmem (h.cases.1 n (htext n (List.mem_singleton.2 rfl)))
    | .dir b => exact absurd rfl (hdir b)
  | @inside es b n names node hmem _ ih =>
    obtain ⟨hn, hrest⟩ := List.forall_mem_cons.1 htext
    exact ih (h.cases.2.1 n b hn hmem) hrest

theorem entryAt_path {p : JsString} {e : Built.Entry} (h : entryAt sha256 p node = some e) :
    e.path = p := by
  match node with
  | .file exec bytes => exact Option.some.inj h ▸ rfl
  | .link target => exact Option.some.inj h ▸ rfl

theorem Stands.not_dir {names : List (List UInt8)} (h : Stands es names node) (b : DirEntries) :
    node ≠ .dir b := by
  induction h with
  | here _ hdir => exact hdir b
  | inside _ _ ih => exact ih

/-- One thing stands at a path. -/
theorem Stands.unique {depth : ℕ} {names : List (List UInt8)} {node' : DirNode}
    (hst : Stands es names node) (hst' : Stands es names node') (h : ProperDir depth es) :
    node = node' := by
  induction hst generalizing depth with
  | here hmem hdir =>
    cases hst' with
    | here hmem' _ => exact congrArg Prod.snd (List.inj_on_of_nodup_map h.cases.1 hmem hmem' rfl)
    | inside _ hempty => cases hempty
  | inside hmem hst ih =>
    cases hst' with
    | here => cases hst
    | inside hmem' hst' =>
      obtain ⟨hnodup, -, below, -, hbelow⟩ := h.cases
      have hsame := congrArg Prod.snd (List.inj_on_of_nodup_map hnodup hmem hmem' rfl)
      obtain rfl := DirNode.dir.inj hsame
      exact ih hst' (hbelow _ _ hmem)

/-- Finitely much stands in a tree. -/
theorem stands_finite {depth : ℕ} (h : ProperDir depth es) :
    {x : List (List UInt8) × DirNode | Stands es x.1 x.2}.Finite := by
  induction h with
  | @mk depth es _ _ _ ih =>
    have hone : ∀ e ∈ {e | e ∈ es}, ({([e.1], e.2)} ∪ (fun x => (e.1 :: x.1, x.2)) ''
        {x : List (List UInt8) × DirNode | ∃ b, e.2 = .dir b ∧ Stands b x.1 x.2}).Finite := by
      rintro ⟨n, node⟩ he
      refine (Set.finite_singleton _).union (Set.Finite.image _ ?_)
      match node with
      | .dir b =>
        refine (ih n b he).subset ?_
        rintro x ⟨b', hb, hst⟩
        exact DirNode.dir.inj hb ▸ hst
      | .file .. | .link .. | .special =>
        refine Set.finite_empty.subset ?_
        rintro x ⟨b', ⟨⟩, -⟩
    refine ((List.finite_toSet es).biUnion hone).subset ?_
    rintro ⟨names, node⟩ hst
    cases hst with
    | @here _ n _ hmem _ => exact Set.mem_biUnion hmem (.inl rfl)
    | @inside _ b n names _ hmem hst =>
      exact Set.mem_biUnion hmem (.inr ⟨(names, node), ⟨b, rfl, hst⟩, rfl⟩)

theorem ProperDir.listed {depth : ℕ} (h : ProperDir depth es) (ignoreRootGit : Bool)
    (relDir : JsString) : ProperDir depth (listed ignoreRootGit relDir es) := by
  cases h with
  | mk nodup names below =>
    exact .mk (nodup_listed nodup)
      (fun e he => names e (mem_of_mem_listed he))
      (fun n b hb => below n b (mem_of_mem_listed hb))

theorem Stands.proper {depth : ℕ} {names : List (List UInt8)} (hst : Stands es names node)
    (h : ProperDir depth es) : ∀ n ∈ names, ProperName n := by
  induction hst generalizing depth with
  | here hmem _ => exact List.forall_mem_singleton.2 (h.cases.2.1 _ hmem)
  | inside hmem _ ih =>
    obtain ⟨-, hnames, below, -, hbelow⟩ := h.cases
    exact List.forall_mem_cons.2 ⟨hnames _ hmem, ih (hbelow _ _ hmem)⟩

section Below

variable {depth : ℕ} (hproper : ProperDir (depth + 1) es) {segs : List JsString}
  (hsegs : ∀ s ∈ segs, IsSegment s)

include hproper hsegs

/-- What the walk finds in a directory below. -/
theorem inside_mem {b : DirEntries} (hb : (n, .dir b) ∈ es) {l : List Built.Entry}
    (hinto : recurse sha256 ignoreRootGit depth b
      (relOf (JsString.joinSegments segs) (decodeUtf8 n)) = .ok l) (e : Built.Entry) :
    e ∈ l ↔ ∃ names node, Stands b names node ∧ (∀ n ∈ names, IsText n) ∧
      entryAt sha256 (behind segs (n :: names)) node = some e := by
  obtain ⟨-, hnames, below, hdepth, hbelow⟩ := hproper.cases
  obtain rfl := Nat.succ.inj hdepth
  obtain ⟨hbehind, hall⟩ := inside_dir ignoreRootGit hsegs (hnames _ hb) b
  rw [join_concat segs hsegs] at hinto
  rw [walk_mem (hbelow _ _ hb) hbehind hinto e, hall]
  simp [behind]

variable {l l' : List Built.Entry} {e e' : Built.Entry}
  (h : Found sha256 (recurse sha256 ignoreRootGit depth) es (JsString.joinSegments segs) n l)

include h

/-- What is found under a name has its text in its path. -/
theorem found_path (he : e ∈ l) : ∃ rest, (∀ s ∈ rest, IsSegment s) ∧
    e.path = JsString.joinSegments (segs ++ decodeUtf8 n :: rest) := by
  obtain ⟨b, hb, hinto⟩ | ⟨node, e', hmem, hentry, rfl⟩ := h
  · rw [← decode_asText n] at hinto
    obtain ⟨names, node, hst, -, hentry⟩ := (inside_mem hproper hsegs hb hinto e).1 he
    obtain ⟨-, -, below, -, hbelow⟩ := hproper.cases
    refine ⟨names.map decodeUtf8, ?_, ?_⟩
    · intro s hs
      obtain ⟨n', hn', rfl⟩ := List.mem_map.1 hs
      exact (hst.proper (hbelow _ _ hb) n' hn').isSegment
    · rw [entryAt_path hentry]
      simp [behind]
  · rw [List.mem_singleton] at he
    subst he
    refine ⟨[], nofun, ?_⟩
    rw [entryAt_path hentry, join_concat segs hsegs]

/-- What is found under two names is at two paths, if the names have two texts. -/
theorem found_same {n' : List UInt8} (hn : ProperName n) (hn' : ProperName n')
    (h' : Found sha256 (recurse sha256 ignoreRootGit depth) es (JsString.joinSegments segs) n' l')
    (he : e ∈ l) (he' : e' ∈ l') (hpath : e.path = e'.path) : decodeUtf8 n = decodeUtf8 n' := by
  obtain ⟨rest, hrest, hp⟩ := found_path hproper hsegs h he
  obtain ⟨rest', hrest', hp'⟩ := found_path hproper hsegs h' he'
  have hall : ∀ (m : List UInt8) (tail : List JsString), ProperName m →
      (∀ s ∈ tail, IsSegment s) → ∀ s ∈ segs ++ decodeUtf8 m :: tail, IsSegment s := by
    intro m tail hm htail
    rw [List.forall_mem_append, List.forall_mem_cons]
    exact ⟨hsegs, hm.isSegment, htail⟩
  have hsame := join_inj (hall n rest hn hrest) (hall n' rest' hn' hrest') (by simp) (by simp)
    (hp.symm.trans (hpath.trans hp'))
  exact (List.cons.inj (List.append_cancel_left hsame)).1

/-- A name that is no text leads to nothing. -/
theorem found_other (hother : ∃ b, (asText n, DirNode.dir b) ∈ es ∧ Bare b) : l = [] := by
  obtain ⟨b, hb, hbare⟩ := hother
  obtain ⟨hnodup, -⟩ := hproper.cases
  obtain ⟨b', hb', hinto⟩ | ⟨node, e', hmem, hentry, -⟩ := h
  · obtain rfl := DirNode.dir.inj (unique_name hnodup hb' hb)
    rw [← decode_asText n] at hinto
    refine List.eq_nil_iff_forall_not_mem.2 fun e he => ?_
    obtain ⟨names, node, hst, htext, -⟩ := (inside_mem hproper hsegs hb hinto e).1 he
    obtain ⟨n', hn', hnot⟩ := hbare names node hst
    exact hnot (htext n' hn')
  · rw [unique_name hnodup hmem hb] at hentry
    cases hentry

end Below

/-- What is found under two names is at two paths. -/
theorem found_disjoint {depth : ℕ} {x y : List UInt8 × DirNode} (hproper : ProperDir (depth + 1) es)
    {segs : List JsString} (hsegs : ∀ s ∈ segs, IsSegment s)
    (hother : ∀ e ∈ es, ¬ IsText e.1 → ∃ b, (asText e.1, DirNode.dir b) ∈ es ∧ Bare b)
    {l l' : List Built.Entry} (hx : x ∈ es) (hy : y ∈ es) (hne : x ≠ y)
    (h : Found sha256 (recurse sha256 ignoreRootGit depth) es (JsString.joinSegments segs) x.1 l)
    (h' : Found sha256 (recurse sha256 ignoreRootGit depth) es (JsString.joinSegments segs) y.1
      l') : (l.map Built.Entry.path).Disjoint (l'.map Built.Entry.path) := by
  intro p hp hp'
  obtain ⟨e, he, rfl⟩ := List.mem_map.1 hp
  obtain ⟨e', he', hpath⟩ := List.mem_map.1 hp'
  obtain ⟨hnodup, hnames, -⟩ := hproper.cases
  -- both names are text, for something is found there, and the paths have their texts
  have htext : ∀ z ∈ es, ∀ {k : List Built.Entry}, Found sha256 (recurse sha256 ignoreRootGit depth)
      es (JsString.joinSegments segs) z.1 k → ∀ e ∈ k, IsText z.1 := by
    intro z hz k hk e he
    by_contra hn
    rw [found_other hproper hsegs hk (hother z hz hn)] at he
    exact List.not_mem_nil he
  have hsame : decodeUtf8 x.1 = decodeUtf8 y.1 :=
    found_same hproper hsegs h (hnames _ hx) (hnames _ hy) h' he he' hpath.symm
  refine hne (List.inj_on_of_nodup_map hnodup hx hy ?_)
  rw [← htext x hx h e he, ← htext y hy h' e' he']
  exact congrArg encodeUtf8 hsame

/-- **The walk ends with no path twice** where reading the names leads to each thing once. -/
theorem ReadsOnce.walk {depth : ℕ} (h : ProperDir depth es) {segs : List JsString}
    (hsegs : ∀ s ∈ segs, IsSegment s)
    (honce : ReadsOnce (listed ignoreRootGit (JsString.joinSegments segs) es)) :
    ∃ L, recurse sha256 ignoreRootGit depth es (JsString.joinSegments segs) = .ok L ∧
      (L.map Built.Entry.path).Nodup := by
  induction h generalizing segs with
  | @mk depth es hnodup hnames hbelow ih =>
    generalize hks : listed ignoreRootGit (JsString.joinSegments segs) es = ks at honce
    have hmem : ∀ e ∈ ks, e ∈ es := fun e he => mem_of_mem_listed (hks ▸ he)
    have hks_proper : ProperDir (depth + 1) ks :=
      hks ▸ (ProperDir.mk hnodup hnames hbelow).listed _ _
    have hks_nodup : (ks.map Prod.fst).Nodup := hks_proper.cases.1
    obtain ⟨plain, within, others⟩ := honce.cases
    have hdir : ∀ n b, IsText n → (n, DirNode.dir b) ∈ ks → ∃ l,
        recurse sha256 ignoreRootGit depth b (relOf (JsString.joinSegments segs) (decodeUtf8 n)) =
          .ok l ∧ (l.map Built.Entry.path).Nodup := by
      intro n b hn hb
      obtain ⟨hbehind, hall⟩ := inside_dir ignoreRootGit hsegs (hnames _ (hmem _ hb)) b
      rw [join_concat segs hsegs]
      exact ih n b (hmem _ hb) hbehind (hall.symm ▸ within n b hn hb)
    have hends : ∀ e ∈ ks, ∃ l, Found sha256 (recurse sha256 ignoreRootGit depth) ks
        (JsString.joinSegments segs) e.1 l := by
      rintro ⟨n, node⟩ he
      by_cases hn : IsText n
      · have hsame : asText n = n := hn
        match node with
        | .dir b =>
          obtain ⟨l, hl, -⟩ := hdir n b hn he
          exact ⟨l, .inl ⟨b, hsame.symm ▸ he, hl⟩⟩
        | .special => exact absurd he (plain n hn)
        | .file exec bytes | .link target => exact ⟨_, .inr ⟨_, _, hsame.symm ▸ he, rfl, rfl⟩⟩
      · obtain ⟨b, hb, -⟩ := others _ he hn
        obtain ⟨l, hl, -⟩ := hdir _ b (isText_asText n) hb
        rw [decode_asText] at hl
        exact ⟨l, .inl ⟨b, hb, hl⟩⟩
    obtain ⟨L, hL⟩ := recurse_ends hnodup (hks ▸ hends)
    obtain ⟨g, hfound, hperm⟩ := recurse_found hnodup hL
    rw [hks] at hfound hperm
    refine ⟨L, hL, ?_⟩
    rw [(hperm.map _).nodup_iff, List.map_flatMap, List.nodup_flatMap]
    constructor
    · intro e he
      obtain ⟨b, hb, hinto⟩ | ⟨node, e', -, -, hl⟩ := hfound e he
      · obtain ⟨l, hl, hnodup⟩ := hdir _ b (isText_asText e.1) hb
        rw [decode_asText, hinto] at hl
        rwa [Except.ok.inj hl]
      · rw [hl]
        exact List.nodup_singleton _
    · refine (List.Nodup.of_map _ hks_nodup).pairwise_of_forall_ne fun x hx y hy hne => ?_
      exact found_disjoint hks_proper hsegs others hx hy hne (hfound x hx) (hfound y hy)

/-- **A walk that ends with no path twice** has read the names of such a tree. -/
theorem readsOnce_of_walk {depth : ℕ} (h : ProperDir depth es) {segs : List JsString}
    (hsegs : ∀ s ∈ segs, IsSegment s) {L : List Built.Entry}
    (hwalk : recurse sha256 ignoreRootGit depth es (JsString.joinSegments segs) = .ok L)
    (hpaths : (L.map Built.Entry.path).Nodup) :
    ReadsOnce (listed ignoreRootGit (JsString.joinSegments segs) es) := by
  induction h generalizing segs L with
  | @mk depth es hnodup hnames hbelow ih =>
    obtain ⟨g, hfound, hperm⟩ := recurse_found hnodup hwalk
    rw [(hperm.map _).nodup_iff, List.map_flatMap, List.nodup_flatMap] at hpaths
    obtain ⟨heach, hpair⟩ := hpaths
    generalize hks : listed ignoreRootGit (JsString.joinSegments segs) es = ks
      at hfound heach hpair ⊢
    have hmem : ∀ e ∈ ks, e ∈ es := fun e he => mem_of_mem_listed (hks ▸ he)
    have hks_proper : ProperDir (depth + 1) ks :=
      hks ▸ (ProperDir.mk hnodup hnames hbelow).listed _ _
    have hks_nodup : (ks.map Prod.fst).Nodup := hks_proper.cases.1
    have hwithin : ∀ n b, IsText n → (n, DirNode.dir b) ∈ ks → ReadsOnce b := by
      intro n b hn hb
      have hinto := (hfound _ hb).dir hks_nodup hn hb
      obtain ⟨hbehind, hall⟩ := inside_dir ignoreRootGit hsegs (hnames _ (hmem _ hb)) b
      rw [join_concat segs hsegs] at hinto
      exact hall ▸ ih n b (hmem _ hb) hbehind hinto (heach _ hb)
    refine .mk (fun n hn hspecial => ?_) hwithin fun x hx hn => ?_
    · obtain ⟨e, hentry, -⟩ := (hfound _ hspecial).leaf hks_nodup hn hspecial nofun
      cases hentry
    · -- the name and the one that it is read as both lead to what is found there
      have htwice : ∀ node, (asText x.1, node) ∈ ks → ∀ e ∈ g (decodeUtf8 x.1), False := by
        intro node hnode e he
        have hne : x ≠ (asText x.1, node) := fun heq => hn (congrArg Prod.fst heq).symm
        have : Std.Symm (Function.onFun List.Disjoint
            fun e : List UInt8 × DirNode => (g (decodeUtf8 e.1)).map Built.Entry.path) :=
          ⟨fun _ _ hd => List.disjoint_symm hd⟩
        have hpath : e.path ∈ (g (decodeUtf8 x.1)).map Built.Entry.path :=
          List.mem_map_of_mem he
        refine hpair.forall hx hnode hne hpath ?_
        show e.path ∈ (g (decodeUtf8 (asText x.1))).map Built.Entry.path
        rwa [decode_asText]
      obtain ⟨b, hb, hinto⟩ | ⟨node, e, hnode, -, hl⟩ := hfound x hx
      · refine ⟨b, hb, fun names node hst => ?_⟩
        by_contra hall
        have htext : ∀ n ∈ names, IsText n := fun n hn => by
          by_contra hnot
          exact hall ⟨n, hn, hnot⟩
        rw [← decode_asText x.1] at hinto
        obtain ⟨e, hentry⟩ := (hwithin _ b (isText_asText x.1) hb).entry sha256 hst htext
          (behind segs (asText x.1 :: names))
        have he := (inside_mem hks_proper hsegs hb hinto e).2 ⟨names, node, hst, htext, hentry⟩
        rw [decode_asText] at he
        exact htwice _ hb e he
      · exact absurd (hl ▸ List.mem_singleton.2 rfl) (htwice node hnode e)

/-- **What the walk over a tree comes to.**  It ends with no path twice just where reading the names
leads to each thing once. -/
theorem walkDir_iff (sha256 : List UInt8 → JsString) (ignoreRootGit : Bool) (tree : DirTree) :
    (∃ L, walkDir sha256 ignoreRootGit tree = .ok L ∧ (L.map Built.Entry.path).Nodup) ↔
      ReadsOnce (listed ignoreRootGit [] tree.entries) := by
  have hroot : ∀ s ∈ ([] : List JsString), IsSegment s := nofun
  constructor
  · rintro ⟨L, hL, hpaths⟩
    exact readsOnce_of_walk tree.proper hroot hL hpaths
  · exact fun h => ReadsOnce.walk tree.proper hroot h

/-- It finds what stands at names that are text. -/
theorem walkDir_mem {tree : DirTree} {L : List Built.Entry}
    (h : walkDir sha256 ignoreRootGit tree = .ok L) (e : Built.Entry) : e ∈ L ↔
      ∃ names node, Stands (listed ignoreRootGit [] tree.entries) names node ∧
        (∀ n ∈ names, IsText n) ∧
        entryAt sha256 (JsString.joinSegments (names.map decodeUtf8)) node = some e :=
  walk_mem tree.proper (show ∀ s ∈ ([] : List JsString), IsSegment s from nofun) h e

end Stream
end LaneBroker
