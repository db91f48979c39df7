/-
# A manifest is checked against a tree

`remote-manifest.js`: `canonicalizeEntry`, `manifestHashOf` and `verifyManifestNoGit`, which goes
through the sorted entries of a manifest and of a walk over the tree side by side.

Paths are ordered by their bytes, and that order tells well-formed paths apart; so the two lists
agree to the end just when they hold the same entries (`verifies_iff_perm`), and the hash is that of
the entries in their one order (`manifestHashOf_perm`, `manifestHashOf_inj`).  But the walk reads
names and link targets as text.  Where reading them leads to each thing once although something
there has no entry, or the other way round, the manifest that is accepted is not the one of the tree
(`verifyManifestNoGit_iff`).
-/

import LaneBroker.Basis.JsonText
import LaneBroker.Stream.DirTree

namespace LaneBroker
namespace Stream

open LaneBroker.Basis

/-! ### Manifests -/

/-- **An entry of a manifest as it is given**; a field that its type does not have is not looked
at. -/
structure ManifestEntry where
  path : JsString
  type : JsVal
  exec : JsVal := .undefined
  size : ℕ := 0
  sha256 : JsString := []
  target : JsString := []

/-- **`canonicalizeEntry`.** -/
def canonicalizeEntry (e : ManifestEntry) : Built.Entry :=
  if e.type = .str (js "file") then .file e.path e.exec.truthy e.size e.sha256
  else .symlink e.path e.target

/-- `sortEntries`, of entries as they are given. -/
def sortManifest (entries : List ManifestEntry) : List ManifestEntry :=
  entries.mergeSort fun a b => comparePaths a.path b.path

/-- The entries of a manifest in their order and form. -/
def canonical (entries : List ManifestEntry) : List Built.Entry :=
  (sortManifest entries).map canonicalizeEntry

/-- **The paths of a manifest are distinct and well-formed.** -/
structure ProperManifest (entries : List ManifestEntry) : Prop where
  distinct : (entries.map ManifestEntry.path).Nodup
  wellFormed : ∀ e ∈ entries, Utf8.WellFormed e.path

/-! ### The hash -/

/-- `JSON.stringify` of a canonical entry. -/
def entryText : Built.Entry → JsString
  | .file path exec size sha256 =>
    js "\x7b\"path\":" ++ (JsonText.quote path ++ (js ",\"type\":\"" ++ (js "file\",\"exec\":" ++
      (js (if exec then "true" else "false") ++ (js ",\"size\":" ++ (JsonText.decimalText size ++
        (js ",\"sha256\":" ++ (JsonText.quote sha256 ++ js "\x7d"))))))))
  | .symlink path target =>
    js "\x7b\"path\":" ++ (JsonText.quote path ++ (js ",\"type\":\"" ++
      (js "symlink\",\"target\":" ++ (JsonText.quote target ++ js "\x7d"))))

/-- The entries behind the first, and the end of the array. -/
def moreText : List Built.Entry → JsString
  | [] => js "]"
  | e :: es => js "," ++ (entryText e ++ moreText es)

/-- **`JSON.stringify` of the canonical entries.** -/
def manifestText : List Built.Entry → JsString
  | [] => js "[]"
  | e :: es => js "[" ++ (entryText e ++ moreText es)

/-- **`manifestHashOf`.** -/
def manifestHashOf (sha256 : List UInt8 → JsString) (entries : List ManifestEntry) : JsString :=
  sha256 (encodeUtf8 (manifestText (canonical entries)))

/-! ### The comparison -/

/-- One turn of the loop: the mismatch of an expected entry and one that is there. -/
def mismatchOf (e a : Built.Entry) : Option JsString :=
  if encodeUtf8 e.path < encodeUtf8 a.path then some (js "missing: " ++ e.path)
  else if encodeUtf8 a.path < encodeUtf8 e.path then some (js "extra: " ++ a.path)
  else match e, a with
  | .file path exec size sha256, .file _ exec' size' sha256' =>
    if exec ≠ exec' then some (js "exec mismatch: " ++ path)
    else if size ≠ size' then some (js "size mismatch: " ++ path)
    else if sha256 ≠ sha256' then some (js "hash mismatch: " ++ path)
    else none
  | .symlink path target, .symlink _ target' =>
    if target ≠ target' then some (js "target mismatch: " ++ path) else none
  | .file path .., .symlink .. | .symlink path .., .file .. =>
    some (js "type mismatch: " ++ path)

/-- **The loop of `verifyManifestNoGit`**: the first mismatch of the expected entries and the ones
that are there. -/
def firstMismatch : List Built.Entry → List Built.Entry → Option JsString
  | [], [] => none
  | [], a :: _ => some (js "extra: " ++ a.path)
  | e :: _, [] => some (js "missing: " ++ e.path)
  | e :: es, a :: as =>
    match mismatchOf e a with
    | some reason => some reason
    | none => firstMismatch es as

/-- **What `verifyManifestNoGit` answers**, or that it throws. -/
inductive Verdict
  | ok
  | mismatch (reason : JsString)
  | threw (r : Refusal)
  deriving DecidableEq

/-- **`verifyManifestNoGit`.**  The entries that the walk makes are canonical. -/
def verifyManifestNoGit (sha256 : List UInt8 → JsString) (ignoreRootGit : Bool) (tree : DirTree)
    (entries : List ManifestEntry) : Verdict :=
  match walkDir sha256 ignoreRootGit tree with
  | .error r => .threw r
  | .ok walked =>
    match firstMismatch (canonical entries) (sortEntries walked) with
    | none => .ok
    | some reason => .mismatch reason

/-! ### What is to be the same -/

section Statement

variable (sha256 : List UInt8 → JsString) (ignoreRootGit : Bool) (tree : DirTree)

/-- What stands in the tree, as far as it is looked at. -/
def DirTree.Stands (names : List (List UInt8)) (node : DirNode) : Prop :=
  Stream.Stands (listed ignoreRootGit [] tree.entries) names node

/-- **The canonical entries of the manifest are those of the tree**: what stands there has an entry,
and these are the entries. -/
def SameEntries (entries : List ManifestEntry) : Prop :=
  (∀ names node, tree.Stands ignoreRootGit names node → (entryOf sha256 names node).isSome) ∧
    ∀ e, e ∈ entries.map canonicalizeEntry ↔
      ∃ names node, tree.Stands ignoreRootGit names node ∧ entryOf sha256 names node = some e

/-- **All that stands in the tree can be stated in a manifest**: files at paths that are text, and
links at such paths to targets that are text. -/
def Stateable : Prop := ∀ names node, tree.Stands ignoreRootGit names node →
  (∀ n ∈ names, IsText n) ∧ node ≠ .special ∧ node.targetIsText = true

end Statement

/-! ### The order of the paths -/

theorem comparePaths_iff {a b : JsString} :
    comparePaths a b = true ↔ encodeUtf8 a ≤ encodeUtf8 b := by simp [comparePaths]

theorem comparePaths_trans (a b c : JsString) (h : comparePaths a b = true)
    (h' : comparePaths b c = true) : comparePaths a c = true :=
  comparePaths_iff.2 (List.le_trans (comparePaths_iff.1 h) (comparePaths_iff.1 h'))

theorem comparePaths_total (a b : JsString) : (comparePaths a b || comparePaths b a) = true := by
  rw [Bool.or_eq_true, comparePaths_iff, comparePaths_iff]
  exact List.le_total _ _

/-- **The order tells well-formed paths apart.** -/
theorem comparePaths_antisymm {a b : JsString} (ha : Utf8.WellFormed a) (hb : Utf8.WellFormed b)
    (h : comparePaths a b = true) (h' : comparePaths b a = true) : a = b :=
  Utf8.encode_inj ha hb (List.le_antisymm (comparePaths_iff.1 h) (comparePaths_iff.1 h'))

/-- **Sorting by well-formed paths**, of which none is there twice, forgets the order of a list. -/
theorem sort_eq_of_perm {α : Type} {path : α → JsString} {xs ys : List α}
    (hdistinct : (xs.map path).Nodup) (hpaths : ∀ x ∈ xs, Utf8.WellFormed (path x))
    (h : xs.Perm ys) :
    (xs.mergeSort fun a b => comparePaths (path a) (path b)) =
      ys.mergeSort fun a b => comparePaths (path a) (path b) := by
  have hsorted : ∀ zs : List α, (zs.mergeSort fun a b => comparePaths (path a) (path b)).Pairwise
      fun a b => comparePaths (path a) (path b) = true := fun zs =>
    List.pairwise_mergeSort (fun a b c => comparePaths_trans (path a) (path b) (path c))
      (fun a b => comparePaths_total (path a) (path b)) zs
  have hperm := ((List.mergeSort_perm xs fun a b => comparePaths (path a) (path b)).trans h).trans
    (List.mergeSort_perm ys fun a b => comparePaths (path a) (path b)).symm
  refine hperm.eq_of_pairwise (fun a b ha hb hab hba => ?_) (hsorted xs) (hsorted ys)
  have hax : a ∈ xs := (List.mergeSort_perm _ _).mem_iff.1 ha
  have hbx : b ∈ xs := h.mem_iff.2 ((List.mergeSort_perm _ _).mem_iff.1 hb)
  exact List.inj_on_of_nodup_map hdistinct hax hbx
    (comparePaths_antisymm (hpaths a hax) (hpaths b hbx) hab hba)

/-! ### The loop -/

theorem mismatchOf_eq_none {e a : Built.Entry} (he : Utf8.WellFormed e.path)
    (ha : Utf8.WellFormed a.path) : mismatchOf e a = none ↔ e = a := by
  constructor
  · intro h
    unfold mismatchOf at h
    split_ifs at h with hless hmore
    have hpath : e.path = a.path := Utf8.encode_inj he ha (List.le_antisymm hmore hless)
    match e, a with
    | .file path exec size sha256, .file path' exec' size' sha256' =>
      obtain rfl : path = path' := hpath
      dsimp only at h
      split_ifs at h with hexec hsize hsha
      rw [not_not.1 hexec, not_not.1 hsize, not_not.1 hsha]
    | .symlink path target, .symlink path' target' =>
      obtain rfl : path = path' := hpath
      dsimp only at h
      split_ifs at h with htarget
      rw [not_not.1 htarget]
    | .file .., .symlink .. => cases h
    | .symlink .., .file .. => cases h
  · rintro rfl
    unfold mismatchOf
    rw [if_neg (List.lt_irrefl _), if_neg (List.lt_irrefl _)]
    match e with
    | .file .. => simp
    | .symlink .. => simp

/-- **There is no mismatch just between equal lists**, for well-formed paths. -/
theorem firstMismatch_eq_none {es as : List Built.Entry}
    (hes : ∀ e ∈ es, Utf8.WellFormed e.path) (has : ∀ a ∈ as, Utf8.WellFormed a.path) :
    firstMismatch es as = none ↔ es = as := by
  induction es generalizing as with
  | nil =>
    match as with
    | [] => exact ⟨fun _ => rfl, fun _ => rfl⟩
    | a :: as => exact ⟨nofun, nofun⟩
  | cons e es ih =>
    match as with
    | [] => exact ⟨nofun, nofun⟩
    | a :: as =>
      obtain ⟨he, hes⟩ := List.forall_mem_cons.1 hes
      obtain ⟨ha, has⟩ := List.forall_mem_cons.1 has
      rw [List.cons.injEq, ← mismatchOf_eq_none he ha, ← ih hes has, firstMismatch]
      match mismatchOf e a with
      | none => exact ⟨fun h => ⟨rfl, h⟩, And.right⟩
      | some reason => exact ⟨nofun, nofun⟩

/-! ### Manifest and walk -/

theorem canonicalizeEntry_path (e : ManifestEntry) : (canonicalizeEntry e).path = e.path := by
  unfold canonicalizeEntry
  split_ifs
  · rfl
  · rfl

theorem canonical_eq (entries : List ManifestEntry) :
    canonical entries = sortEntries (entries.map canonicalizeEntry) := by
  refine List.map_mergeSort fun a _ b _ => ?_
  rw [canonicalizeEntry_path, canonicalizeEntry_path]

theorem map_path (entries : List ManifestEntry) :
    (entries.map canonicalizeEntry).map Built.Entry.path = entries.map ManifestEntry.path := by
  rw [List.map_map]
  exact List.map_congr_left fun e _ => canonicalizeEntry_path e

theorem ProperManifest.paths {entries : List ManifestEntry} (h : ProperManifest entries) :
    ∀ e ∈ entries.map canonicalizeEntry, Utf8.WellFormed e.path := by
  intro e he
  obtain ⟨x, hx, rfl⟩ := List.mem_map.1 he
  exact (canonicalizeEntry_path x).symm ▸ h.wellFormed x hx

variable {sha256 : List UInt8 → JsString} {ignoreRootGit : Bool} {tree : DirTree}

/-- Texts with slashes between them are a text. -/
theorem wellFormed_join (names : List (List UInt8)) :
    Utf8.WellFormed (JsString.joinSegments (names.map decodeUtf8)) := by
  induction names with
  | nil => exact Utf8.wellFormed_nil
  | cons n names ih =>
    match names with
    | [] => simpa [JsString.joinSegments] using Utf8.wellFormed_decode n
    | n' :: names =>
      have hslash : Utf8.WellFormed [JsString.slash] := Utf8.wellFormed_of_noSurrogate rfl
      rw [List.map_cons, join_cons (by simp)]
      exact (Utf8.wellFormed_decode n).append (hslash.append ih)

theorem walkDir_paths {L : List Built.Entry} (h : walkDir sha256 ignoreRootGit tree = .ok L) :
    ∀ e ∈ L, Utf8.WellFormed e.path := by
  intro e he
  obtain ⟨names, node, -, -, hentry⟩ := (walkDir_mem h e).1 he
  rw [entryAt_path hentry]
  exact wellFormed_join names

/-- **The answer is `ok` just when the walk ends with the manifest's entries**, in any order. -/
theorem verifies_iff_perm {entries : List ManifestEntry} (h : ProperManifest entries) :
    verifyManifestNoGit sha256 ignoreRootGit tree entries = .ok ↔
      ∃ L, walkDir sha256 ignoreRootGit tree = .ok L ∧
        (entries.map canonicalizeEntry).Perm L := by
  unfold verifyManifestNoGit
  match hwalk : walkDir sha256 ignoreRootGit tree with
  | .error r => exact ⟨nofun, fun ⟨L, hL, _⟩ => by cases hL⟩
  | .ok L =>
    have hexpected : ∀ e ∈ canonical entries, Utf8.WellFormed e.path := fun e he =>
      h.paths e ((List.mergeSort_perm _ _).mem_iff.1 (canonical_eq entries ▸ he))
    have hactual : ∀ a ∈ sortEntries L, Utf8.WellFormed a.path := fun a ha =>
      walkDir_paths hwalk a ((List.mergeSort_perm _ _).mem_iff.1 ha)
    have hsame : firstMismatch (canonical entries) (sortEntries L) = none ↔
        (entries.map canonicalizeEntry).Perm L := by
      rw [firstMismatch_eq_none hexpected hactual, canonical_eq]
      constructor
      · intro heq
        exact ((List.mergeSort_perm _ _).symm.trans (.of_eq heq)).trans (List.mergeSort_perm _ _)
      · exact sort_eq_of_perm ((map_path entries).symm ▸ h.distinct) h.paths
    constructor
    · intro hok
      refine ⟨L, rfl, hsame.1 ?_⟩
      match hmis : firstMismatch (canonical entries) (sortEntries L) with
      | none => rfl
      | some reason => simp [hmis] at hok
    · rintro ⟨L', hL', hperm⟩
      obtain rfl := Except.ok.inj hL'
      simp [hsame.2 hperm]

/-! ### Manifest and tree -/

/-- What has an entry: what stands at names that are text, and is a file or a link to a text. -/
theorem entryOf_isSome {names : List (List UInt8)} {node : DirNode} (hdir : ∀ b, node ≠ .dir b) :
    (entryOf sha256 names node).isSome = true ↔
      (∀ n ∈ names, IsText n) ∧ node ≠ .special ∧ node.targetIsText = true := by
  unfold entryOf
  by_cases h : (∀ n ∈ names, IsText n) ∧ node.targetIsText = true
  · rw [if_pos h]
    match node with
    | .file .. | .link .. => exact ⟨fun _ => ⟨h.1, nofun, h.2⟩, fun _ => rfl⟩
    | .special => exact ⟨nofun, fun hs => absurd rfl hs.2.1⟩
    | .dir b => exact absurd rfl (hdir b)
  · rw [if_neg h]
    exact ⟨nofun, fun hs => absurd ⟨hs.1, hs.2.2⟩ h⟩

theorem stateable_iff (sha256 : List UInt8 → JsString) : Stateable ignoreRootGit tree ↔
    ∀ names node, tree.Stands ignoreRootGit names node →
      (entryOf sha256 names node).isSome = true := by
  constructor
  · exact fun h names node hst => (entryOf_isSome (Stands.not_dir hst)).2 (h names node hst)
  · exact fun h names node hst => (entryOf_isSome (Stands.not_dir hst)).1 (h names node hst)

theorem entryOf_eq {names : List (List UInt8)} {node : DirNode} {e : Built.Entry}
    (h : entryOf sha256 names node = some e) : (∀ n ∈ names, IsText n) ∧
      entryAt sha256 (JsString.joinSegments (names.map decodeUtf8)) node = some e := by
  unfold entryOf at h
  split_ifs at h with htext
  exact ⟨htext.1, h⟩

/-- Where all that stands in the tree can be stated, a walk that ends finds its entries. -/
theorem walkDir_entries {L : List Built.Entry} (hstate : Stateable ignoreRootGit tree)
    (h : walkDir sha256 ignoreRootGit tree = .ok L) (e : Built.Entry) : e ∈ L ↔
      ∃ names node, tree.Stands ignoreRootGit names node ∧ entryOf sha256 names node = some e := by
  rw [walkDir_mem h]
  constructor
  · rintro ⟨names, node, hst, htext, hentry⟩
    refine ⟨names, node, hst, ?_⟩
    rw [entryOf, if_pos ⟨htext, (hstate names node hst).2.2⟩, hentry]
  · rintro ⟨names, node, hst, hentry⟩
    exact ⟨names, node, hst, entryOf_eq hentry⟩

/-- A canonical entry as it is given. -/
def given : Built.Entry → ManifestEntry
  | .file path exec size sha256 =>
    { path := path, type := .str (js "file"), exec := .bool exec, size := size, sha256 := sha256 }
  | .symlink path target => { path := path, type := .str (js "symlink"), target := target }

theorem canonicalizeEntry_given (e : Built.Entry) : canonicalizeEntry (given e) = e := by
  match e with
  | .file path exec size sha256 => cases exec <;> rfl
  | .symlink path target => rfl

theorem map_given (es : List Built.Entry) : (es.map given).map canonicalizeEntry = es := by
  rw [List.map_map]
  exact List.map_id'' canonicalizeEntry_given es

/-- Entries of distinct and well-formed paths are those of a manifest. -/
theorem properManifest_given {es : List Built.Entry} (h : (es.map Built.Entry.path).Nodup)
    (hpaths : ∀ e ∈ es, Utf8.WellFormed e.path) : ProperManifest (es.map given) where
  distinct := by rwa [← map_path, map_given]
  wellFormed := by
    intro x hx
    obtain ⟨e, he, rfl⟩ := List.mem_map.1 hx
    rw [← canonicalizeEntry_path, canonicalizeEntry_given]
    exact hpaths e he

theorem stands_segments {names : List (List UInt8)} {node : DirNode}
    (h : tree.Stands ignoreRootGit names node) :
    names.map decodeUtf8 ≠ [] ∧ ∀ s ∈ names.map decodeUtf8, IsSegment s := by
  constructor
  · cases h with
    | here => simp
    | inside => simp
  · intro s hs
    obtain ⟨n, hn, rfl⟩ := List.mem_map.1 hs
    exact (Stands.proper h (tree.proper.listed ignoreRootGit []) n hn).isSegment

/-- Names that are text are determined by their path. -/
theorem names_eq {names names' : List (List UInt8)} {node node' : DirNode}
    (hst : tree.Stands ignoreRootGit names node) (hst' : tree.Stands ignoreRootGit names' node')
    (htext : ∀ n ∈ names, IsText n) (htext' : ∀ n ∈ names', IsText n)
    (h : JsString.joinSegments (names.map decodeUtf8) =
      JsString.joinSegments (names'.map decodeUtf8)) : names = names' := by
  have hback : ∀ ns : List (List UInt8), (∀ n ∈ ns, IsText n) →
      (ns.map decodeUtf8).map encodeUtf8 = ns := by
    intro ns hns
    rw [List.map_map]
    exact (List.map_congr_left hns).trans (List.map_id ns)
  obtain ⟨hne, hsegs⟩ := stands_segments hst
  obtain ⟨hne', hsegs'⟩ := stands_segments hst'
  rw [← hback names htext, join_inj hsegs hsegs' hne hne' h, hback names' htext']

/-- Entries of the tree with one path are the same. -/
theorem entry_eq {names names' : List (List UInt8)} {node node' : DirNode} {e e' : Built.Entry}
    (hst : tree.Stands ignoreRootGit names node) (hst' : tree.Stands ignoreRootGit names' node')
    (h : entryOf sha256 names node = some e) (h' : entryOf sha256 names' node' = some e')
    (hpath : e.path = e'.path) : e = e' := by
  obtain ⟨htext, hentry⟩ := entryOf_eq h
  obtain ⟨htext', hentry'⟩ := entryOf_eq h'
  rw [entryAt_path hentry, entryAt_path hentry'] at hpath
  obtain rfl := names_eq hst hst' htext htext' hpath
  obtain rfl := Stands.unique hst hst' (tree.proper.listed ignoreRootGit [])
  exact Option.some.inj (h.symm.trans h')

/-- **A tree that can be stated has its manifest.** -/
theorem exists_manifest (sha256 : List UInt8 → JsString) (h : Stateable ignoreRootGit tree) :
    ∃ entries, ProperManifest entries ∧ SameEntries sha256 ignoreRootGit tree entries := by
  have hstands := stands_finite (tree.proper.listed ignoreRootGit [])
  have hfinite : {e | ∃ names node, tree.Stands ignoreRootGit names node ∧
      entryOf sha256 names node = some e}.Finite := by
    have himage := hstands.image fun x => entryOf sha256 x.1 x.2
    refine (himage.preimage (Option.some_injective _).injOn).subset ?_
    rintro e ⟨names, node, hst, hentry⟩
    exact ⟨(names, node), hst, hentry⟩
  have hmem : ∀ e, e ∈ hfinite.toFinset.toList ↔ ∃ names node,
      tree.Stands ignoreRootGit names node ∧ entryOf sha256 names node = some e := by
    intro e
    rw [Finset.mem_toList, Set.Finite.mem_toFinset]
    rfl
  refine ⟨hfinite.toFinset.toList.map given, properManifest_given ?_ fun e he => ?_, ?_, ?_⟩
  · refine List.Nodup.map_on (fun e he e' he' hpath => ?_) (Finset.nodup_toList _)
    obtain ⟨names, node, hst, hentry⟩ := (hmem e).1 he
    obtain ⟨names', node', hst', hentry'⟩ := (hmem e').1 he'
    exact entry_eq hst hst' hentry hentry' hpath
  · obtain ⟨names, node, -, hentry⟩ := (hmem e).1 he
    rw [entryAt_path (entryOf_eq hentry).2]
    exact wellFormed_join names
  · exact (stateable_iff sha256).1 h
  · intro e
    rw [map_given]
    exact hmem e

/-! ### When the check is right -/

/-- **The check is right for a tree**: of the manifests with distinct and well-formed paths it
accepts just those with the tree's entries. -/
def ChecksRight (sha256 : List UInt8 → JsString) (ignoreRootGit : Bool) (tree : DirTree) : Prop :=
  ∀ entries, ProperManifest entries →
    (verifyManifestNoGit sha256 ignoreRootGit tree entries = .ok ↔
      SameEntries sha256 ignoreRootGit tree entries)

/-- An accepted manifest has been read from a tree that leads to each thing once. -/
theorem readsOnce_of_ok {entries : List ManifestEntry} (h : ProperManifest entries)
    (hok : verifyManifestNoGit sha256 ignoreRootGit tree entries = .ok) :
    ReadsOnce (listed ignoreRootGit [] tree.entries) := by
  obtain ⟨L, hL, hperm⟩ := (verifies_iff_perm h).1 hok
  refine (walkDir_iff sha256 ignoreRootGit tree).1 ⟨L, hL, ?_⟩
  rw [← (hperm.map _).nodup_iff, map_path]
  exact h.distinct

/-- **On such a tree, the manifest that is accepted is the tree's.** -/
theorem ok_iff_sameEntries {entries : List ManifestEntry} (h : ProperManifest entries)
    (honce : ReadsOnce (listed ignoreRootGit [] tree.entries))
    (hstate : Stateable ignoreRootGit tree) :
    verifyManifestNoGit sha256 ignoreRootGit tree entries = .ok ↔
      SameEntries sha256 ignoreRootGit tree entries := by
  obtain ⟨L, hL, hnodup⟩ := (walkDir_iff sha256 ignoreRootGit tree).2 honce
  have hdistinct : (entries.map canonicalizeEntry).Nodup :=
    List.Nodup.of_map _ ((map_path entries).symm ▸ h.distinct)
  rw [verifies_iff_perm h]
  constructor
  · rintro ⟨L', hL', hperm⟩
    refine ⟨(stateable_iff sha256).1 hstate, fun e => ?_⟩
    rw [hperm.mem_iff, walkDir_entries hstate hL']
  · rintro ⟨-, hsame⟩
    have hwalked : L.Nodup := List.Nodup.of_map _ hnodup
    refine ⟨L, hL, (List.perm_ext_iff_of_nodup hdistinct hwalked).2 fun e => ?_⟩
    rw [hsame, walkDir_entries hstate hL]

/-- **The check is right just for the trees** on which reading the names as text leads to each thing
once if and only if all that stands there can be stated. -/
theorem checksRight_iff : ChecksRight sha256 ignoreRootGit tree ↔
    (ReadsOnce (listed ignoreRootGit [] tree.entries) ↔ Stateable ignoreRootGit tree) := by
  constructor
  · intro hright
    constructor
    · intro honce
      obtain ⟨L, hL, hnodup⟩ := (walkDir_iff sha256 ignoreRootGit tree).2 honce
      have hproper := properManifest_given hnodup (walkDir_paths hL)
      have hok := (verifies_iff_perm hproper).2 ⟨L, hL, .of_eq (map_given L)⟩
      exact (stateable_iff sha256).2 ((hright _ hproper).1 hok).1
    · intro hstate
      obtain ⟨entries, hproper, hsame⟩ := exists_manifest sha256 hstate
      exact readsOnce_of_ok hproper ((hright entries hproper).2 hsame)
  · intro hiff entries hproper
    by_cases hstate : Stateable ignoreRootGit tree
    · exact ok_iff_sameEntries hproper (hiff.2 hstate) hstate
    · constructor
      · exact fun hok => absurd (hiff.1 (readsOnce_of_ok hproper hok)) hstate
      · exact fun hsame => absurd ((stateable_iff sha256).2 hsame.1) hstate

/-! ### The hash of a manifest -/

/-- **The hash does not depend on the order of the entries.** -/
theorem manifestHashOf_perm (sha256 : List UInt8 → JsString) {M M' : List ManifestEntry}
    (h : ProperManifest M) (hperm : M.Perm M') :
    manifestHashOf sha256 M = manifestHashOf sha256 M' := by
  have hsorted : sortManifest M = sortManifest M' :=
    sort_eq_of_perm h.distinct h.wellFormed hperm
  rw [manifestHashOf, canonical, hsorted]
  rfl

/-- **An entry's text, and what follows it, can be told.** -/
theorem entryText_inj {e e' : Built.Entry} {r r' : JsString}
    (h : entryText e ++ r = entryText e' ++ r') : e = e' ∧ r = r' := by
  match e, e' with
  | .file path exec size sha256, .file path' exec' size' sha256' =>
    simp only [entryText, List.append_assoc, List.append_right_inj] at h
    obtain ⟨rfl, hfields⟩ := JsonText.quote_inj h
    simp only [List.append_right_inj] at hfields
    have hexec : exec = exec' := by
      match exec, exec' with
      | true, true => rfl
      | false, false => rfl
      | true, false => cases hfields
      | false, true => cases hfields
    subst hexec
    -- no digit follows the size
    have hcomma : ∀ t : JsString, js ",\"sha256\":" ++ t = 0x2c :: (js "\"sha256\":" ++ t) :=
      fun t => rfl
    simp only [List.append_right_inj, hcomma] at hfields
    obtain ⟨rfl, hhash⟩ := JsonText.decimalText_inj (by decide) hfields
    obtain ⟨rfl, hend⟩ := JsonText.quote_inj (List.append_cancel_left hhash)
    exact ⟨rfl, List.append_cancel_left hend⟩
  | .symlink path target, .symlink path' target' =>
    simp only [entryText, List.append_assoc, List.append_right_inj] at h
    obtain ⟨rfl, hfields⟩ := JsonText.quote_inj h
    simp only [List.append_right_inj] at hfields
    obtain ⟨rfl, hend⟩ := JsonText.quote_inj hfields
    exact ⟨rfl, List.append_cancel_left hend⟩
  | .file path .., .symlink path' .. | .symlink path .., .file path' .. =>
    simp only [entryText, List.append_assoc, List.append_right_inj] at h
    obtain ⟨-, hfields⟩ := JsonText.quote_inj h
    cases List.append_cancel_left hfields

theorem moreText_inj {es es' : List Built.Entry} (h : moreText es = moreText es') : es = es' := by
  induction es generalizing es' with
  | nil =>
    match es' with
    | [] => rfl
    | e' :: es' => cases h
  | cons e es ih =>
    match es' with
    | [] => cases h
    | e' :: es' =>
      obtain ⟨rfl, hrest⟩ := entryText_inj (List.append_cancel_left h)
      rw [ih hrest]

/-- **The text of the entries determines them.** -/
theorem manifestText_inj {es es' : List Built.Entry} (h : manifestText es = manifestText es') :
    es = es' := by
  match es, es' with
  | [], [] => rfl
  | [], e' :: es' =>
    match e' with
    | .file .. => cases h
    | .symlink .. => cases h
  | e :: es, [] =>
    match e with
    | .file .. => cases h
    | .symlink .. => cases h
  | e :: es, e' :: es' =>
    obtain ⟨rfl, hrest⟩ := entryText_inj (List.append_cancel_left h)
    rw [moreText_inj hrest]

theorem wellFormed_entryText (e : Built.Entry) : Utf8.WellFormed (entryText e) := by
  have hlit : ∀ s : JsString, Utf8.noSurrogate s = true → ∀ t, Utf8.WellFormed t →
      Utf8.WellFormed (s ++ t) := fun s hs t ht => (Utf8.wellFormed_of_noSurrogate hs).append ht
  have hclose : Utf8.WellFormed (js "\x7d") := Utf8.wellFormed_of_noSurrogate rfl
  match e with
  | .file path exec size sha256 =>
    refine hlit _ rfl _ ((JsonText.wellFormed_quote path).append ?_)
    refine hlit _ rfl _ (hlit _ rfl _ (hlit _ ?_ _ (hlit _ rfl _ ?_)))
    · cases exec <;> rfl
    · refine (JsonText.wellFormed_decimalText size).append (hlit _ rfl _ ?_)
      exact (JsonText.wellFormed_quote sha256).append hclose
  | .symlink path target =>
    refine hlit _ rfl _ ((JsonText.wellFormed_quote path).append ?_)
    refine hlit _ rfl _ (hlit _ rfl _ ?_)
    exact (JsonText.wellFormed_quote target).append hclose

theorem wellFormed_moreText (es : List Built.Entry) : Utf8.WellFormed (moreText es) := by
  induction es with
  | nil => exact Utf8.wellFormed_of_noSurrogate rfl
  | cons e es ih =>
    have hcomma : Utf8.WellFormed (js ",") := Utf8.wellFormed_of_noSurrogate rfl
    exact hcomma.append ((wellFormed_entryText e).append ih)

theorem wellFormed_manifestText (es : List Built.Entry) :
    Utf8.WellFormed (manifestText es) := by
  match es with
  | [] => exact Utf8.wellFormed_of_noSurrogate rfl
  | e :: es =>
    have hopen : Utf8.WellFormed (js "[") := Utf8.wellFormed_of_noSurrogate rfl
    exact hopen.append ((wellFormed_entryText e).append (wellFormed_moreText es))

/-- **Where no two texts have one hash, manifests of one hash have the same entries.** -/
theorem manifestHashOf_inj {sha256 : List UInt8 → JsString} (hsha : Function.Injective sha256)
    {M M' : List ManifestEntry} (h : manifestHashOf sha256 M = manifestHashOf sha256 M') :
    canonical M = canonical M' :=
  manifestText_inj (Utf8.encode_inj (wellFormed_manifestText _) (wellFormed_manifestText _)
    (hsha h))

/-! ### The check and the hash -/

/-- **What `verifyManifestNoGit` and `manifestHashOf` say of a tree and of manifests.**  The check
accepts just the manifests of the tree's entries exactly where reading the tree's names as text
leads to each thing once if and only if all that stands in the tree can be stated.  The hash is that
of the canonical entries, in whatever order they are given. -/
theorem verifyManifestNoGit_iff (sha256 : List UInt8 → JsString) (ignoreRootGit : Bool)
    (tree : DirTree) :
    (ChecksRight sha256 ignoreRootGit tree ↔
      (ReadsOnce (listed ignoreRootGit [] tree.entries) ↔ Stateable ignoreRootGit tree)) ∧
    (∀ M M', ProperManifest M → M.Perm M' →
      manifestHashOf sha256 M = manifestHashOf sha256 M') ∧
    (Function.Injective sha256 → ∀ M M',
      manifestHashOf sha256 M = manifestHashOf sha256 M' → canonical M = canonical M') := by
  refine ⟨checksRight_iff, ?_, ?_⟩
  · exact fun M M' h hperm => manifestHashOf_perm sha256 h hperm
  · exact fun hsha M M' h => manifestHashOf_inj hsha h

/-- The name that a byte is read as which is no UTF-8. -/
def replacedName : List UInt8 := [0xef, 0xbf, 0xbd]

/-- A file whose name is no UTF-8, beside the empty directory that the name is read as. -/
def strayFile : DirTree where
  entries := [([0xff], .file false []), (replacedName, .dir [])]
  depth := 2
  proper := by
    have hempty : ProperDir 1 [] := .mk (by decide) nofun nofun
    refine .mk (by decide) ?_ ?_
    · rw [List.forall_mem_cons, List.forall_mem_singleton]
      exact ⟨⟨by decide, by decide, by decide, by decide⟩,
        ⟨by decide, by decide, by decide, by decide⟩⟩
    · intro n b hb
      simp only [List.mem_cons, Prod.mk.injEq, reduceCtorEq, and_false, false_or,
        List.not_mem_nil, or_false, DirNode.dir.injEq] at hb
      exact hb.2 ▸ hempty

/-- Both names are read as that of the directory, which is walked twice. -/
theorem strayFile_walk : walkDir hexText false strayFile = .ok [] := by
  have hempty : recurse hexText false 1 [] (decodeUtf8 replacedName) = .ok [] := by
    simp [recurse, pure, Except.pure, Except.map]
  have hsorted : ((strayFile.entries.map fun e => decodeUtf8 e.1).mergeSort fun a b => a ≤ b) =
      [decodeUtf8 replacedName, decodeUtf8 replacedName] :=
    List.mergeSort_of_pairwise (by decide)
  have hvisit : visitName hexText (recurse hexText false 1) strayFile.entries []
      (decodeUtf8 replacedName) = .ok [] := hempty
  show recurse hexText false (1 + 1) strayFile.entries [] = .ok []
  rw [recurse, hsorted]
  simp [hvisit, pure, Except.pure, Except.map, bind, Except.bind]

/-- **The empty manifest is accepted for a tree with a file in it.** -/
theorem strayFile_verifies :
    ProperManifest [] ∧ verifyManifestNoGit hexText false strayFile [] = .ok ∧
      ¬ SameEntries hexText false strayFile [] := by
  have hproper : ProperManifest [] := ⟨by decide, nofun⟩
  refine ⟨hproper, (verifies_iff_perm hproper).2 ⟨[], strayFile_walk, .nil⟩, ?_⟩
  rintro ⟨hall, -⟩
  have hst : strayFile.Stands false [[0xff]] (.file false []) :=
    .here (List.mem_cons_self ..) nofun
  exact absurd (hall _ _ hst) (by decide)

end Stream
end LaneBroker
