/-
# A stored tree, restored elsewhere

The copy that `restore` makes of a published tree, against what it is to be: the installed
tree, as it is laid out in the store, with each recorded text rewritten by one substitution
from left to right of the longest old path by the new path of its role (`relocated`).  The two
rewritings between which the placeholders stand are one substitution (`rewritten_back`), and
with the paths unchanged nothing can fail.  One thing is lost on the way: the target of a link
is read as a string, and a target that is not UTF-8 is not written back (`relocates_iff`).
-/

import LaneBroker.Caches.Surveys

namespace LaneBroker
namespace Caches
namespace DepsStore

open LaneBroker.Basis
open LaneBroker.Basis.Substitution (cut substitute)

/-! ### What a relocated copy is to be -/

/-- The old paths, as bytes. -/
def oldPaths (roles : List (Role × InstallPath)) : List (List UInt8) :=
  roles.map fun r => r.2.bytes

/-- The new path of the role of an old path. -/
def newPath (roles : List (Role × InstallPath)) (newPaths : Role → Option PathText)
    (old : List UInt8) : List UInt8 :=
  ((roles.find? fun r => r.2.bytes == old).bind fun r => newPaths r.1).elim [] fun p => p.bytes

/-- **A text with each old path replaced by the new path of its role**, in one pass from left to
right, the longest where several begin. -/
def relocated (roles : List (Role × InstallPath)) (newPaths : Role → Option PathText)
    (text : List UInt8) : List UInt8 :=
  substitute (oldPaths roles) (newPath roles newPaths) text

/-- The new paths that are the old ones. -/
def unchanged (roles : List (Role × InstallPath)) (role : Role) : Option PathText :=
  (roles.find? fun r => r.1 = role).map fun r => r.2.toPathText

/-- The modes without the write bits. -/
def Node.unwritten : Node → Node
  | .file mode content => .file (mode &&& 0o7555) content
  | .dir mode => .dir (mode &&& 0o7555)
  | node => node

/-- An entry with its mode without the write bits. -/
def Entry.unwritten (e : Entry) : Entry := ⟨e.path, e.node.unwritten⟩

/-- The text of a file or a link. -/
def Node.text : Node → Option (List UInt8)
  | .file _ content => some content
  | .symlink target => some target
  | .dir _ | .other => none

/-- An entry with its text rewritten if it was recorded. -/
def relocatedEntry (record : Relocation) (rewrite : List UInt8 → List UInt8) (e : Entry) : Entry :=
  ⟨e.path, match e.node with
    | .file mode content =>
      .file mode (if record.entries.contains (e.path, .text) then rewrite content else content)
    | .symlink target =>
      .symlink (if record.entries.contains (e.path, .symlink) then rewrite target else target)
    | node => node⟩

/-- **A stored tree relocates.**  Whatever is restored of it is the installed tree, as it is laid
out, with the recorded texts relocated, up to write bits and with no placeholder left; and with the
paths unchanged a copy is restored, and it is the installed tree. -/
structure Relocates (i : Installed) (roles : List (Role × InstallPath)) (record : Relocation)
    (stored : List Entry) : Prop where
  rewritten : ∀ newPaths cloned restored, restore stored record newPaths cloned = .ok restored →
    restored.map Entry.unwritten =
        (i.layout.map (relocatedEntry record (relocated roles newPaths))).map Entry.unwritten ∧
      ∀ e ∈ restored, ∀ text, e.node.text = some text → ¬ tokenTail record.nonce <:+: text
  unchanged : ∀ cloned, ∃ restored, restore stored record (unchanged roles) cloned = .ok restored ∧
    restored.map Entry.unwritten = i.layout.map Entry.unwritten

/-! ### The two rewritings -/

section texts

variable {i : Installed} {roles : List (Role × InstallPath)} {record : Relocation} {scan : Scan}
  {accept : List UInt8 → Nat → Nat → Bool} {entry : Rel × Kind} {text : List UInt8}

/-- The bytes of the paths of some groups. -/
def bytesOf (groups : List Group) : List (List UInt8) := groups.map fun g => g.path.bytes

/-- A text as it is stored. -/
def templated (record : Relocation) (entry : Rel × Kind) (accept : List UInt8 → Nat → Nat → Bool)
    (text : List UInt8) : List UInt8 :=
  if record.entries.contains entry then
    (rewritePrefixes text (placeholderPairs record) accept).getD []
  else text

/-- What the restoring pair of a group is when there is one. -/
def restoredPair (nonce : Nonce) (newPaths : Role → Option PathText) (g : Group) : Pair :=
  ⟨tokenFor g.roles nonce, (g.roles.head?.bind newPaths).elim [] fun p => p.bytes⟩

theorem restorePair_ok {nonce : Nonce} {newPaths : Role → Option PathText} {g : Group} {p : Pair}
    (h : restorePair nonce newPaths g = .ok p) : p = restoredPair nonce newPaths g := by
  unfold restorePair at h
  obtain ⟨targets, htargets, h⟩ := Results.bind_ok h
  cases hroles : g.roles with
  | nil =>
    rw [hroles] at htargets
    obtain rfl := Except.ok.inj htargets
    cases h
  | cons role rest =>
    rw [hroles, List.mapM_cons] at htargets
    obtain ⟨target, htarget, htargets⟩ := Results.bind_ok htargets
    obtain ⟨others, -, htargets⟩ := Results.bind_ok htargets
    obtain rfl := Except.ok.inj htargets
    dsimp only at h
    split_ifs at h
    unfold newPathOf at htarget
    split at htarget
    · cases htarget
    · rename_i path hpath
      split_ifs at htarget
      obtain rfl := Except.ok.inj htarget
      rw [← Except.ok.inj h, restoredPair, hroles, List.head?_cons, Option.bind_some, hpath]
      rfl

theorem restorePair_eq {nonce : Nonce} {newPaths : Role → Option PathText} {g : Group}
    {path : PathText} (hne : g.roles ≠ []) (hgiven : path.bytes ≠ [])
    (h : ∀ role ∈ g.roles, newPaths role = some path) :
    restorePair nonce newPaths g = .ok (restoredPair nonce newPaths g) := by
  have htargets : g.roles.mapM (newPathOf newPaths) = .ok (g.roles.map fun _ => path) := by
    refine Results.mapM_eq_ok fun role hrole => ?_
    rw [newPathOf, h role hrole]
    exact if_neg hgiven
  obtain ⟨role, rest, hroles⟩ := List.exists_cons_of_ne_nil hne
  rw [hroles] at htargets h
  rw [restorePair, restoredPair, hroles, htargets, List.head?_cons, Option.bind_some,
    h role List.mem_cons_self]
  simp [bind, Except.bind]

theorem nodup_bytesOf {groups : List Group} (h : (groups.map Group.path).Nodup) :
    (bytesOf groups).Nodup := by
  have hbytes : bytesOf groups = (groups.map Group.path).map fun p => p.bytes := by
    rw [bytesOf, List.map_map]
    rfl
  rw [hbytes]
  exact h.map fun _ _ => InstallPath.ext_bytes

variable (hv : Vouched i roles record) (hroles : (roles.map Prod.fst).Nodup)

include hv in
theorem Vouched.nodup_prefixes : (record.prefixes.map Group.path).Nodup :=
  (hv.prefixes.map _).nodup (grouped_groupsOf roles).distinct

/-- The pairs that publishing rewrites with. -/
theorem placeholderPairs_old (record : Relocation) :
    (placeholderPairs record).map Pair.old = bytesOf record.prefixes := by
  rw [placeholderPairs, List.map_map]
  rfl

include hv in
theorem newOf_placeholder {g : Group} (hg : g ∈ record.prefixes) :
    newOf (placeholderPairs record) g.path.bytes = tokenFor g.roles record.nonce := by
  have hnodup : ((placeholderPairs record).map Pair.old).Nodup :=
    placeholderPairs_old record ▸ nodup_bytesOf hv.nodup_prefixes
  exact newOf_of_mem hnodup (p := ⟨g.path.bytes, tokenFor g.roles record.nonce⟩)
    (List.mem_map.2 ⟨g, hg, rfl⟩)

/-- The pairs that restoring rewrites with. -/
def restorePairs (record : Relocation) (newPaths : Role → Option PathText) : List Pair :=
  record.prefixes.map (restoredPair record.nonce newPaths)

theorem restorePairs_old (record : Relocation) (newPaths : Role → Option PathText) :
    (restorePairs record newPaths).map Pair.old =
      (record.prefixes.map fun g => bodyOf g.roles record.nonce).map (Substitution.token mark) := by
  rw [restorePairs, List.map_map, List.map_map]
  exact List.map_congr_left fun g _ => tokenFor_eq g.roles record.nonce

include hv hroles in
theorem nodup_restorePairs (newPaths : Role → Option PathText) :
    ((restorePairs record newPaths).map Pair.old).Nodup := by
  rw [restorePairs, List.map_map]
  refine List.Nodup.map_on (fun g hg g' hg' heq => ?_) (List.Nodup.of_map _ hv.nodup_prefixes)
  exact group_of_token (grouped_groupsOf roles) hroles (hv.prefixes.subset hg)
    (hv.prefixes.subset hg') heq

include hv hroles in
/-- A placeholder comes back as the new path of the role of the old one. -/
theorem newOf_token (newPaths : Role → Option PathText) {g : Group} (hg : g ∈ record.prefixes) :
    newOf (restorePairs record newPaths) (tokenFor g.roles record.nonce) =
      newPath roles newPaths g.path.bytes := by
  have hmem : restoredPair record.nonce newPaths g ∈ restorePairs record newPaths :=
    List.mem_map_of_mem hg
  have hnew := newOf_of_mem (nodup_restorePairs hv hroles newPaths) hmem
  rw [show (restoredPair record.nonce newPaths g).old = tokenFor g.roles record.nonce from rfl]
    at hnew
  have hsharing := ((grouped_groupsOf roles).sharing g (hv.prefixes.subset hg)).1
  have hfind : (roles.find? fun r => r.2.bytes == g.path.bytes) =
      (roles.filter fun r => r.2 = g.path).head? := by
    rw [List.head?_filter]
    congr 1
    funext r
    rw [Bool.eq_iff_iff, beq_iff_eq, decide_eq_true_iff]
    exact ⟨InstallPath.ext_bytes, fun h => by rw [h]⟩
  rw [hnew, newPath, hfind, restoredPair, hsharing, List.head?_map, Option.bind_map]
  rfl

include hv in
/-- The cuts of a text by all old paths, by the paths of the groups and by those found in it. -/
theorem cut_eq (hscan : ∀ g ∈ groupsOf roles, g.path ∈ scan.found → g ∈ record.prefixes)
    (hs : Sound (groupsOf roles) record.nonce scan accept entry text) :
    cut (bytesOf (groupsOf roles)) text = cut (bytesOf record.prefixes) text ∧
      cut (oldPaths roles) text = cut (bytesOf record.prefixes) text := by
  have hgrouped := grouped_groupsOf roles
  have hfound : ∀ w, w <:+: text →
      (w ∈ bytesOf (groupsOf roles) ↔ w ∈ bytesOf record.prefixes) := by
    intro w hw
    constructor
    · intro hmem
      obtain ⟨g, hg, rfl⟩ := List.mem_map.1 hmem
      exact List.mem_map.2 ⟨g, hscan g hg (hs.found g hg hw), rfl⟩
    · intro hmem
      obtain ⟨g, hg, rfl⟩ := List.mem_map.1 hmem
      exact List.mem_map.2 ⟨g, hv.prefixes.subset hg, rfl⟩
  have hall : ∀ w, w ∈ oldPaths roles ↔ w ∈ bytesOf (groupsOf roles) := by
    intro w
    constructor
    · intro hmem
      obtain ⟨r, hr, rfl⟩ := List.mem_map.1 hmem
      obtain ⟨g, hg, hpath⟩ := hgrouped.covers r hr
      exact List.mem_map.2 ⟨g, hg, by rw [hpath]⟩
    · intro hmem
      obtain ⟨g, hg, rfl⟩ := List.mem_map.1 hmem
      obtain ⟨role, hrole⟩ := List.exists_mem_of_ne_nil _ (hgrouped.sharing g hg).2
      exact List.mem_map.2 ⟨_, (mem_roles_iff hgrouped hg).1 hrole, rfl⟩
  exact ⟨Substitution.cut_congr hfound,
    Substitution.cut_congr fun w hw => (hall w).trans (hfound w hw)⟩

/-- The text with placeholders. -/
def withPlaceholders (record : Relocation) (text : List UInt8) : List UInt8 :=
  substitute (bytesOf record.prefixes) (newOf (placeholderPairs record)) text

include hv in
/-- **A text is stored with placeholders**, recorded or not. -/
theorem templated_eq (hentries : record.entries = scan.entries)
    (hscan : ∀ g ∈ groupsOf roles, g.path ∈ scan.found → g ∈ record.prefixes)
    (hs : Sound (groupsOf roles) record.nonce scan accept entry text) :
    templated record entry accept text = withPlaceholders record text := by
  have hcut := (cut_eq hv hscan hs).1
  unfold templated
  split_ifs with hrecorded
  · have hold : ∀ p ∈ placeholderPairs record, p.old ≠ [] := by
      intro p hp
      obtain ⟨g, -, rfl⟩ := List.mem_map.1 hp
      exact g.path.given
    have hacc := hs.accepted
    rw [show (groupsOf roles).map (fun g => g.path.bytes) = bytesOf (groupsOf roles) from rfl,
      hcut] at hacc
    rw [rewritePrefixes_eq hold (placeholderPairs_old record ▸ nodup_bytesOf hv.nodup_prefixes),
      placeholderPairs_old, if_pos hacc]
    rfl
  · have hunnamed : ∀ g ∈ groupsOf roles, ¬ g.path.bytes <:+: text := by
      refine hs.recorded.resolve_right fun hmem => hrecorded ?_
      rw [hentries]
      exact List.contains_iff_mem.2 hmem
    refine (Substitution.substitute_of_not_infix fun w hw => ?_).symm
    obtain ⟨g, hg, rfl⟩ := List.mem_map.1 hw
    exact hunnamed g (hv.prefixes.subset hg)

include hv hroles in
/-- **The placeholders come back as new paths**, in one substitution of the old ones. -/
theorem rewritten_back
    (hscan : ∀ g ∈ groupsOf roles, g.path ∈ scan.found → g ∈ record.prefixes)
    (hs : Sound (groupsOf roles) record.nonce scan accept entry text)
    (hstrict : accepted strictOccurrence text 0 (cut (bytesOf (groupsOf roles)) text) = true)
    (newPaths : Role → Option PathText) :
    rewritePrefixes (withPlaceholders record text) (restorePairs record newPaths) anywhere =
      some (relocated roles newPaths text) := by
  obtain ⟨hcut, hcutall⟩ := cut_eq hv hscan hs
  have hold : ∀ p ∈ restorePairs record newPaths, p.old ≠ [] := by
    intro p hp
    obtain ⟨g, -, rfl⟩ := List.mem_map.1 hp
    rw [restoredPair, tokenFor_eq]
    exact Substitution.token_ne_nil _ _
  have hput : ∀ w ∈ bytesOf record.prefixes,
      ∃ b ∈ record.prefixes.map fun g => bodyOf g.roles record.nonce,
        newOf (placeholderPairs record) w = Substitution.token mark b := by
    intro w hw
    obtain ⟨g, hg, rfl⟩ := List.mem_map.1 hw
    exact ⟨_, List.mem_map_of_mem hg, by rw [newOf_placeholder hv hg, tokenFor_eq]⟩
  have hdelimited : Substitution.Delimited Leads (cut (bytesOf record.prefixes) text) := by
    rw [← hcut]
    refine @delimited_of_accepted text 0 _ ?_ hstrict
    rw [Substitution.render_cut, List.drop_zero]
  have hback : substitute ((record.prefixes.map fun g => bodyOf g.roles record.nonce).map
        (Substitution.token mark)) (newOf (restorePairs record newPaths))
        (substitute (bytesOf record.prefixes) (newOf (placeholderPairs record)) text) =
      substitute (bytesOf record.prefixes) (fun w => newOf (restorePairs record newPaths)
        (newOf (placeholderPairs record) w)) text := Substitution.substitute_token
    (fun b hb => by
      obtain ⟨g, -, rfl⟩ := List.mem_map.1 hb
      exact mark_not_mem_bodyOf _ _)
    (fun b hb => by
      obtain ⟨g, -, rfl⟩ := List.mem_map.1 hb
      exact not_leads_token _ _) hput hdelimited
    (fun b hb hin => by
      obtain ⟨g, -, rfl⟩ := List.mem_map.1 hb
      rw [← tokenFor_eq] at hin
      exact hs.fresh ((tail_infix_tokenFor _ _).trans hin))
  rw [rewritePrefixes_eq hold (nodup_restorePairs hv hroles newPaths), restorePairs_old,
    if_pos (accepted_anywhere _ _ _), withPlaceholders, hback, relocated, substitute, substitute,
    hcutall]
  congr 1
  refine Substitution.render_congr fun w hw => ?_
  obtain ⟨g, hg, rfl⟩ := List.mem_map.1 (Substitution.mem_of_word_mem hw)
  rw [newOf_placeholder hv hg, newOf_token hv hroles newPaths hg]

/-- A text that names no old path is relocated as it is. -/
theorem relocated_of_unnamed (h : ∀ g ∈ groupsOf roles, ¬ g.path.bytes <:+: text)
    (newPaths : Role → Option PathText) : relocated roles newPaths text = text := by
  refine Substitution.substitute_of_not_infix fun w hw => ?_
  obtain ⟨r, hr, rfl⟩ := List.mem_map.1 hw
  obtain ⟨g, hg, hpath⟩ := (grouped_groupsOf roles).covers r hr
  rw [← hpath]
  exact h g hg

include hroles in
theorem unchanged_of_mem {r : Role × InstallPath} (hr : r ∈ roles) :
    unchanged roles r.1 = some r.2.toPathText := by
  unfold unchanged
  cases hfind : roles.find? fun q => q.1 = r.1 with
  | none =>
    have := List.find?_eq_none.1 hfind r hr
    simp at this
  | some q =>
    have hq := List.mem_of_find?_eq_some hfind
    have hrole : q.1 = r.1 := by simpa using List.find?_some hfind
    rw [List.inj_on_of_nodup_map hroles hq hr hrole]
    rfl

include hroles in
/-- **With the paths unchanged a text is relocated as it is.** -/
theorem relocated_unchanged (text : List UInt8) :
    relocated roles (unchanged roles) text = text := by
  have hput : ∀ w, .word w ∈ cut (oldPaths roles) text →
      newPath roles (unchanged roles) w = id w := by
    intro w hw
    obtain ⟨r, hr, rfl⟩ := List.mem_map.1 (Substitution.mem_of_word_mem hw)
    unfold newPath
    cases hfind : roles.find? fun q => q.2.bytes == r.2.bytes with
    | none =>
      have := List.find?_eq_none.1 hfind r hr
      simp at this
    | some q =>
      have hq := List.mem_of_find?_eq_some hfind
      have hbytes : q.2.bytes = r.2.bytes := by simpa using List.find?_some hfind
      rw [Option.bind_some, unchanged_of_mem hroles hq]
      exact hbytes
  rw [relocated, substitute, Substitution.render_congr hput, Substitution.render_cut]

/-! ### Links -/

theorem valid_tokenFor (roles : List Role) (nonce : Nonce) : Utf8.Valid (tokenFor roles nonce) := by
  refine Utf8.valid_of_lt fun b hb => ?_
  rw [tokenFor_eq] at hb
  have hmark : mark < 0x80 := UInt8.lt_iff_toNat_lt.2 (Nat.le_of_ble_eq_true rfl)
  simp only [Substitution.token, List.mem_cons, List.mem_append, List.not_mem_nil, or_false] at hb
  rcases hb with rfl | rfl | hb | rfl | rfl
  · exact hmark
  · exact hmark
  · exact (inert_bodyOf roles nonce b hb).2.2
  · exact hmark
  · exact hmark

theorem readlinkSync_of_valid (h : Utf8.Valid text) : readlinkSync text = text :=
  (Utf8.encode_decode_iff text).2 h

theorem valid_readlinkSync (text : List UInt8) : Utf8.Valid (readlinkSync text) :=
  Utf8.valid_encode _

/-- **A link's text stays UTF-8** when what is put for a path in it is. -/
theorem valid_substitute {ws : List (List UInt8)} {put : List UInt8 → List UInt8}
    (hne : ∀ w ∈ ws, w ≠ []) (hws : ∀ w ∈ ws, Utf8.Valid w) (hput : ∀ w ∈ ws, Utf8.Valid (put w))
    (hacc : accepted anchoredOccurrence text 0 (cut ws text) = true) (htext : Utf8.Valid text) :
    Utf8.Valid (substitute ws put text) := by
  have hcut := Substitution.render_cut ws text
  have hmem : ∀ w, .word w ∈ cut ws text → w ∈ ws := fun w => Substitution.mem_of_word_mem
  unfold substitute
  rcases anchored_shape (fun w hw => hne w (hmem w hw)) hacc with ⟨gap, hgap⟩ | ⟨w, gap, hgap⟩
  · rw [hgap, Substitution.render_map_keep] at hcut
    rw [hgap, Substitution.render_map_keep, hcut]
    exact htext
  · have hw := hmem w (by rw [hgap]; exact List.mem_cons_self)
    rw [hgap, Substitution.render, Substitution.render_map_keep] at hcut
    rw [hgap, Substitution.render, Substitution.render_map_keep]
    rw [← hcut] at htext
    exact (hput w hw).append ((hws w hw).right_of_append htext)

include hv in
theorem valid_withPlaceholders
    (hscan : ∀ g ∈ groupsOf roles, g.path ∈ scan.found → g ∈ record.prefixes)
    (hs : Sound (groupsOf roles) record.nonce scan anchoredOccurrence entry text)
    (htext : Utf8.Valid text) : Utf8.Valid (withPlaceholders record text) := by
  have hacc := hs.accepted
  rw [show (groupsOf roles).map (fun g => g.path.bytes) = bytesOf (groupsOf roles) from rfl,
    (cut_eq hv hscan hs).1] at hacc
  refine valid_substitute (fun w hw => ?_) (fun w hw => ?_) (fun w hw => ?_) hacc htext
  · obtain ⟨g, -, rfl⟩ := List.mem_map.1 hw
    exact g.path.given
  · obtain ⟨g, -, rfl⟩ := List.mem_map.1 hw
    exact g.path.valid
  · obtain ⟨g, hg, rfl⟩ := List.mem_map.1 hw
    rw [newOf_placeholder hv hg]
    exact valid_tokenFor _ _

include hv in
theorem valid_relocated
    (hscan : ∀ g ∈ groupsOf roles, g.path ∈ scan.found → g ∈ record.prefixes)
    (hs : Sound (groupsOf roles) record.nonce scan anchoredOccurrence entry text)
    (htext : Utf8.Valid text) (newPaths : Role → Option PathText) :
    Utf8.Valid (relocated roles newPaths text) := by
  have hacc := hs.accepted
  rw [show (groupsOf roles).map (fun g => g.path.bytes) = bytesOf (groupsOf roles) from rfl,
    (cut_eq hv hscan hs).1, ← (cut_eq hv hscan hs).2] at hacc
  refine valid_substitute (fun w hw => ?_) (fun w hw => ?_) (fun w hw => ?_) hacc htext
  · obtain ⟨r, -, rfl⟩ := List.mem_map.1 hw
    exact r.2.given
  · obtain ⟨r, -, rfl⟩ := List.mem_map.1 hw
    exact r.2.valid
  · unfold newPath
    cases (roles.find? fun r => r.2.bytes == w).bind fun r => newPaths r.1 with
    | none => exact ⟨[], nofun, rfl⟩
    | some p => exact p.valid

end texts

end DepsStore
end Caches
end LaneBroker
