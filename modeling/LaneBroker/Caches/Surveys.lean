/-
# What a relocation record vouches for

A record is made by a scan that came to its end, so everything that will be stored was looked
at (`Surveyed.looked`) and no entry is recorded twice: the entries of the tree and of the
nested trees lie apart in the stored tree, for no workspace path has a `node_modules` in it
and nothing stands at the stash.
-/

import LaneBroker.Caches.Scans

namespace LaneBroker
namespace Caches
namespace DepsStore

open LaneBroker.Basis

/-! ### The scan of everything -/

/-- The entries of a tree at their places in the stored one. -/
def Tree.placed (tree : Tree) (under : Rel) : List Entry :=
  tree.entries.map fun e => ⟨under ++ e.path, e.node⟩

/-- The entries of the nested tree of a workspace. -/
def Workspace.placed (w : Workspace) : List Entry :=
  match w.nested with
  | .tree tree => tree.placed w.stored
  | .absent | .notDirectory => []

/-- **All entries of what was installed**, at their places in the stored tree. -/
def Installed.placed (i : Installed) : List Entry :=
  i.tree.placed [] ++ i.workspaces.flatMap Workspace.placed

theorem map_path_placed (tree : Tree) (under : Rel) :
    (tree.placed under).map Entry.path = tree.entries.map fun e => under ++ e.path := by
  rw [Tree.placed, List.map_map]
  rfl

open Scanned in
theorem scanNested_ok {c : Scanned} {scan scan' : Scan} {w : Workspace}
    (hnodup : (c.groups.map Group.path).Nodup) (h : scanNested c scan w = .ok scan') :
    Grows scan scan' ∧ AddsAll scan scan' (w.placed.map Entry.path) ∧
      ∀ tree, w.nested = .tree tree →
        ∀ e ∈ ({ c with base := tree, under := w.stored } : Scanned).visited,
          Passed { c with base := tree, under := w.stored } e ∨
            Looked c.groups c.nonce scan' ⟨w.stored ++ e.path, e.node⟩ := by
  unfold scanNested at h
  split_ifs at h
  unfold Workspace.placed
  cases hnested : w.nested with
  | absent =>
    rw [hnested] at h
    obtain rfl := Except.ok.inj h
    exact ⟨.refl _, ⟨[], by simp, by simp⟩, nofun⟩
  | notDirectory =>
    rw [hnested] at h
    cases h
  | tree tree =>
    rw [hnested] at h
    obtain ⟨hgrows, hadds, hall⟩ := walk_ok (c := { c with base := tree, under := w.stored })
      hnodup h
    refine ⟨hgrows, ?_, fun t ht => ?_⟩
    · rw [map_path_placed]
      exact hadds
    · obtain rfl := Nested.tree.inj ht
      exact hall

/-- An entry that is copied was looked at. -/
theorem looked_kept {c : Scanned} {scan : Scan} {skip : Rel → Bool}
    (hskip : ∀ rel, skip rel = false → isRegenerableBuildArtifact c.base rel = false ∧
      (c.under = [] → rel ∉ c.linkNames))
    (hall : ∀ e ∈ c.visited, Scanned.Passed c e ∨
      Looked c.groups c.nonce scan ⟨c.under ++ e.path, e.node⟩) :
    ∀ e ∈ c.base.kept c.under skip, Looked c.groups c.nonce scan e := by
  intro e he
  rcases List.mem_cons.1 he with rfl | he
  · trivial
  · obtain ⟨e, hmem, rfl⟩ := List.mem_map.1 he
    obtain ⟨hin, hkept⟩ := List.mem_filter.1 hmem
    have hnone : ∀ q, q ≠ [] → q <+: e.path → skip q = false := by
      intro q hne hpre
      rw [Bool.not_eq_true', ← Bool.not_eq_true, onTheWay_iff] at hkept
      rw [← Bool.not_eq_true]
      exact fun hq => hkept ⟨q, hne, hpre, hq⟩
    have hself := hskip e.path (hnone e.path (c.base.below e hin).1 (List.prefix_refl _))
    have hvisited : e ∈ c.visited := by
      refine List.mem_filter.2 ⟨hin, ?_⟩
      rw [Bool.not_eq_true', ← Bool.not_eq_true, onTheWay_iff]
      rintro ⟨q, hne, hpre, hq⟩
      rw [(hskip q (hnone q hne (hpre.trans (List.dropLast_prefix _)))).1] at hq
      cases hq
    refine (hall e hvisited).resolve_left ?_
    rintro (⟨hunder, hlink⟩ | hpruned)
    · exact hself.2 hunder hlink
    · rw [hself.1] at hpruned
      cases hpruned

theorem mem_nestedTrees_iff {i : Installed} {w : Workspace} {tree : Tree} :
    (w, tree) ∈ i.nestedTrees ↔ w ∈ i.workspaces ∧ w.nested = .tree tree := by
  unfold Installed.nestedTrees
  rw [List.mem_filterMap]
  constructor
  · rintro ⟨v, hv, h⟩
    cases hnested : v.nested with
    | tree t =>
      simp only [hnested] at h
      obtain ⟨rfl, rfl⟩ := Prod.mk.inj (Option.some.inj h)
      exact ⟨hv, hnested⟩
    | absent | notDirectory =>
      simp only [hnested] at h
      cases h
  · rintro ⟨hw, hnested⟩
    exact ⟨w, hw, by simp only [hnested]⟩

/-- **What a scan that ends well knows.** -/
structure Surveyed (i : Installed) (groups : List Group) (nonce : Nonce) (scan : Scan) : Prop where
  /-- There is no stash yet. -/
  unstashed : i.workspaces = [] ∨ i.tree.existsSync [workspaceStash] = false
  /-- All that is copied was looked at. -/
  looked : ∀ e ∈ i.layout, Looked groups nonce scan e
  /-- No entry was recorded twice. -/
  once : (scan.entries.map Prod.fst).Sublist (i.placed.map Entry.path)

open Scanned in
theorem scanTree_ok {host : Host} {i : Installed} {groups : List Group} {nonce : Nonce}
    {scan : Scan} (hnodup : (groups.map Group.path).Nodup)
    (h : scanTree host i groups nonce = .ok scan) : Surveyed i groups nonce scan := by
  unfold scanTree at h
  dsimp only at h
  split_ifs at h with hstash
  split at h
  · cases h
  rename_i first hfirst
  obtain ⟨-, ⟨more, hmore, hsub⟩, hroot⟩ := walk_ok (c := ⟨host, groups, nonce, i.linkNames,
    i.tree, []⟩) hnodup hfirst
  have hrun := Results.foldlM_ok (I := fun done s => Grows first s ∧
      AddsAll first s (done.flatMap fun w => w.placed.map Entry.path) ∧
      ∀ w ∈ done, ∀ tree, w.nested = .tree tree →
        ∀ e ∈ (⟨host, groups, nonce, i.linkNames, tree, w.stored⟩ : Scanned).visited,
          Passed ⟨host, groups, nonce, i.linkNames, tree, w.stored⟩ e ∨
            Looked groups nonce s ⟨w.stored ++ e.path, e.node⟩)
    ⟨.refl _, ⟨[], by simp, by simp⟩, nofun⟩
    (fun done w _ s s' _ ⟨hgrows, ⟨more, hmore, hsub⟩, hall⟩ hstep => by
      obtain ⟨hgrows', ⟨more', hmore', hsub'⟩, hone⟩ := scanNested_ok hnodup hstep
      refine ⟨hgrows.trans hgrows', ⟨more ++ more', by rw [hmore', hmore, List.append_assoc], ?_⟩,
        fun v hv => ?_⟩
      · rw [List.map_append, List.flatMap_append, List.flatMap_singleton]
        exact hsub.append hsub'
      · rcases List.mem_append.1 hv with hv | hv
        · exact fun tree ht e he => (hall v hv tree ht e he).imp_right fun hl => hl.mono hgrows'
        · rw [List.mem_singleton.1 hv]
          exact hone) h
  obtain ⟨hgrows, ⟨more', hmore', hsub'⟩, hnested⟩ := hrun
  refine ⟨?_, fun e he => ?_, ?_⟩
  · rw [not_and_or, not_not, Bool.not_eq_true] at hstash
    exact hstash
  · simp only [Installed.layout, List.mem_append] at he
    rcases he with (he | he) | he
    · refine looked_kept (c := ⟨host, groups, nonce, i.linkNames, i.tree, []⟩) ?_ ?_ e he
      · intro rel hrel
        rw [Installed.skips, Bool.or_eq_false_iff] at hrel
        refine ⟨hrel.2, fun _ hlink => ?_⟩
        rw [List.contains_iff_mem.2 hlink] at hrel
        exact absurd hrel.1 nofun
      · exact fun e he => (hroot e he).imp_right fun hl => hl.mono hgrows
    · obtain ⟨rel, -, rfl⟩ := List.mem_map.1 he
      trivial
    · obtain ⟨⟨w, tree⟩, hw, he⟩ := List.mem_flatMap.1 he
      obtain ⟨hmem, htree⟩ := mem_nestedTrees_iff.1 hw
      refine looked_kept (c := ⟨host, groups, nonce, i.linkNames, tree, w.stored⟩) ?_
        (hnested w hmem tree htree) e he
      exact fun rel hrel => ⟨hrel, nofun⟩
  · rw [hmore', hmore, List.nil_append, List.map_append, Installed.placed, List.map_append,
      map_path_placed, List.map_flatMap]
    exact hsub.append hsub'

/-! ### Places lie apart -/

theorem path_dir_above {tree : Tree} {a : JsString} {rest : Rel} (hrest : rest ≠ []) {e : Entry}
    (he : e ∈ tree.entries) (hpath : e.path = a :: rest) :
    ∃ d ∈ tree.entries, d.path = [a] ∧ d.node.isDir = true := by
  induction hlen : rest.length using Nat.strong_induction_on generalizing e rest with
  | _ n ih =>
    rcases (tree.below e he).2 with hnil | ⟨d, hd, hdpath, hdir⟩
    · rw [hpath, List.dropLast_cons_of_ne_nil hrest] at hnil
      cases hnil
    · rw [hpath, List.dropLast_cons_of_ne_nil hrest] at hdpath
      by_cases hshort : rest.dropLast = []
      · exact ⟨d, hd, by rw [hdpath, hshort], hdir⟩
      · have hpos := List.length_pos_iff.2 hrest
        refine ih rest.dropLast.length ?_ hshort hd hdpath rfl
        rw [List.length_dropLast, ← hlen]
        omega

/-- Where there is no stash, nothing stands below it. -/
theorem not_below_stash {tree : Tree} (h : tree.existsSync [workspaceStash] = false) {rest : Rel}
    (hrest : rest ≠ []) : ∀ e ∈ tree.entries, e.path ≠ workspaceStash :: rest := by
  intro e he hpath
  obtain ⟨d, hd, hdpath, hdir⟩ := path_dir_above hrest he hpath
  have hexists := tree.dir_exists d hd hdir
  rw [hdpath, h] at hexists
  cases hexists

theorem mem_placed {w : Workspace} {p : Rel} (h : p ∈ w.placed.map Entry.path) :
    ∃ tree, w.nested = .tree tree ∧ ∃ e ∈ tree.entries, p = w.stored ++ e.path := by
  unfold Workspace.placed at h
  cases hnested : w.nested with
  | absent => simp [hnested] at h
  | notDirectory => simp [hnested] at h
  | tree tree =>
    simp only [hnested, map_path_placed] at h
    obtain ⟨e, he, rfl⟩ := List.mem_map.1 h
    exact ⟨tree, rfl, e, he, rfl⟩

/-- A place in the stash tells its workspace. -/
theorem stored_inj {w w' : Workspace} {p p' : Rel} (h : w.stored ++ p = w'.stored ++ p') :
    w.resolved = w'.resolved := by
  simp only [Workspace.stored, List.cons_append, List.append_assoc, List.nil_append,
    List.cons.injEq, true_and] at h
  exact (Framing.cut_inj w.plain w'.plain h).1

theorem nodup_workspace_placed (w : Workspace) : (w.placed.map Entry.path).Nodup := by
  unfold Workspace.placed
  cases w.nested with
  | absent => exact List.nodup_nil
  | notDirectory => exact List.nodup_nil
  | tree tree =>
    dsimp only
    have hmap : (tree.placed w.stored).map Entry.path =
        (tree.entries.map Entry.path).map (w.stored ++ ·) := by
      rw [map_path_placed, List.map_map]
      rfl
    rw [hmap]
    exact tree.distinct.map (List.append_right_injective w.stored)

/-- **No two entries are stored at one place.** -/
theorem nodup_placed {i : Installed}
    (h : i.workspaces = [] ∨ i.tree.existsSync [workspaceStash] = false) :
    (i.placed.map Entry.path).Nodup := by
  rw [Installed.placed, List.map_append, List.map_flatMap, List.nodup_append]
  refine ⟨?_, ?_, fun p hp q hq => ?_⟩
  · rw [map_path_placed]
    exact i.tree.distinct
  · rw [List.nodup_flatMap]
    refine ⟨fun w _ => nodup_workspace_placed w, ?_⟩
    have hpair := List.pairwise_map.1 i.distinct
    refine hpair.imp fun {w w'} hne => ?_
    refine List.disjoint_left.2 fun p hp hp' => ?_
    obtain ⟨-, -, e, -, rfl⟩ := mem_placed hp
    obtain ⟨-, -, e', -, heq⟩ := mem_placed hp'
    exact hne (stored_inj heq)
  · rw [map_path_placed] at hp
    obtain ⟨e, he, rfl⟩ := List.mem_map.1 hp
    obtain ⟨w, hw, hq⟩ := List.mem_flatMap.1 hq
    obtain ⟨-, -, e', -, rfl⟩ := mem_placed hq
    rcases h with hnone | hnone
    · rw [hnone] at hw
      cases hw
    · rw [Workspace.stored, List.nil_append, List.cons_append]
      exact not_below_stash hnone (by simp) e he

/-- What is copied and is no directory is an entry of what was installed. -/
theorem mem_placed_of_layout {i : Installed} {e : Entry} (he : e ∈ i.layout)
    (hdir : e.node.isDir = false) : e ∈ i.placed := by
  have hkept : ∀ (tree : Tree) under skip, e ∈ tree.kept under skip → e ∈ tree.placed under := by
    intro tree under skip hmem
    rcases List.mem_cons.1 hmem with rfl | hmem
    · cases hdir
    · obtain ⟨e, hfilter, rfl⟩ := List.mem_map.1 hmem
      exact List.mem_map.2 ⟨e, (List.mem_filter.1 hfilter).1, rfl⟩
  simp only [Installed.layout, List.mem_append] at he
  rcases he with (he | he) | he
  · exact List.mem_append_left _ (hkept _ _ _ he)
  · obtain ⟨rel, -, rfl⟩ := List.mem_map.1 he
    cases hdir
  · obtain ⟨⟨w, tree⟩, hw, he⟩ := List.mem_flatMap.1 he
    obtain ⟨hmem, htree⟩ := mem_nestedTrees_iff.1 hw
    refine List.mem_append_right _ (List.mem_flatMap.2 ⟨w, hmem, ?_⟩)
    unfold Workspace.placed
    rw [htree]
    exact hkept _ _ _ he

/-! ### Records -/

/-- **What stands behind a relocation record.** -/
structure Vouched (i : Installed) (roles : List (Role × InstallPath)) (record : Relocation) :
    Prop where
  candidates : record.candidates = (groupsOf roles).map Group.path
  prefixes : record.prefixes.Sublist (groupsOf roles)
  /-- The paths that an entry names are among the prefixes. -/
  scan : ∃ scan, Surveyed i (groupsOf roles) record.nonce scan ∧ record.entries = scan.entries ∧
    ∀ g ∈ groupsOf roles, g.path ∈ scan.found → g ∈ record.prefixes

/-- **A record is given after a scan that came to its end.** -/
theorem collect_ok {host : Host} {i : Installed} {roles : List (Role × InstallPath)}
    {newNonce : Nat → Nonce} {record : Relocation}
    (h : collectInstallPathReferences host i roles newNonce = .ok record) :
    Vouched i roles record := by
  unfold collectInstallPathReferences at h
  generalize (List.range 5).map newNonce = nonces at h
  induction nonces with
  | nil => cases h
  | cons nonce rest ih =>
    rw [collectFrom] at h
    split at h
    · exact ih h
    · cases h
    · rename_i scan hscan
      obtain rfl := Except.ok.inj h
      refine ⟨rfl, List.filter_sublist, scan,
        scanTree_ok (grouped_groupsOf roles).distinct hscan, rfl, fun g hg hfound => ?_⟩
      exact List.mem_filter.2 ⟨hg, List.contains_iff_mem.2 hfound⟩

end DepsStore
end Caches
end LaneBroker
