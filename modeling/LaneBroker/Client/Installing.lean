/-
# Writing one file after the other

Which files are written can be told without a tree (`Plan`): in the order of the list, a file
is left out if one before it was written above it, if its own writing fails, or if one before
it needed a directory where it would stand.  The worktree follows the plan (`Follows`): at the
place of a written file stands what was last written there, at the places that were needed
stand directories, and nothing else has changed.
-/

import LaneBroker.Client.InstallArtifacts

namespace LaneBroker
namespace Client
namespace Install

open LaneBroker.Basis LaneBroker.Stream Artifacts NamedTree

variable {host : Host} {v : Naming JsString} {tree : Tree} {st : State} {path : JsString}
  {bytes : Bytes}

/-! ### Writing one file -/

/-- **A file can be put there**: one stands there, or nothing. -/
def TakesFile (tree : Tree) (loc : Loc) : Prop :=
  tree loc = none ∨ ∃ name bytes, tree loc = some ⟨name, .file bytes⟩

theorem TakesFile.not_isDir {loc : Loc} (h : TakesFile tree loc) : ¬IsDir tree loc := by
  rintro ⟨name, hdir⟩
  obtain hnone | ⟨_, _, hfile⟩ := h
  · simp [hnone] at hdir
  · simp [hfile] at hdir

theorem locOf_dropLast : (locOf v path).dropLast = path.segments.dropLast.map v.fold :=
  List.map_dropLast.symm

theorem segments_ne_nil : path.segments ≠ [] := List.splitOn_ne_nil _ _

theorem locOf_ne_nil (v : Naming JsString) (path : JsString) : locOf v path ≠ [] := by
  simpa [locOf] using segments_ne_nil

theorem destinationProblem_eq_none_iff {loc : Loc} :
    destinationProblem (tree loc) = none ↔ TakesFile tree loc := by
  unfold TakesFile
  cases tree loc with
  | none => simp [destinationProblem]
  | some stored =>
    obtain ⟨name, kind⟩ := stored
    cases kind <;> simp [destinationProblem]

theorem unsafeFrom_eq_none_iff (h : Closed tree) {loc : Loc} {before segs : List JsString}
    (hloc : IsDir tree loc) :
    unsafeFrom v tree loc before segs = none ↔
      ∀ p, p <+: segs.map v.fold → Clear tree (loc ++ p) := by
  induction segs generalizing loc before with
  | nil => simpa [unsafeFrom] using hloc.clear
  | cons seg segs ih =>
    have hsplit : (∀ p, p <+: (seg :: segs).map v.fold → Clear tree (loc ++ p)) ↔
        ∀ p, p <+: segs.map v.fold → Clear tree (loc ++ [v.fold seg] ++ p) := by
      constructor
      · intro hall p hp
        simpa using hall (v.fold seg :: p) (by simpa using hp)
      · intro hall p hp
        cases p with
        | nil => simpa using hloc.clear
        | cons n p =>
          rw [List.map_cons, List.cons_prefix_cons] at hp
          simpa [hp.1] using hall p hp.2
    rw [hsplit, unsafeFrom]
    cases hthere : tree (loc ++ [v.fold seg]) with
    | none => exact iff_of_true rfl fun p _ => .inl (h.none_below hthere p)
    | some stored =>
      have hself := List.nil_prefix (l := segs.map v.fold)
      obtain ⟨name, kind⟩ := stored
      cases kind with
      | dir => exact ih ⟨name, hthere⟩
      | file bytes =>
        simpa using ⟨[], hself, by simpa using not_clear_file hthere⟩
      | link | special =>
        simpa using ⟨[], hself, by simp [Clear, IsDir, hthere]⟩

/-- **`unsafeAncestor` refuses what a directory cannot be reached for.** -/
theorem unsafeAncestor_eq_none_iff (h : Closed tree) :
    unsafeAncestor v tree path = none ↔ Reaches tree (locOf v path) := by
  rw [unsafeAncestor, unsafeFrom_eq_none_iff h h.root, Reaches, locOf_dropLast]
  simp only [List.nil_append]

theorem writeContained_blocked (h : Closed st.tree) (hblocked : ¬Reaches st.tree (locOf v path)) :
    ∃ reason, writeContained host v st path bytes = (st, some reason) := by
  rw [← unsafeAncestor_eq_none_iff h] at hblocked
  obtain ⟨reason, hreason⟩ := Option.ne_none_iff_exists'.1 hblocked
  exact ⟨reason, by simp [writeContained, hreason]⟩

theorem writeContained_failed (h : Closed st.tree) (hreach : Reaches st.tree (locOf v path))
    {made : ℕ} {message : JsString} (hfails : host.fails path = some (made, message)) :
    writeContained host v st path bytes =
      ({ st with tree := makeDirs v st.tree [] (path.segments.dropLast.take made) },
        some message) := by
  simp [writeContained, (unsafeAncestor_eq_none_iff h).2 hreach, hfails]

/-- The tree with the directories above a path. -/
abbrev withDirs (v : Naming JsString) (tree : Tree) (path : JsString) : Tree :=
  makeDirs v tree [] path.segments.dropLast

theorem withDirs_at : withDirs v tree path (locOf v path) = tree (locOf v path) := by
  refine makeDirs_elsewhere fun p hp _ heq => ?_
  rw [← locOf_dropLast] at hp
  have hle := hp.length_le
  have hpos := List.length_pos_iff.2 (locOf_ne_nil v path)
  rw [List.nil_append] at heq
  rw [← heq, List.length_dropLast] at hle
  omega

theorem takesFile_withDirs (h : TakesFile tree (locOf v path)) :
    TakesFile (withDirs v tree path) (locOf v path) := by
  have hat : withDirs v tree path (locOf v path) = tree (locOf v path) := withDirs_at
  rwa [TakesFile, hat]

theorem closed_withDirs (h : Closed tree) (hreach : Reaches tree (locOf v path)) :
    Closed (withDirs v tree path) := by
  refine h.makeDirs ?_
  rwa [← locOf_dropLast]

theorem reaches_withDirs (h : Closed tree) (hreach : Reaches tree (locOf v path)) :
    Reaches (withDirs v tree path) (locOf v path) := by
  intro l hl
  by_cases hnil : l = []
  · subst hnil
    exact (closed_withDirs h hreach).root.clear
  · have hclear := hreach l hl
    rw [locOf_dropLast] at hl
    exact (isDir_makeDirs hl hnil hclear).clear

theorem isDir_withDirs (h : Closed tree) (hreach : Reaches tree (locOf v path)) :
    IsDir (withDirs v tree path) (locOf v path).dropLast := by
  by_cases hnil : (locOf v path).dropLast = []
  · rw [hnil]
    exact (closed_withDirs h hreach).root
  · have hclear := hreach _ List.prefix_rfl
    rw [locOf_dropLast] at hnil hclear ⊢
    exact isDir_makeDirs List.prefix_rfl hnil hclear

/-- Where something stands all directories above stand. -/
theorem withDirs_of_ne_none (h : Closed tree) (hthere : tree (locOf v path) ≠ none) :
    withDirs v tree path = tree := by
  funext l
  by_cases hl : l <+: (locOf v path).dropLast
  · exact makeDirs_of_ne_none (h.dir_of_prefix hl hthere).ne_none
  · refine makeDirs_elsewhere fun p hp _ heq => hl ?_
    rw [heq, List.nil_append, locOf_dropLast]
    exact hp

theorem writeContained_occupied (h : Closed st.tree) (hreach : Reaches st.tree (locOf v path))
    (hfails : host.fails path = none) (hthere : ¬TakesFile st.tree (locOf v path)) :
    ∃ reason, writeContained host v st path bytes = (st, some reason) := by
  have hne : st.tree (locOf v path) ≠ none := fun heq => hthere (.inl heq)
  rw [← destinationProblem_eq_none_iff] at hthere
  obtain ⟨reason, hreason⟩ := Option.ne_none_iff_exists'.1 hthere
  have hnone := (unsafeAncestor_eq_none_iff h).2 hreach
  have hsame : makeDirs v st.tree [] path.segments.dropLast = st.tree := withDirs_of_ne_none h hne
  exact ⟨reason, by simp [writeContained, hnone, hfails, hsame, hreason]⟩

theorem writeContained_done (h : Closed st.tree) (hreach : Reaches st.tree (locOf v path))
    (hfails : host.fails path = none) (hthere : TakesFile st.tree (locOf v path)) :
    ∃ name, writeContained host v st path bytes =
      ({ st with
        tree := Function.update (withDirs v st.tree path) (locOf v path)
          (some ⟨name, .file bytes⟩) }, none) := by
  have hnone := (unsafeAncestor_eq_none_iff h).2 hreach
  have hagain : unsafeAncestor v (makeDirs v st.tree [] path.segments.dropLast) path = none :=
    (unsafeAncestor_eq_none_iff (closed_withDirs h hreach)).2 (reaches_withDirs h hreach)
  have hat : makeDirs v st.tree [] path.segments.dropLast (locOf v path) =
      st.tree (locOf v path) := withDirs_at
  have hdest := destinationProblem_eq_none_iff.2 hthere
  obtain ⟨name, hrenamed⟩ : ∃ name, renamed v (withDirs v st.tree path) path bytes =
      ⟨name, .file bytes⟩ := by
    unfold renamed
    split <;> exact ⟨_, rfl⟩
  refine ⟨name, ?_⟩
  rw [← hrenamed]
  simp [writeContained, hnone, hfails, hagain, hat, hdest]

/-! ### What is written -/

/-- **What is written where**, and where a directory was needed. -/
structure Plan where
  written : List Sent := []
  dirs : List Loc := []

/-- The next file that git does not track. -/
def Plan.step (host : Host) (v : Naming JsString) (plan : Plan) (file : Sent) : Plan :=
  let loc := locOf v file.path
  if ∃ g ∈ plan.written, locOf v g.path <+: loc.dropLast then plan
  else
    match host.fails file.path with
    | some (made, _) => { plan with dirs := plan.dirs ++ (loc.dropLast.take made).inits }
    | none =>
      if loc ∈ plan.dirs then plan
      else { written := plan.written ++ [file], dirs := plan.dirs ++ loc.dropLast.inits }

/-- What was written last to a place. -/
def lastAt (v : Naming JsString) (files : List Sent) (loc : Loc) : Option Sent :=
  (files.filter fun g => locOf v g.path = loc).getLast?

theorem lastAt_append_self {files : List Sent} {file : Sent} :
    lastAt v (files ++ [file]) (locOf v file.path) = some file := by
  simp [lastAt, List.filter_append]

theorem lastAt_append_of_ne {files : List Sent} {file : Sent} {loc : Loc}
    (h : locOf v file.path ≠ loc) : lastAt v (files ++ [file]) loc = lastAt v files loc := by
  simp [lastAt, List.filter_append, h]

theorem mem_of_lastAt {files : List Sent} {file : Sent} {loc : Loc}
    (h : lastAt v files loc = some file) : file ∈ files ∧ locOf v file.path = loc := by
  simpa using List.mem_of_getLast? h

theorem exists_lastAt {files : List Sent} {file : Sent} (h : file ∈ files) :
    ∃ g, lastAt v files (locOf v file.path) = some g := by
  rw [← Option.isSome_iff_exists, lastAt, List.getLast?_isSome]
  simpa using ⟨file, h, rfl⟩

/-- **A worktree follows a plan.** -/
structure Follows (v : Naming JsString) (before : Tree) (plan : Plan) (after : Tree) : Prop where
  closed : Closed after
  file : ∀ loc g, lastAt v plan.written loc = some g →
    ∃ name, after loc = some ⟨name, .file g.bytes⟩
  made : ∀ loc ∈ plan.dirs, IsDir after loc
  kept : ∀ loc, (∀ g ∈ plan.written, locOf v g.path ≠ loc) →
    after loc = before loc ∨ loc ∈ plan.dirs ∧ before loc = none

section Follows

variable {before after : Tree} {plan : Plan}

theorem Follows.start (h : Closed before) : Follows v before {} before where
  closed := h
  file loc g hlast := by simp [lastAt] at hlast
  made loc hmem := by simp at hmem
  kept loc _ := .inl rfl

theorem Follows.at_written (h : Follows v before plan after) {g : Sent} (hg : g ∈ plan.written) :
    ∃ name bytes, after (locOf v g.path) = some ⟨name, .file bytes⟩ := by
  obtain ⟨last, hlast⟩ := exists_lastAt (v := v) hg
  obtain ⟨name, hfile⟩ := h.file _ _ hlast
  exact ⟨name, last.bytes, hfile⟩

/-- **Directories on a clear way.** -/
theorem Follows.withDirs (h : Follows v before plan after) {names : List JsString}
    (hclear : ∀ p, p <+: names.map v.fold → Clear after p) :
    Follows v before { plan with dirs := plan.dirs ++ (names.map v.fold).inits }
      (makeDirs v after [] names) where
  closed := h.closed.makeDirs hclear
  file loc g hlast := by
    obtain ⟨name, hfile⟩ := h.file loc g hlast
    exact ⟨name, by rw [makeDirs_of_ne_none (by simp [hfile]), hfile]⟩
  made loc hmem := by
    rw [List.mem_append, List.mem_inits] at hmem
    obtain hmem | hmem := hmem
    · have hdir := h.made loc hmem
      exact hdir.congr (makeDirs_of_ne_none hdir.ne_none).symm
    · by_cases hnil : loc = []
      · subst hnil
        exact (h.closed.makeDirs hclear).root
      · exact isDir_makeDirs hmem hnil (hclear loc hmem)
  kept loc hnot := by
    have hkept := h.kept loc hnot
    by_cases hthere : after loc = none
    · by_cases hmem : loc <+: names.map v.fold
      · right
        obtain heq | ⟨-, hnone⟩ := hkept
        · exact ⟨by simp [hmem], heq ▸ hthere⟩
        · exact ⟨by simp [hmem], hnone⟩
      · rw [makeDirs_elsewhere fun p hp _ heq => hmem (by simpa [heq] using hp)]
        exact hkept.imp_right fun ⟨hdir, hnone⟩ => ⟨List.mem_append_left _ hdir, hnone⟩
    · rw [makeDirs_of_ne_none hthere]
      exact hkept.imp_right fun ⟨hdir, hnone⟩ => ⟨List.mem_append_left _ hdir, hnone⟩

/-- **A file in a directory.** -/
theorem Follows.put (h : Follows v before plan after) {file : Sent} (name : JsString)
    (hdir : IsDir after (locOf v file.path).dropLast)
    (hthere : TakesFile after (locOf v file.path)) :
    Follows v before { plan with written := plan.written ++ [file] }
      (Function.update after (locOf v file.path) (some ⟨name, .file file.bytes⟩)) where
  closed := by
    have hsplit := List.dropLast_append_getLast (locOf_ne_nil v file.path)
    rw [← hsplit]
    refine h.closed.put hdir ?_
    rw [hsplit]
    exact hthere.not_isDir
  file loc g hlast := by
    by_cases heq : locOf v file.path = loc
    · subst heq
      rw [lastAt_append_self, Option.some.injEq] at hlast
      exact ⟨name, by rw [Function.update_self, hlast]⟩
    · rw [lastAt_append_of_ne heq] at hlast
      rw [Function.update_of_ne (Ne.symm heq)]
      exact h.file loc g hlast
  made loc hmem := by
    have hisDir := h.made loc hmem
    have hne : loc ≠ locOf v file.path := by
      rintro rfl
      exact hthere.not_isDir hisDir
    exact hisDir.congr (Function.update_of_ne hne ..).symm
  kept loc hnot := by
    have hne := hnot file (by simp)
    rw [Function.update_of_ne (Ne.symm hne)]
    exact h.kept loc fun g hg => hnot g (by simp [hg])

/-- The way to a file that is not below a written one is clear, as it was before. -/
theorem Follows.reaches (h : Follows v before plan after) {loc : Loc} (hreach : Reaches before loc)
    (hnot : ¬∃ g ∈ plan.written, locOf v g.path <+: loc.dropLast) : Reaches after loc := by
  intro l hl
  have hkept := h.kept l fun g hg heq => hnot ⟨g, hg, heq ▸ hl⟩
  obtain heq | ⟨hmem, -⟩ := hkept
  · rw [Clear, IsDir, heq]
    exact hreach l hl
  · exact (h.made l hmem).clear

theorem Follows.not_reaches (h : Follows v before plan after) {loc : Loc}
    (hbelow : ∃ g ∈ plan.written, locOf v g.path <+: loc.dropLast) : ¬Reaches after loc := by
  obtain ⟨g, hg, hl⟩ := hbelow
  obtain ⟨name, bytes, hfile⟩ := h.at_written hg
  exact fun hreach => not_clear_file hfile (hreach _ hl)

theorem Follows.takesFile_iff (h : Follows v before plan after) {loc : Loc}
    (hthere : TakesFile before loc) : TakesFile after loc ↔ loc ∉ plan.dirs := by
  constructor
  · exact fun hafter hmem => hafter.not_isDir (h.made loc hmem)
  · intro hmem
    by_cases hwritten : ∃ g ∈ plan.written, locOf v g.path = loc
    · obtain ⟨g, hg, rfl⟩ := hwritten
      exact .inr (h.at_written hg)
    · obtain heq | ⟨hdir, -⟩ := h.kept loc fun g hg heq => hwritten ⟨g, hg, heq⟩
      · rwa [TakesFile, heq]
      · exact absurd hdir hmem

/-- **Writing one file follows the plan.** -/
theorem Follows.writeContained (host : Host) {file : Sent} (h : Follows v before plan st.tree)
    (hreach : Reaches before (locOf v file.path)) (hthere : TakesFile before (locOf v file.path)) :
    Follows v before (plan.step host v file)
        (writeContained host v st file.path file.bytes).1.tree ∧
      (writeContained host v st file.path file.bytes).1.temps = st.temps ∧
      (plan.step host v file).written =
        if (writeContained host v st file.path file.bytes).2 = none then plan.written ++ [file]
        else plan.written := by
  by_cases hbelow : ∃ g ∈ plan.written, locOf v g.path <+: (locOf v file.path).dropLast
  · obtain ⟨reason, hwrite⟩ := writeContained_blocked h.closed
      (h.not_reaches hbelow)
    rw [hwrite, Plan.step, if_pos hbelow]
    exact ⟨h, rfl, rfl⟩
  · have hreach := h.reaches hreach hbelow
    cases hfails : host.fails file.path with
    | some failure =>
      obtain ⟨made, message⟩ := failure
      have hdirs : ∀ p, p <+: (file.path.segments.dropLast.take made).map v.fold →
          Clear st.tree p := by
        intro p hp
        refine hreach p ?_
        rw [locOf_dropLast]
        rw [List.map_take] at hp
        exact hp.trans (List.take_prefix _ _)
      have hnext := h.withDirs hdirs
      rw [writeContained_failed h.closed hreach hfails, Plan.step, if_neg hbelow, hfails]
      rw [List.map_take, ← locOf_dropLast] at hnext
      exact ⟨hnext, rfl, rfl⟩
    | none =>
      by_cases hmem : locOf v file.path ∈ plan.dirs
      · have hnot : ¬TakesFile st.tree (locOf v file.path) :=
          fun htakes => (h.takesFile_iff hthere).1 htakes hmem
        obtain ⟨reason, hwrite⟩ := writeContained_occupied h.closed hreach
          hfails hnot
        rw [hwrite, Plan.step, if_neg hbelow, hfails]
        simp only [if_pos hmem]
        exact ⟨h, trivial, rfl⟩
      · have htakes := (h.takesFile_iff hthere).2 hmem
        obtain ⟨name, hwrite⟩ := writeContained_done h.closed hreach hfails htakes
        have hdirs : ∀ p, p <+: file.path.segments.dropLast.map v.fold → Clear st.tree p := by
          rw [← locOf_dropLast]
          exact hreach
        have hnext := (h.withDirs hdirs).put name (isDir_withDirs h.closed hreach)
          (takesFile_withDirs htakes)
        rw [hwrite, Plan.step, if_neg hbelow, hfails]
        simp only [if_neg hmem]
        rw [← locOf_dropLast] at hnext
        exact ⟨hnext, trivial, rfl⟩

end Follows

end Install
end Client
end LaneBroker
