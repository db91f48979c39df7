/-
# What an installed set leaves

A run of `installArtifacts` follows the plan of the files that pass the checks and that git
does not track (`follows_run`).

Two things the code does not see, both where a volume takes two spellings for one.  A path of
the index, or a protected one, can lead to a file that is written and be spelled neither as it
was sent nor as it stands on the disk; and two files of the list can be one.  Those apart
everything is right, and not otherwise (`installArtifacts_right_iff`).
-/

import LaneBroker.Client.Installing
import Mathlib.Data.List.Perm.Basic

namespace LaneBroker
namespace Client
namespace Install

open LaneBroker.Basis LaneBroker.Stream Artifacts NamedTree

variable {host : Host} {v : Naming JsString} {tree : Tree}

/-! ### The files that are written -/

variable {patterns : List JsString} {files : List Sent} {git : Except JsString (List JsString)}

/-- **A file that passes the checks.** -/
structure Passes (host : Host) (v : Naming JsString) (tree : Tree) (patterns : List JsString)
    (file : Sent) : Prop where
  canonical : isCanonicalRelPath file.path = true
  declared : isUnderDeclaredDir file.path patterns = true
  unprotected : isDeniedArtifactPath host.toLowerCase file.path = false
  storedUnprotected : isDeniedArtifactPath host.toLowerCase (canonicalRel v tree file.path) = false
  reaches : Reaches tree (locOf v file.path)
  takes : TakesFile tree (locOf v file.path)

theorem passes_of_checkFile (h : Closed tree) {file : Sent} {canonical : JsString}
    (hok : checkFile host v tree patterns file = .ok canonical) :
    Passes host v tree patterns file ∧ canonical = canonicalRel v tree file.path := by
  unfold checkFile at hok
  split at hok
  · exact absurd hok (by simp)
  rename_i hcanonical
  split at hok
  · exact absurd hok (by simp)
  rename_i hunprotected
  split at hok
  · exact absurd hok (by simp)
  rename_i hdeclared
  split at hok
  · exact absurd hok (by simp)
  split at hok
  · exact absurd hok (by simp)
  rename_i hproblem
  obtain ⟨hnone, hdest⟩ := Option.or_eq_none_iff.1 hproblem
  simp only at hok
  split at hok
  · exact absurd hok (by simp)
  rename_i hstored
  have hpasses : Passes host v tree patterns file :=
    { canonical := by simpa using hcanonical
      declared := by simpa using hdeclared
      unprotected := by simpa using hunprotected
      storedUnprotected := by simpa using hstored
      reaches := (unsafeAncestor_eq_none_iff h).1 hnone
      takes := destinationProblem_eq_none_iff.1 hdest }
  exact ⟨hpasses, (Except.ok.inj hok).symm⟩

theorem mem_acceptedOf {file : Sent} {canonical : JsString} :
    (file, canonical) ∈ acceptedOf host v tree patterns files ↔
      file ∈ files ∧ checkFile host v tree patterns file = .ok canonical := by
  unfold acceptedOf
  rw [List.mem_filterMap]
  constructor
  · rintro ⟨f, hmem, hsome⟩
    split at hsome
    · rename_i c hok
      obtain ⟨rfl, rfl⟩ := Prod.mk.inj (Option.some.inj hsome)
      exact ⟨hmem, hok⟩
    · cases hsome
  · rintro ⟨hmem, hok⟩
    exact ⟨file, hmem, by rw [hok]⟩

/-- **The files to be written**: those that pass the checks and that the index does not name as they
were sent or as they stand. -/
def candidates (host : Host) (v : Naming JsString) (git : Except JsString (List JsString))
    (patterns : List JsString) (files : List Sent) (tree : Tree) : List Sent :=
  match host.unavailable, git with
  | none, .ok index =>
    ((acceptedOf host v tree patterns files).filter fun a => a.1.path ∉ index ∧ a.2 ∉ index).map
      Prod.fst
  | _, _ => []

/-- **Those of them that are written.** -/
def admitted (host : Host) (v : Naming JsString) (git : Except JsString (List JsString))
    (patterns : List JsString) (files : List Sent) (tree : Tree) : List Sent :=
  ((candidates host v git patterns files tree).foldl (Plan.step host v) {}).written

theorem exists_index_of_candidate (h : Closed tree) {file : Sent}
    (hmem : file ∈ candidates host v git patterns files tree) :
    file ∈ files ∧ Passes host v tree patterns file ∧
      ∃ index, git = .ok index ∧ file.path ∉ index ∧ canonicalRel v tree file.path ∉ index := by
  unfold candidates at hmem
  split at hmem
  case h_1 index _ =>
    simp only [List.mem_map, List.mem_filter, decide_eq_true_eq] at hmem
    obtain ⟨⟨f, canonical⟩, ⟨hin, hnot⟩, rfl⟩ := hmem
    obtain ⟨hfile, hok⟩ := mem_acceptedOf.1 hin
    obtain ⟨hpasses, rfl⟩ := passes_of_checkFile h hok
    exact ⟨hfile, hpasses, index, rfl, hnot⟩
  case h_2 => simp at hmem

theorem Plan.step_written_subset {plan : Plan} {file : Sent} :
    ∀ f ∈ (plan.step host v file).written, f ∈ plan.written ∨ f = file := by
  intro f hmem
  unfold Plan.step at hmem
  dsimp only at hmem
  split at hmem
  · exact .inl hmem
  · split at hmem
    · exact .inl hmem
    · split at hmem
      · exact .inl hmem
      · simpa using hmem

theorem Plan.step_dirs_subset {plan : Plan} {file : Sent} :
    ∀ l ∈ (plan.step host v file).dirs, l ∈ plan.dirs ∨ l <+: (locOf v file.path).dropLast := by
  intro l hmem
  unfold Plan.step at hmem
  dsimp only at hmem
  split at hmem
  · exact .inl hmem
  · split at hmem
    · rw [List.mem_append, List.mem_inits] at hmem
      exact hmem.imp_right fun hl => hl.trans (List.take_prefix _ _)
    · split at hmem
      · exact .inl hmem
      · rwa [List.mem_append, List.mem_inits] at hmem

theorem Plan.run_subset {plan : Plan} (hwritten : ∀ f ∈ plan.written, f ∈ files)
    (hdirs : ∀ l ∈ plan.dirs, ∃ f ∈ files, l <+: (locOf v f.path).dropLast) {list : List Sent}
    (hlist : ∀ f ∈ list, f ∈ files) :
    (∀ f ∈ (list.foldl (Plan.step host v) plan).written, f ∈ files) ∧
      ∀ l ∈ (list.foldl (Plan.step host v) plan).dirs,
        ∃ f ∈ files, l <+: (locOf v f.path).dropLast := by
  induction list generalizing plan with
  | nil => exact ⟨hwritten, hdirs⟩
  | cons file list ih =>
    have hfile := hlist file List.mem_cons_self
    refine ih ?_ ?_ fun f hf => hlist f (List.mem_cons_of_mem _ hf)
    · intro f hf
      obtain hold | rfl := Plan.step_written_subset f hf
      · exact hwritten f hold
      · exact hfile
    · intro l hl
      obtain hold | hnew := Plan.step_dirs_subset l hl
      · exact hdirs l hold
      · exact ⟨file, hfile, hnew⟩

theorem mem_trackedAmong {index asked : List JsString} {p : JsString} (h : p ∈ asked) :
    p ∈ trackedAmong index asked ↔ p ∈ index := by
  simp only [trackedAmong, List.mem_filter, List.any_eq_true, Bool.or_eq_true, decide_eq_true_eq]
  exact ⟨And.left, fun hin => ⟨hin, p, h, .inl rfl⟩⟩

/-! ### The run -/

section Run

variable {tracked : List JsString} {acc : Report × State} {file : Sent} {canonical : JsString}

theorem installStep_tracked (h : file.path ∈ tracked ∨ canonical ∈ tracked) :
    ∃ reason, installStep host v tracked acc (file, canonical) =
      ({ acc.1 with refused := acc.1.refused ++ [(file, reason)] }, acc.2) :=
  ⟨_, by rw [installStep, if_pos h]⟩

theorem installStep_untracked (h : ¬(file.path ∈ tracked ∨ canonical ∈ tracked)) :
    installStep host v tracked acc (file, canonical) =
      let r := writeContained host v acc.2 file.path file.bytes
      ({ written := if r.2 = none then acc.1.written ++ [file] else acc.1.written
         refused := acc.1.refused ++ (r.2.map fun reason => (file, reason)).toList }, r.1) := by
  rw [installStep, if_neg h]
  obtain ⟨st, problem⟩ := writeContained host v acc.2 file.path file.bytes
  cases problem <;> simp

/-- The files that were reported on. -/
def Report.reported (report : Report) : List Sent := report.written ++ report.refused.map Prod.fst

/-- **Each round reports on its file, once.** -/
theorem reported_installStep (a : Sent × JsString) :
    (installStep host v tracked acc a).1.reported.Perm (acc.1.reported ++ [a.1]) := by
  obtain ⟨file, canonical⟩ := a
  by_cases h : file.path ∈ tracked ∨ canonical ∈ tracked
  · obtain ⟨reason, hstep⟩ := installStep_tracked (v := v) h
    rw [hstep]
    simp [Report.reported]
  · rw [installStep_untracked h]
    obtain ⟨st, problem⟩ := writeContained host v acc.2 file.path file.bytes
    cases problem with
    | none =>
      simp only [Report.reported, if_true, Option.map_none, Option.toList_none, List.append_nil,
        List.append_assoc]
      exact List.perm_append_comm.append_left _
    | some reason => simp [Report.reported]

theorem reported_run (accepted : List (Sent × JsString)) :
    (accepted.foldl (installStep host v tracked) acc).1.reported.Perm
      (acc.1.reported ++ accepted.map Prod.fst) := by
  induction accepted generalizing acc with
  | nil => simp
  | cons a accepted ih =>
    have hstep := @reported_installStep host v tracked acc a
    have hrest := ih.trans (hstep.append_right (accepted.map Prod.fst))
    simpa using hrest

/-- Every file passes the checks or is refused. -/
theorem reported_checked (host : Host) (v : Naming JsString) (tree : Tree)
    (patterns : List JsString) (files : List Sent) :
    ((refusedOf host v tree patterns files).map Prod.fst ++
      (acceptedOf host v tree patterns files).map Prod.fst).Perm files := by
  induction files with
  | nil => simp [refusedOf, acceptedOf]
  | cons file files ih =>
    unfold refusedOf acceptedOf at ih ⊢
    cases hcheck : checkFile host v tree patterns file with
    | error reason =>
      simp only [List.filterMap_cons, hcheck, List.map_cons, List.cons_append]
      exact ih.cons file
    | ok canonical =>
      simp only [List.filterMap_cons, hcheck, List.map_cons]
      exact List.perm_middle.trans (ih.cons file)

/-- **A run follows the plan of the files that git does not track.** -/
theorem follows_run {before : Tree} {plan : Plan} {accepted : List (Sent × JsString)}
    (h : Follows v before plan acc.2.tree) (hwritten : acc.1.written = plan.written)
    (hfree : ∀ a ∈ accepted,
      Reaches before (locOf v a.1.path) ∧ TakesFile before (locOf v a.1.path)) :
    let after := accepted.foldl (installStep host v tracked) acc
    let planned := ((accepted.filter fun a => a.1.path ∉ tracked ∧ a.2 ∉ tracked).map
      Prod.fst).foldl (Plan.step host v) plan
    Follows v before planned after.2.tree ∧ after.1.written = planned.written ∧
      after.2.temps = acc.2.temps := by
  induction accepted generalizing plan acc with
  | nil => exact ⟨h, hwritten, rfl⟩
  | cons a accepted ih =>
    obtain ⟨file, canonical⟩ := a
    obtain ⟨hreach, htakes⟩ := hfree (file, canonical) List.mem_cons_self
    have hrest := fun a ha => hfree a (List.mem_cons_of_mem _ ha)
    by_cases htracked : file.path ∈ tracked ∨ canonical ∈ tracked
    · obtain ⟨reason, hstep⟩ := installStep_tracked (v := v) htracked
      have hnot : ¬(file.path ∉ tracked ∧ canonical ∉ tracked) := by tauto
      rw [List.foldl_cons, List.filter_cons_of_neg (by simpa using hnot), hstep]
      exact ih h hwritten hrest
    · have hnot : file.path ∉ tracked ∧ canonical ∉ tracked := not_or.1 htracked
      obtain ⟨hfollows, htemps, hnext⟩ := h.writeContained host hreach htakes
      have hround := @installStep_untracked host v tracked acc file canonical htracked
      rw [List.foldl_cons, List.filter_cons_of_pos (by simpa using hnot), List.map_cons,
        List.foldl_cons]
      generalize installStep host v tracked acc (file, canonical) = next at hround ⊢
      have htree : next.2 = (writeContained host v acc.2 file.path file.bytes).1 := by
        rw [hround]
      obtain ⟨hall, hplanned, hleft⟩ := @ih next (plan.step host v file)
        (by rw [htree]; exact hfollows) (by rw [hround, hnext, hwritten]) hrest
      rw [htree] at hleft
      exact ⟨hall, hplanned, hleft.trans htemps⟩

end Run

/-! ### What is right -/

/-- **A file that may be written.** -/
structure Allowed (host : Host) (v : Naming JsString) (git : Except JsString (List JsString))
    (patterns : List JsString) (tree : Tree) (file : Sent) : Prop where
  canonical : isCanonicalRelPath file.path = true
  declared : isUnderDeclaredDir file.path patterns = true
  /-- No link leads out of the worktree on the way. -/
  inside : Reaches tree (locOf v file.path)
  replaces : TakesFile tree (locOf v file.path)
  unprotected : ∀ p, locOf v p = locOf v file.path → isDeniedArtifactPath host.toLowerCase p = false
  untracked : ∃ index, git = .ok index ∧ ∀ p ∈ index, locOf v p ≠ locOf v file.path

/-- **A set that was installed as it should be.** -/
structure Right (host : Host) (v : Naming JsString) (git : Except JsString (List JsString))
    (patterns : List JsString) (files : List Sent) (before : Tree) (done : Report × State) :
    Prop where
  allowed : ∀ file ∈ done.1.written, Allowed host v git patterns before file
  holds : ∀ file ∈ done.1.written,
    ∃ name, done.2.tree (locOf v file.path) = some ⟨name, .file file.bytes⟩
  once : done.1.reported.Perm files
  /-- What else is new is a directory above a file that passes the checks. -/
  kept : ∀ loc, (∀ file ∈ done.1.written, locOf v file.path ≠ loc) →
    done.2.tree loc = before loc ∨ before loc = none ∧ IsDir done.2.tree loc ∧
      ∃ file ∈ files, Passes host v before patterns file ∧ loc <+: (locOf v file.path).dropLast
  closed : Closed done.2.tree
  temps : done.2.temps = []

/-- **No place is spelled in two ways that matter.** -/
structure Unambiguous (host : Host) (v : Naming JsString) (git : Except JsString (List JsString))
    (patterns : List JsString) (files : List Sent) (tree : Tree) : Prop where
  tracked : ∀ file ∈ admitted host v git patterns files tree, ∀ index, git = .ok index →
    ∀ p ∈ index, locOf v p = locOf v file.path →
      p = file.path ∨ p = canonicalRel v tree file.path
  denied : ∀ file ∈ admitted host v git patterns files tree, ∀ p,
    isDeniedArtifactPath host.toLowerCase p = true → locOf v p = locOf v file.path →
      p = file.path ∨ p = canonicalRel v tree file.path
  alike : ∀ file ∈ admitted host v git patterns files tree,
    ∀ other ∈ admitted host v git patterns files tree,
      locOf v file.path = locOf v other.path → file.bytes = other.bytes

/-- The plan of the files to be written. -/
def plan (host : Host) (v : Naming JsString) (git : Except JsString (List JsString))
    (patterns : List JsString) (files : List Sent) (tree : Tree) : Plan :=
  (candidates host v git patterns files tree).foldl (Plan.step host v) {}

/-- **What `installArtifacts` does.** -/
structure Does (host : Host) (v : Naming JsString) (git : Except JsString (List JsString))
    (patterns : List JsString) (files : List Sent) (tree : Tree) (done : Report × State) :
    Prop where
  follows : Follows v tree (plan host v git patterns files tree) done.2.tree
  written : done.1.written = admitted host v git patterns files tree
  once : done.1.reported.Perm files
  temps : done.2.temps = []

/-- Where there is nothing to be written the tree is left alone. -/
theorem does_nothing (h : Closed tree) (hnone : candidates host v git patterns files tree = [])
    {report : Report} (hwritten : report.written = [])
    (honce : (report.refused.map Prod.fst).Perm files) :
    Does host v git patterns files tree (report, { tree }) where
  follows := by
    rw [plan, hnone]
    exact Follows.start h
  written := by simp [hwritten, admitted, hnone]
  once := by simpa [Report.reported, hwritten] using honce
  temps := rfl

theorem installArtifacts_does (h : Closed tree) :
    Does host v git patterns files tree (installArtifacts host v git patterns files tree) := by
  unfold installArtifacts
  cases hthere : host.unavailable with
  | some message =>
    exact does_nothing h (by simp [candidates, hthere]) rfl (by simp [Function.comp_def])
  | none =>
    have hchecked := reported_checked host v tree patterns files
    by_cases hnil : acceptedOf host v tree patterns files = []
    · have hnone : candidates host v git patterns files tree = [] := by
        unfold candidates
        split <;> simp [hnil]
      simp only [hnil, if_true, List.foldl_nil]
      exact does_nothing h hnone rfl (by simpa [hnil] using hchecked)
    · cases hgit : git with
      | error message =>
        simp only [hnil, if_false, Except.map]
        exact does_nothing h (by simp [candidates]) rfl
          (by simpa [Function.comp_def] using hchecked)
      | ok index =>
        simp only [hnil, if_false, Except.map]
        set accepted := acceptedOf host v tree patterns files with haccepted
        set tracked := trackedAmong index (accepted.flatMap fun a => [a.1.path, a.2]) with htracked
        have hsame : ∀ a ∈ accepted,
            (a.1.path ∉ tracked ∧ a.2 ∉ tracked) ↔ (a.1.path ∉ index ∧ a.2 ∉ index) := by
          intro a ha
          have hpath : a.1.path ∈ accepted.flatMap fun a => [a.1.path, a.2] :=
            List.mem_flatMap.2 ⟨a, ha, by simp⟩
          have hcanonical : a.2 ∈ accepted.flatMap fun a => [a.1.path, a.2] :=
            List.mem_flatMap.2 ⟨a, ha, by simp⟩
          rw [htracked, mem_trackedAmong hpath, mem_trackedAmong hcanonical]
        have hfilter : (accepted.filter fun a => a.1.path ∉ tracked ∧ a.2 ∉ tracked) =
            accepted.filter fun a => a.1.path ∉ index ∧ a.2 ∉ index :=
          List.filter_congr fun a ha => by rw [decide_eq_decide]; exact hsame a ha
        have hplan : plan host v (.ok index) patterns files tree =
            ((accepted.filter fun a => a.1.path ∉ tracked ∧ a.2 ∉ tracked).map
              Prod.fst).foldl (Plan.step host v) {} := by
          rw [hfilter, plan, candidates]
          exact hthere
        have hfree : ∀ a ∈ accepted,
            Reaches tree (locOf v a.1.path) ∧ TakesFile tree (locOf v a.1.path) := by
          rintro ⟨file, canonical⟩ ha
          obtain ⟨hpasses, -⟩ := passes_of_checkFile h (mem_acceptedOf.1 ha).2
          exact ⟨hpasses.reaches, hpasses.takes⟩
        set start : Report × State :=
          ({ refused := refusedOf host v tree patterns files }, { tree })
        obtain ⟨hfollows, hwritten, htemps⟩ :=
          @follows_run host v tracked start tree {} accepted (Follows.start h) rfl hfree
        have hreported := @reported_run host v tracked start accepted
        rw [← hplan] at hfollows hwritten
        exact
          { follows := hfollows
            written := hwritten
            once := hreported.trans (by simpa [start, Report.reported] using hchecked)
            temps := htemps }

/-- A file that is written is one to be written. -/
theorem candidate_of_admitted {file : Sent}
    (hmem : file ∈ admitted host v git patterns files tree) :
    file ∈ candidates host v git patterns files tree :=
  (Plan.run_subset (by simp) (by simp) fun _ hf => hf).1 file hmem

/-- **A set is installed as it should be if and only if no place is spelled in two ways that
matter.** -/
theorem installArtifacts_right_iff (host : Host) (v : Naming JsString)
    (git : Except JsString (List JsString)) (patterns : List JsString) (files : List Sent)
    (worktree : Worktree) :
    Right host v git patterns files worktree.tree
        (installArtifacts host v git patterns files worktree.tree) ↔
      Unambiguous host v git patterns files worktree.tree := by
  have hclosed := worktree.closed
  have hdoes := @installArtifacts_does host v worktree.tree patterns files git hclosed
  have hwritten := hdoes.written
  constructor
  · intro h
    exact
      { tracked := by
          intro file hfile index hgit p hp heq
          obtain ⟨_, hsome, hnot⟩ := (h.allowed file (hwritten ▸ hfile)).untracked
          obtain rfl := Except.ok.inj (hgit.symm.trans hsome)
          exact absurd heq (hnot p hp)
        denied := by
          intro file hfile p hdenied heq
          have hnot := (h.allowed file (hwritten ▸ hfile)).unprotected p heq
          exact absurd hdenied (by simp [hnot])
        alike := by
          intro file hfile other hother heq
          obtain ⟨name, hat⟩ := h.holds file (hwritten ▸ hfile)
          obtain ⟨name', hat'⟩ := h.holds other (hwritten ▸ hother)
          rw [← heq, hat] at hat'
          simpa using congrArg (Option.map Stored.kind) hat' }
  · intro h
    have hcandidate : ∀ file ∈ candidates host v git patterns files worktree.tree,
        file ∈ files ∧ Passes host v worktree.tree patterns file ∧ ∃ index, git = .ok index ∧
          file.path ∉ index ∧ canonicalRel v worktree.tree file.path ∉ index :=
      fun file hfile => exists_index_of_candidate hclosed hfile
    exact
      { allowed := by
          intro file hfile
          rw [hwritten] at hfile
          obtain ⟨-, hpasses, index, hgit, hsent, hstored⟩ :=
            hcandidate file (candidate_of_admitted hfile)
          have hprotected : ∀ p, locOf v p = locOf v file.path →
              isDeniedArtifactPath host.toLowerCase p = false := by
            intro p heq
            by_contra hdenied
            obtain rfl | rfl := h.denied file hfile p (by simpa using hdenied) heq
            · exact hdenied hpasses.unprotected
            · exact hdenied hpasses.storedUnprotected
          have huntracked : ∀ p ∈ index, locOf v p ≠ locOf v file.path := by
            intro p hp heq
            obtain rfl | rfl := h.tracked file hfile index hgit p hp heq
            · exact hsent hp
            · exact hstored hp
          exact
            { canonical := hpasses.canonical
              declared := hpasses.declared
              inside := hpasses.reaches
              replaces := hpasses.takes
              unprotected := hprotected
              untracked := ⟨index, hgit, huntracked⟩ }
        holds := by
          intro file hfile
          rw [hwritten] at hfile
          obtain ⟨last, hlast⟩ := exists_lastAt (v := v) hfile
          obtain ⟨hmem, heq⟩ := mem_of_lastAt hlast
          obtain ⟨name, hat⟩ := hdoes.follows.file _ _ hlast
          exact ⟨name, by rw [hat, h.alike last hmem file hfile heq]⟩
        once := hdoes.once
        kept := by
          intro loc hnot
          rw [hwritten] at hnot
          refine (hdoes.follows.kept loc hnot).imp_right fun ⟨hdir, hnone⟩ => ?_
          obtain ⟨file, hfile, habove⟩ :=
            (Plan.run_subset (by simp) (by simp) fun _ hf => hf).2 loc hdir
          obtain ⟨hmem, hpasses, -⟩ := hcandidate file hfile
          exact ⟨hnone, hdoes.follows.made loc hdir, file, hmem, hpasses, habove⟩
        closed := hdoes.follows.closed
        temps := hdoes.temps }

/-! ### Two spellings of one place -/

/-- A volume that does not tell the case of letters, for the letters of ASCII. -/
def caseless : Naming JsString where
  fold := lowerAscii
  stores := id
  keepsName := true

/-- A worktree with nothing in it. -/
def bare : Tree := fun loc => if loc = [] then some ⟨[], .dir⟩ else none

theorem closed_bare : Closed bare where
  root := ⟨[], rfl⟩
  above loc n h := by simp [bare] at h

/-- A worktree with the file `out/report`. -/
def withReport : Worktree where
  tree := Function.update (makeDirs caseless bare [] [js "out"]) [js "out", js "report"]
    (some ⟨js "report", .file [1]⟩)
  closed := by
    have hclear : ∀ p, p <+: [js "out"].map caseless.fold → Clear bare p := by
      intro p _
      by_cases h : p = []
      · exact h ▸ closed_bare.root.clear
      · exact .inl (if_neg h)
    have hout : IsDir (makeDirs caseless bare [] [js "out"]) [js "out"] := ⟨js "out", by decide⟩
    refine (closed_bare.makeDirs hclear).put hout ?_
    rintro ⟨name, hdir⟩
    have hnone : makeDirs caseless bare [] [js "out"] [js "out", js "report"] = none := by decide
    exact absurd (hnone.symm.trans hdir) (by simp)

/-- **A file is replaced that git tracks as `out/Report`, and of `out/a` and `out/A` the second
stands where both were written.** -/
theorem two_spellings_overwrite :
    ¬Right { toLowerCase := lowerAscii } caseless (.ok [js "out/Report"]) [js "out/*"]
        [⟨js "out/report", [2]⟩] withReport.tree
        (installArtifacts { toLowerCase := lowerAscii } caseless (.ok [js "out/Report"])
          [js "out/*"] [⟨js "out/report", [2]⟩] withReport.tree) ∧
      ¬Right { toLowerCase := lowerAscii } caseless (.ok []) [js "out/*"]
        [⟨js "out/a", [1]⟩, ⟨js "out/A", [2]⟩] withReport.tree
        (installArtifacts { toLowerCase := lowerAscii } caseless (.ok []) [js "out/*"]
          [⟨js "out/a", [1]⟩, ⟨js "out/A", [2]⟩] withReport.tree) := by
  constructor
  · intro h
    have hwritten : (installArtifacts { toLowerCase := lowerAscii } caseless
        (.ok [js "out/Report"]) [js "out/*"] [⟨js "out/report", [2]⟩] withReport.tree).1.written =
          [⟨js "out/report", [2]⟩] := by decide +kernel
    obtain ⟨index, hindex, hnot⟩ :=
      (h.allowed ⟨js "out/report", [2]⟩ (by simp [hwritten])).untracked
    obtain rfl := Except.ok.inj hindex
    exact hnot (js "out/Report") (by simp) (by decide)
  · intro h
    have hwritten : (installArtifacts { toLowerCase := lowerAscii } caseless (.ok [])
        [js "out/*"] [⟨js "out/a", [1]⟩, ⟨js "out/A", [2]⟩] withReport.tree).1.written =
          [⟨js "out/a", [1]⟩, ⟨js "out/A", [2]⟩] := by decide +kernel
    obtain ⟨_, hfirst⟩ := h.holds ⟨js "out/a", [1]⟩ (by simp [hwritten])
    obtain ⟨_, hsecond⟩ := h.holds ⟨js "out/A", [2]⟩ (by simp [hwritten])
    have hsame : locOf caseless (js "out/a") = locOf caseless (js "out/A") := by decide
    rw [← hsame, hfirst] at hsecond
    simp at hsecond

end Install
end Client
end LaneBroker
