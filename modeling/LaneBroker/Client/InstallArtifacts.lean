/-
# Installing what a runner sent

`installArtifacts` of `remote-artifacts.js`.  All files are checked against the worktree as it
stands, then git is asked which of them it tracks, and then what is left is written one after
the other, each behind the checks once more.

Any call can fail: `throws` says what the checks of a path throw, and `fails` how many
directories are made before the writing of a path throws, and what.
-/

import LaneBroker.Basis.NamedTree
import LaneBroker.Basis.SyncedFile
import LaneBroker.Client.ArtifactPaths

namespace LaneBroker
namespace Client
namespace Install

open LaneBroker.Basis LaneBroker.Stream Artifacts NamedTree

/-- Where a path leads: names as the volume takes them. -/
abbrev Loc := List JsString

/-- What stands where. -/
abbrev Tree := NamedTree JsString Bytes

/-- **A worktree.** -/
structure Worktree where
  tree : Tree
  closed : Closed tree

/-- **A file that was sent.** -/
structure Sent where
  path : JsString
  bytes : Bytes
  deriving DecidableEq

/-- **The machine of the submitter.** -/
structure Host where
  toLowerCase : JsString → JsString
  /-- Why there is no worktree. -/
  unavailable : Option JsString := none
  /-- What the checks of a path throw. -/
  throws : JsString → Option JsString := fun _ => none
  /-- What the writing of a path throws, after so many directories. -/
  fails : JsString → Option (ℕ × JsString) := fun _ => none

variable (host : Host) (v : Naming JsString)

/-- The place of a path. -/
def locOf (path : JsString) : Loc := path.segments.map v.fold

/-! ### The source -/

/-- The loop of `unsafeAncestor`. -/
def unsafeFrom (tree : Tree) : Loc → List JsString → List JsString → Option JsString
  | _, _, [] => none
  | loc, before, seg :: segs =>
    let acc := JsString.joinSegments (before ++ [seg])
    match tree (loc ++ [v.fold seg]) with
    | none => none
    | some ⟨_, .link⟩ => some (js "an ancestor directory is a symlink: " ++ acc)
    | some ⟨_, .dir⟩ => unsafeFrom tree (loc ++ [v.fold seg]) (before ++ [seg]) segs
    | some _ => some (js "an ancestor is not a directory: " ++ acc)

/-- **`unsafeAncestor`.** -/
def unsafeAncestor (tree : Tree) (relPath : JsString) : Option JsString :=
  unsafeFrom v tree [] [] relPath.segments.dropLast

/-- The names that a path is stored under, as far as it stands there. -/
def canonicalSegs (tree : Tree) : Loc → List JsString → List JsString
  | _, [] => []
  | loc, seg :: segs =>
    match tree (loc ++ [v.fold seg]) with
    | none => seg :: segs
    | some stored => stored.name :: canonicalSegs tree (loc ++ [v.fold seg]) segs

/-- **`canonicalRel`**, of a path without links: what stands above something that stands is there,
so the way up to what exists is the way down.  `realpathSync.native` is taken to return the stored
names, as it does on Windows and macOS; that of glibc keeps the spelling that was sent also on a volume
that folds it. -/
def canonicalRel (tree : Tree) (relPath : JsString) : JsString :=
  JsString.joinSegments (canonicalSegs v tree [] relPath.segments)

/-- `st && !st.isFile()`. -/
def destinationProblem : Option (Stored JsString Bytes) → Option JsString
  | none => none
  | some ⟨_, .file _⟩ => none
  | some ⟨_, .link⟩ => some (js "destination is a symlink")
  | some _ => some (js "destination is not a regular file")

/-- The worktree, and the directories of the temporary files in it. -/
structure State where
  tree : Tree
  temps : List Loc := []

/-- The file that the temporary one is renamed to. -/
def renamed (tree : Tree) (relPath : JsString) (bytes : Bytes) : Stored JsString Bytes :=
  let made := v.stores (relPath.segments.getLast?.getD [])
  match tree (locOf v relPath) with
  | some stored => ⟨if v.keepsName then stored.name else made, .file bytes⟩
  | none => ⟨made, .file bytes⟩

/-- **`writeContained`**, and what it throws.  With no link on the way the directory resolves inside
the root, so the check for it never throws. -/
def writeContained (st : State) (relPath : JsString) (bytes : Bytes) : State × Option JsString :=
  let dirs := relPath.segments.dropLast
  match unsafeAncestor v st.tree relPath with
  | some reason => (st, some reason)
  | none =>
    match host.fails relPath with
    | some (made, message) =>
      ({ st with tree := makeDirs v st.tree [] (dirs.take made) }, some message)
    | none =>
      let tree := makeDirs v st.tree [] dirs
      let dir := dirs.map v.fold
      let temps := dir :: st.temps
      match (unsafeAncestor v tree relPath).or (destinationProblem (tree (locOf v relPath))) with
      | some reason => ({ tree, temps := temps.erase dir }, some reason)
      | none =>
        ({ tree := Function.update tree (locOf v relPath) (some (renamed v tree relPath bytes))
           temps := temps.erase dir }, none)

/-- The checks of the first loop: why the file is refused, or its canonical path. -/
def checkFile (tree : Tree) (patterns : List JsString) (file : Sent) : Except JsString JsString :=
  if !isCanonicalRelPath file.path then .error (js "invalid path")
  else if isDeniedArtifactPath host.toLowerCase file.path then .error (js "protected path")
  else if !isUnderDeclaredDir file.path patterns then
    .error (js "not under the literal directory of a declared pattern")
  else
    match host.throws file.path with
    | some message => .error (js "could not check destination: " ++ message)
    | none =>
      match (unsafeAncestor v tree file.path).or
          (destinationProblem (tree (locOf v file.path))) with
      | some reason => .error reason
      | none =>
        let canonical := canonicalRel v tree file.path
        if isDeniedArtifactPath host.toLowerCase canonical then .error (js "protected path")
        else .ok canonical

/-- **`trackedAmong`**, of the paths in the index: a path that is asked for names itself and what is
below it. -/
def trackedAmong (index relPaths : List JsString) : List JsString :=
  index.filter fun tracked =>
    relPaths.any fun p => tracked = p || (p ++ [JsString.slash]).isPrefixOf tracked

/-- **What `installArtifacts` returns**, with the files for their paths. -/
structure Report where
  written : List Sent := []
  refused : List (Sent × JsString) := []

/-- One round of the last loop. -/
def installStep (tracked : List JsString) (acc : Report × State) (accepted : Sent × JsString) :
    Report × State :=
  let (report, st) := acc
  let (file, canonical) := accepted
  if file.path ∈ tracked ∨ canonical ∈ tracked then
    ({ report with
      refused := report.refused ++
        [(file, js "git tracks this file; artifacts never overwrite tracked content")] }, st)
  else
    match writeContained host v st file.path file.bytes with
    | (st, none) => ({ report with written := report.written ++ [file] }, st)
    | (st, some reason) => ({ report with refused := report.refused ++ [(file, reason)] }, st)

/-- The files that pass the first loop, with their canonical paths. -/
def acceptedOf (tree : Tree) (patterns : List JsString) (files : List Sent) :
    List (Sent × JsString) :=
  files.filterMap fun file =>
    match checkFile host v tree patterns file with
    | .ok canonical => some (file, canonical)
    | .error _ => none

/-- Those that do not. -/
def refusedOf (tree : Tree) (patterns : List JsString) (files : List Sent) :
    List (Sent × JsString) :=
  files.filterMap fun file =>
    match checkFile host v tree patterns file with
    | .ok _ => none
    | .error reason => some (file, reason)

/-- **`installArtifacts`**, with the index of git or why it cannot be asked. -/
def installArtifacts (git : Except JsString (List JsString)) (patterns : List JsString)
    (files : List Sent) (tree : Tree) : Report × State :=
  match host.unavailable with
  | some message =>
    ({ refused := files.map fun file => (file, js "worktree unavailable: " ++ message) }, { tree })
  | none =>
    let refused := refusedOf host v tree patterns files
    let accepted := acceptedOf host v tree patterns files
    let asked := accepted.flatMap fun a => [a.1.path, a.2]
    match (if accepted = [] then .ok [] else git.map fun index => trackedAmong index asked) with
    | .error message =>
      ({ refused := refused ++ accepted.map fun a =>
          (a.1, js "could not check whether git tracks it: " ++ message) }, { tree })
    | .ok tracked => accepted.foldl (installStep host v tracked) ({ refused }, { tree })

end Install
end Client
end LaneBroker
