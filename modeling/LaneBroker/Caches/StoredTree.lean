/-
# The stored tree and its restored copy

`publishToStore` copies an installed tree with every recorded occurrence of an install path
replaced by a placeholder, the nested trees of workspaces put under a stash, build artifacts
and workspace links left out; `relocateRestoredTree` puts the paths of a new run into a copy
of that.  A stored tree is the list of what was made, the root first.  Two things are never
made at one place: `mkdirSync` and `symlinkSync` refuse.
-/

import LaneBroker.Caches.Relocation

namespace LaneBroker
namespace Caches
namespace DepsStore

open LaneBroker.Basis

/-- **Why publishing or restoring throws.** -/
inductive Failure
  | uncontained (resolved : Rel)
  | notTheWorkspaceLink (name : Rel)
  | stashExists
  | changedSinceCollection (rel : Rel)
  | unsupportedEntry (rel : Rel)
  | notADirectory (rel : Rel)
  | exists (rel : Rel)
  | noEntry (rel : Rel)
  | holdsNoPlaceholder (rel : Rel)
  | stillNamesAPath (rel : Rel)
  | unrecorded (rel : Rel)
  | noNewPath (role : Role)
  | ambiguousRoles (roles : List Role)
  | leftover (rel : Rel)
  deriving DecidableEq, Repr

/-! ### Copying a tree -/

/-- **The hooks of `cloneTree`.** -/
structure Hooks where
  onFile : Rel → Nat → List UInt8 → Except Failure Node
  linkTarget : Rel → List UInt8 → Except Failure (List UInt8)
  dirMode : Nat → Nat

/-- One entry of `cloneTree`.  The text of a link is written back as UTF-8. -/
def cloneEntry (hooks : Hooks) (e : Entry) : Except Failure Entry :=
  match e.node with
  | .dir mode => .ok ⟨e.path, .dir (hooks.dirMode mode)⟩
  | .symlink target =>
    (hooks.linkTarget e.path (readlinkSync target)).map fun text =>
      ⟨e.path, .symlink (readlinkSync text)⟩
  | .file mode content => (hooks.onFile e.path mode content).map fun node => ⟨e.path, node⟩
  | .other => .error (.unsupportedEntry e.path)

/-- **`cloneTree`**, of the entries it comes to. -/
def cloneTree (hooks : Hooks) (entries : List Entry) : Except Failure (List Entry) :=
  entries.mapM (cloneEntry hooks)

/-! ### Publishing -/

/-- The entries of a tree that `skip` leaves, at their place in the stored tree, after the
directory of the tree itself. -/
def Tree.kept (tree : Tree) (under : Rel) (skip : Rel → Bool) : List Entry :=
  ⟨under, .dir tree.mode⟩ ::
    (tree.entries.filter fun e => !onTheWay skip e.path).map fun e => ⟨under ++ e.path, e.node⟩

namespace Installed

variable (i : Installed)

/-- The `skip` of the installed tree. -/
def skips (rel : Rel) : Bool := i.linkNames.contains rel || isRegenerableBuildArtifact i.tree rel

/-- The nested trees, each with its workspace. -/
def nestedTrees : List (Workspace × Tree) :=
  i.workspaces.filterMap fun w =>
    match w.nested with
    | .tree tree => some (w, tree)
    | .absent | .notDirectory => none

/-- The directories of the stash above the nested trees. -/
def stashDirs : List Rel :=
  (i.nestedTrees.flatMap fun nested =>
    (workspaceStash :: nested.1.resolved).inits.tail).dedup

/-- What is copied of the installed tree. -/
def root : List Entry := i.tree.kept [] i.skips

/-- What is copied of the nested trees. -/
def nested : List Entry :=
  i.nestedTrees.flatMap fun nested =>
    nested.2.kept nested.1.stored (isRegenerableBuildArtifact nested.2)

/-- **The installed tree as it is laid out in the store.** -/
def layout : List Entry :=
  i.root ++ (i.stashDirs.map fun rel => ⟨rel, .dir 0o555⟩) ++ i.nested

end Installed

/-- `path.relative` of two paths in one directory. -/
def relativePath : Rel → Rel → Rel
  | a :: start, b :: stop =>
    if a = b then relativePath start stop
    else List.replicate (start.length + 1) (js "..") ++ b :: stop
  | start, stop => List.replicate start.length (js "..") ++ stop

/-- `workspaceLinkTarget`, with the tree in `node_modules`. -/
def workspaceLinkTarget (name : Rel) (w : Workspace) : List UInt8 :=
  encodeUtf8 (JsString.joinSegments
    (relativePath (js "node_modules" :: name.dropLast) w.resolved))

/-- The link of a workspace is the one that `npm ci` makes. -/
def checkLink (i : Installed) (w : Workspace) (name : Rel) : Except Failure Unit :=
  match i.tree.entries.find? fun e => e.path = name with
  | some ⟨_, .symlink target⟩ =>
    if readlinkSync target = workspaceLinkTarget name w then .ok ()
    else .error (.notTheWorkspaceLink name)
  | _ => .error (.notTheWorkspaceLink name)

/-- **What `publishToStore` checks before it copies.** -/
def checkWorkspaces (i : Installed) : Except Failure Unit := do
  i.workspaces.forM fun w => if w.contained then .ok () else .error (.uncontained w.resolved)
  i.workspaces.forM fun w => w.links.forM (checkLink i w)
  if i.workspaces ≠ [] ∧ i.tree.existsSync [workspaceStash] = true then .error .stashExists
  i.workspaces.forM fun w =>
    match w.nested with
    | .notDirectory => .error (.notADirectory w.stored)
    | .absent | .tree _ => .ok ()
  -- a link of the name of the stash that leads nowhere is copied, and is no directory
  if i.stashDirs ≠ [] ∧ i.root.any (fun e => e.path = [workspaceStash]) = true then
    .error (.exists [workspaceStash])

/-- `placeholderPairs`. -/
def placeholderPairs (record : Relocation) : List Pair :=
  record.prefixes.map fun g => ⟨g.path.bytes, tokenFor g.roles record.nonce⟩

/-- `template`. -/
def template (record : Relocation) (buf : List UInt8) (rel : Rel)
    (accept : List UInt8 → Nat → Nat → Bool) : Except Failure (List UInt8) :=
  match rewritePrefixes buf (placeholderPairs record) accept with
  | none => .error (.changedSinceCollection rel)
  | some out => .ok out

/-- `hooksFor`. -/
def hooksFor (record : Relocation) : Hooks where
  onFile rel mode content :=
    if record.entries.contains (rel, .text) then
      (template record content rel strictOccurrence).map fun out => .file (mode &&& 0o7555) out
    else .ok (.file (mode &&& 0o7555) content)
  linkTarget rel text :=
    if record.entries.contains (rel, .symlink) then template record text rel anchoredOccurrence
    else .ok text
  dirMode mode := mode &&& 0o7555

/-- What an entry holds, for a search: the text of a link or a file. -/
def holds (e : Entry) (needles : List (List UInt8)) : Bool :=
  match e.node with
  | .symlink target => needles.any (includes (readlinkSync target))
  | .file _ content => fileContains content needles
  | .dir _ | .other => false

/-- `findNeedleInTree`. -/
def findNeedleInTree (tree : List Entry) (needles : List (List UInt8)) (skip : List Rel) :
    Option Rel :=
  (tree.find? fun e => !skip.contains e.path && holds e needles).map Entry.path

/-- What is read of a recorded entry. -/
def readEntry (tree : List Entry) (entry : Rel × Kind) : Except Failure (List UInt8) :=
  match tree.find? fun e => e.path = entry.1 with
  | none => .error (.noEntry entry.1)
  | some e =>
    match entry.2, e.node with
    | .symlink, .symlink target => .ok (readlinkSync target)
    | .text, .file _ content => .ok content
    | _, _ => .error (.noEntry entry.1)

/-- One recorded entry in `verifyTemplatedCopy`. -/
def verifyEntry (copy : List Entry) (record : Relocation) (entry : Rel × Kind) :
    Except Failure Unit := do
  let content ← readEntry copy entry
  if includes content (tokenTail record.nonce) = false then
    .error (.holdsNoPlaceholder entry.1)
  if record.candidates.any (fun p => includes content p.bytes) = true then
    .error (.stillNamesAPath entry.1)

/-- **`verifyTemplatedCopy`.** -/
def verifyTemplatedCopy (copy : List Entry) (record : Relocation) : Except Failure Unit := do
  record.entries.forM (verifyEntry copy record)
  match findNeedleInTree copy
      (record.candidates.map (fun p => p.bytes) ++ [tokenTail record.nonce])
      (record.entries.map Prod.fst) with
  | none => .ok ()
  | some rel => .error (.unrecorded rel)

/-- **`publishToStore`**, and what it stores. -/
def publishToStore (i : Installed) (record : Relocation) : Except Failure (List Entry) := do
  checkWorkspaces i
  let copy ← cloneTree (hooksFor record) i.layout
  verifyTemplatedCopy copy record
  return copy

/-! ### Restoring -/

/-- **`materializeFromStore`.** -/
def materializeFromStore (stored : List Entry) : Except Failure (List Entry) :=
  cloneTree
    { onFile := fun _ mode content => .ok (.file (mode ||| 0o200) content)
      linkTarget := fun _ text => .ok text
      dirMode := fun mode => mode ||| 0o200 } stored

/-- The new path of a role, which must be given. -/
def newPathOf (newPaths : Role → Option PathText) (role : Role) : Except Failure PathText :=
  match newPaths role with
  | none => .error (.noNewPath role)
  | some path => if path.bytes = [] then .error (.noNewPath role) else .ok path

/-- The pair of one group: its placeholder, and the one path of its roles. -/
def restorePair (nonce : Nonce) (newPaths : Role → Option PathText) (g : Group) :
    Except Failure Pair := do
  let targets ← g.roles.mapM (newPathOf newPaths)
  match targets with
  | [] => .error (.ambiguousRoles g.roles)
  | target :: rest =>
    if rest.all (· == target) then .ok ⟨tokenFor g.roles nonce, target.bytes⟩
    else .error (.ambiguousRoles g.roles)

/-- A recorded entry with its placeholders replaced. -/
def relocateNode (pairs : List Pair) : Node → Node
  | .symlink target =>
    .symlink (readlinkSync ((rewritePrefixes (readlinkSync target) pairs anywhere).getD []))
  | .file mode content => .file mode ((rewritePrefixes content pairs anywhere).getD [])
  | node => node

/-- One recorded entry in the loop of `relocateRestoredTree`. -/
def relocateEntry (nonce : Nonce) (pairs : List Pair) (tree : List Entry) (entry : Rel × Kind) :
    Except Failure (List Entry) := do
  let content ← readEntry tree entry
  if includes content (tokenTail nonce) = false then .error (.holdsNoPlaceholder entry.1)
  return tree.map fun e => if e.path = entry.1 then ⟨e.path, relocateNode pairs e.node⟩ else e

/-- The roles in the order of their names in `newPaths`. -/
def allRoles : List Role := .workDir :: .realWorkDir :: perRunPathEnvNames

/-- The old paths that no new path contains. -/
def stale (candidates : List InstallPath) (newPaths : Role → Option PathText) :
    List (List UInt8) :=
  (candidates.filter fun c =>
    !(allRoles.filterMap newPaths).any fun d => includes d.bytes c.bytes).map fun c => c.bytes

/-- `findNeedleInEntries`. -/
def findNeedleInEntries (tree : List Entry) (entries : List (Rel × Kind))
    (needles : List (List UInt8)) : Option Rel :=
  (entries.find? fun entry =>
    match readEntry tree entry with
    | .ok content => needles.any (includes content)
    | .error _ => false).map Prod.fst

/-- **`relocateRestoredTree`**, with the tree to scan where it is another one. -/
def relocateRestoredTree (tree : List Entry) (record : Relocation)
    (newPaths : Role → Option PathText) (scanRoot : Option (List Entry)) :
    Except Failure (List Entry) := do
  let pairs ← record.prefixes.mapM (restorePair record.nonce newPaths)
  let restored ← record.entries.foldlM (relocateEntry record.nonce pairs) tree
  let needles := tokenTail record.nonce :: stale record.candidates newPaths
  let left := match scanRoot with
    | some stored => (findNeedleInTree stored needles (record.entries.map Prod.fst)).or
        (findNeedleInEntries restored record.entries needles)
    | none => findNeedleInTree restored needles []
  match left with
  | none => return restored
  | some rel => .error (.leftover rel)

/-- **`materializeHit`**: a copy of the stored tree, relocated.  Where the whole tree is cloned, the
store is scanned in its place. -/
def restore (stored : List Entry) (record : Relocation) (newPaths : Role → Option PathText)
    (cloned : Bool) : Except Failure (List Entry) := do
  let copy ← materializeFromStore stored
  relocateRestoredTree copy record newPaths (if cloned then some stored else none)

end DepsStore
end Caches
end LaneBroker
