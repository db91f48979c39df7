/-
# Storing and relocating an installed tree

`deps-cache.js`, from the scan of an installed `node_modules` for the paths it was installed
at to the restored copy that names the paths of another run: `collectInstallPathReferences`,
`publishToStore`, `materializeFromStore` and `relocateRestoredTree`.

A tree is the list of its entries in the order of the walk, each with its path.  What
`existsSync` and `readdirSync` answer below a tree, and where links lead, is the host's: links
go out of the tree.  A path comes to Node from the system and so is UTF-8 (`PathText`); the
target of a link is any bytes, and `readlinkSync` gives the string they decode to.  Nothing
else runs on the tree meanwhile, and the names of temporary files are free.
-/

import LaneBroker.Basis.Substitution
import LaneBroker.Basis.Utf8
import Mathlib.Data.List.Sort

namespace LaneBroker
namespace Caches
namespace DepsStore

open LaneBroker.Basis

/-! ### Paths and roles -/

/-- The bytes of an ASCII text. -/
def ascii (text : String) : List UInt8 := text.toList.map fun c => c.toNat.toUInt8

/-- The byte of `/`. -/
def slash : UInt8 := 0x2f

/-- **A path that Node has from the system**, as bytes. -/
structure PathText where
  bytes : List UInt8
  valid : Utf8.Valid bytes
  deriving DecidableEq

/-- **An install path**: a path that is given. -/
structure InstallPath extends PathText where
  given : bytes ≠ []
  deriving DecidableEq

/-- **The roles of install paths.** -/
inductive Role
  | workDir
  | realWorkDir
  | tmpdir
  | tmp
  | temp
  deriving DecidableEq, Repr

/-- The role as it is written. -/
def Role.name : Role → List UInt8
  | .workDir => ascii "workDir"
  | .realWorkDir => ascii "realWorkDir"
  | .tmpdir => ascii "TMPDIR"
  | .tmp => ascii "TMP"
  | .temp => ascii "TEMP"

/-- `PER_RUN_PATH_ENV_NAMES`. -/
def perRunPathEnvNames : List Role := [.tmpdir, .tmp, .temp]

/-- **The places an install path can be named in a run.** -/
structure InstallPaths where
  workDir : InstallPath
  realWorkDir : InstallPath
  /-- The variables of the environment that are set and not empty. -/
  env : Role → Option InstallPath

/-- **`installPathRoles`.** -/
def installPathRoles (paths : InstallPaths) : List (Role × InstallPath) :=
  (.workDir, paths.workDir) :: (.realWorkDir, paths.realWorkDir) ::
    perRunPathEnvNames.filterMap fun name => (paths.env name).map fun path => (name, path)

/-- **The roles that share a path.** -/
structure Group where
  roles : List Role
  path : InstallPath
  deriving DecidableEq

/-- One role in the loop over `roles`. -/
def addRole (groups : List Group) (role : Role × InstallPath) : List Group :=
  if groups.any fun g => g.path = role.2 then
    groups.map fun g => if g.path = role.2 then { g with roles := g.roles ++ [role.1] } else g
  else groups ++ [⟨[role.1], role.2⟩]

/-- The `groups` of `collectInstallPathReferences`. -/
def groupsOf (roles : List (Role × InstallPath)) : List Group := roles.foldl addRole []

/-! ### Rewriting -/

/-- What is replaced, and by what. -/
structure Pair where
  old : List UInt8
  new : List UInt8
  deriving DecidableEq, Repr

/-- `buf.indexOf(needle, last)`, in what is left of the buffer at `last`. -/
def indexFrom (needle : List UInt8) : List UInt8 → Nat → Option Nat
  | [], last => if needle = [] then some last else none
  | b :: rest, last =>
    if needle.isPrefixOf (b :: rest) then some last else indexFrom needle rest (last + 1)

/-- The loop over `ordered`: the first pair among those that occur first. -/
def nextHit (ordered : List Pair) (buf : List UInt8) (last : Nat) : Option (Nat × Pair) :=
  ordered.foldl (fun best pair =>
    match indexFrom pair.old (buf.drop last) last with
    | none => best
    | some idx =>
      match best with
      | none => some (idx, pair)
      | some hit => if idx < hit.1 then some (idx, pair) else best) none

/-- The loop of `rewritePrefixes` from `last` on.  Each round goes on by one byte at least, so the
rounds do not run out. -/
def rewriteFrom (ordered : List Pair) (accept : List UInt8 → Nat → Nat → Bool)
    (buf : List UInt8) : Nat → Nat → Option (List UInt8)
  | 0, last => some (buf.drop last)
  | rounds + 1, last =>
    match nextHit ordered buf last with
    | none => some (buf.drop last)
    | some (idx, pair) =>
      if accept buf idx (idx + pair.old.length) then
        (rewriteFrom ordered accept buf rounds (idx + pair.old.length)).map fun rest =>
          (buf.drop last).take (idx - last) ++ (pair.new ++ rest)
      else none

/-- The longest `from` first. -/
def longestFirst (pairs : List Pair) : List Pair :=
  pairs.insertionSort fun a b => b.old.length ≤ a.old.length

/-- **`rewritePrefixes`.** -/
def rewritePrefixes (buf : List UInt8) (pairs : List Pair)
    (accept : List UInt8 → Nat → Nat → Bool) : Option (List UInt8) :=
  rewriteFrom (longestFirst pairs) accept buf (buf.length + 1) 0

/-- `PATH_FOLLOWERS`. -/
def pathFollowers : List UInt8 :=
  [0x2f, 0x22, 0x27, 0x60, 0x29, 0x5d, 0x7d, 0x20, 0x09, 0x0a, 0x0d, 0x0b, 0x0c]

/-- `PATH_LEADERS`. -/
def pathLeaders : List UInt8 :=
  [0x22, 0x27, 0x60, 0x28, 0x5b, 0x7b, 0x20, 0x09, 0x0a, 0x0d, 0x0b, 0x0c]

/-- `strictOccurrence`. -/
def strictOccurrence (buf : List UInt8) (start stop : Nat) : Bool :=
  (start == 0 || buf[start - 1]?.any pathLeaders.contains) &&
    (stop == buf.length || buf[stop]?.any pathFollowers.contains)

/-- `anchoredOccurrence`. -/
def anchoredOccurrence (buf : List UInt8) (start stop : Nat) : Bool :=
  start == 0 && (stop == buf.length || buf[stop]? == some slash)

/-- `anywhere`. -/
def anywhere (_ : List UInt8) (_ _ : Nat) : Bool := true

/-! ### Placeholders -/

/-- A lowercase hex digit. -/
def IsHex (b : UInt8) : Prop := (0x30 ≤ b ∧ b ≤ 0x39) ∨ (0x61 ≤ b ∧ b ≤ 0x66)

instance (b : UInt8) : Decidable (IsHex b) :=
  decidable_of_iff ((Nat.ble 0x30 b.toNat && Nat.ble b.toNat 0x39 ||
      Nat.ble 0x61 b.toNat && Nat.ble b.toNat 0x66) = true) (by
    simp [IsHex, UInt8.le_iff_toNat_le])

/-- **A nonce**: sixteen random bytes in hex. -/
structure Nonce where
  hex : List UInt8
  isNonce : hex.length = 32 ∧ ∀ b ∈ hex, IsHex b
  deriving DecidableEq

/-- `tokenFor`. -/
def tokenFor (roles : List Role) (nonce : Nonce) : List UInt8 :=
  ascii "@@LANE_PREFIX_" ++ ((ascii "+").intercalate (roles.map Role.name) ++
    (ascii "_" ++ (nonce.hex ++ ascii "@@")))

/-- `tokenTail`. -/
def tokenTail (nonce : Nonce) : List UInt8 := ascii "_" ++ (nonce.hex ++ ascii "@@")

/-! ### Trees -/

/-- The path of an entry, below its tree. -/
abbrev Rel := List JsString

/-- **What stands at a path.** -/
inductive Node
  | file (mode : Nat) (content : List UInt8)
  | symlink (target : List UInt8)
  | dir (mode : Nat)
  /-- A socket, a pipe or a device. -/
  | other
  deriving DecidableEq, Repr

/-- `ent.isSymbolicLink()`. -/
def Node.isSymlink : Node → Bool
  | .symlink _ => true
  | _ => false

/-- `ent.isDirectory()`. -/
def Node.isDir : Node → Bool
  | .dir _ => true
  | _ => false

/-- **An entry of a tree.** -/
structure Entry where
  path : Rel
  node : Node
  deriving DecidableEq, Repr

/-- **An installed tree**: its entries in the order of the walk, and what the system says of paths
below it.  Paths are distinct, and whatever stands somewhere stands in a directory. -/
structure Tree where
  /-- Where it is. -/
  abs : Rel
  /-- Its `realpathSync`. -/
  real : Rel
  mode : Nat
  entries : List Entry
  existsSync : Rel → Bool
  readdirSync : Rel → Option (List JsString)
  distinct : (entries.map Entry.path).Nodup
  below : ∀ e ∈ entries, e.path ≠ [] ∧
    (e.path.dropLast = [] ∨ ∃ d ∈ entries, d.path = e.path.dropLast ∧ d.node.isDir = true)
  dir_exists : ∀ e ∈ entries, e.node.isDir = true → existsSync e.path = true

/-- `readlinkSync`, and what of the string is written back: the bytes of the decoded target. -/
def readlinkSync (target : List UInt8) : List UInt8 := encodeUtf8 (decodeUtf8 target)

/-! ### Build artifacts -/

/-- `.` in a regular expression matches all of the segment. -/
def noTerminator (seg : JsString) : Bool :=
  seg.all fun u => u != 0x0a && u != 0x0d && u != 0x2028 && u != 0x2029

/-- What follows `node-gyp/` in `GYP_PYCACHE_RE`. -/
def underPylib : Rel → Bool
  | [] => false
  | seg :: rest =>
    (seg == js "pylib" && rest.all noTerminator) || (noTerminator seg && underPylib rest)

/-- `GYP_PYCACHE_RE` up to `__pycache__`. -/
def underNodeGyp : Rel → Bool
  | [] => false
  | seg :: rest => (seg == js "node-gyp" && underPylib rest) || underNodeGyp rest

/-- `isGypPycache`. -/
def isGypPycache (tree : Tree) (rel : Rel) : Bool :=
  rel.getLast? == some (js "__pycache__") && underNodeGyp rel.dropLast &&
    match tree.readdirSync rel with
    | none => false
    | some caches => caches.all fun f => (js ".pyc").isSuffixOf f &&
        tree.existsSync (rel.dropLast ++ [f.takeWhile (· != 0x2e) ++ js ".py"])

/-- A name under `build/` in `NODE_GYP_INTERMEDIATE_RE`. -/
def buildLeftover (name : JsString) : Bool :=
  [js "Makefile", js "binding.Makefile", js "config.gypi", js "gyp-mac-tool"].contains name ||
    ((js ".target.mk").isSuffixOf name && name != js ".target.mk")

/-- `NODE_GYP_INTERMEDIATE_RE.exec(rel)`, and of a match its first group. -/
def nodeGypIntermediate (rel : Rel) : Option Rel :=
  match rel.reverse with
  | name :: parent :: up =>
    if parent = js "build" ∧ buildLeftover name = true then
      if up.all noTerminator then some up.reverse else none
    else if (parent = js "Release" ∨ parent = js "Debug") ∧
        (name = js ".deps" ∨ name = js "obj.target") then
      match up with
      | build :: up =>
        if build = js "build" ∧ up.all noTerminator = true then some up.reverse else none
      | [] => none
    else none
  | _ => none

/-- **`isRegenerableBuildArtifact`.** -/
def isRegenerableBuildArtifact (tree : Tree) (rel : Rel) : Bool :=
  isGypPycache tree rel ||
    (nodeGypIntermediate rel).any fun up => tree.existsSync (up ++ [js "binding.gyp"])

/-- The path or a directory above it, below the tree itself, meets a condition. -/
def onTheWay (p : Rel → Bool) (rel : Rel) : Bool := rel.inits.tail.any p

/-! ### Links -/

/-- **What the host says of paths**, as segments from the root. -/
structure Host where
  /-- `lstatSync(path).isSymbolicLink()`, `none` when it throws. -/
  isLink : Rel → Option Bool
  /-- `readlinkSync(path)`. -/
  readlink : Rel → Option JsString
  /-- `realpathSync(path)`. -/
  realpath : Rel → Option Rel

/-- The segments of one hop of `symlinkChain`: what is visited, and, at a link, where the next hop
starts and what it is. -/
def visitSegments (host : Host) :
    Rel → List JsString → Option (List Rel × Option (Rel × JsString))
  | _, [] => some ([], none)
  | current, seg :: rest =>
    if seg = [] ∨ seg = js "." then visitSegments host current rest
    else if seg = js ".." then
      (visitSegments host current.dropLast rest).map fun r => (current.dropLast :: r.1, r.2)
    else
      match host.isLink (current ++ [seg]) with
      | none => none
      | some false =>
        (visitSegments host (current ++ [seg]) rest).map fun r => ((current ++ [seg]) :: r.1, r.2)
      | some true =>
        (host.readlink (current ++ [seg])).map fun target =>
          ([current ++ [seg]], some (current, JsString.joinSegments (target :: rest)))

/-- The hops of `symlinkChain`, so many at most. -/
def visitHops (host : Host) : Nat → Rel → JsString → Option (List Rel)
  | 0, _, _ => none
  | hops + 1, current, text =>
    match visitSegments host (if text.segments.head? = some [] then [] else current)
      text.segments with
    | none => none
    | some (visited, none) => some visited
    | some (visited, some (current', text')) =>
      (visitHops host hops current' text').map fun rest => visited ++ rest

/-- `symlinkChain`, of a link with this text. -/
def symlinkChain (host : Host) (link : Rel) (text : JsString) : Option (List Rel) :=
  visitHops host 65 link.dropLast text

/-- What is left of a path below a base, when `path.relative` does not begin with `..`. -/
def relativeTo (base path : Rel) : Option Rel :=
  if base.isPrefixOf path then
    match path.drop base.length with
    | [] => some []
    | seg :: rest => if (js "..").isPrefixOf seg then none else some (seg :: rest)
  else none

/-- `prunedUnder`. -/
def prunedUnder (tree : Tree) (path : Rel) : Bool :=
  [tree.abs, tree.real].any fun base =>
    (relativeTo base path).any (onTheWay (isRegenerableBuildArtifact tree))

/-- **`refusesLink`.** -/
def refusesLink (host : Host) (tree : Tree) (rel : Rel) (text : JsString) (relocatable : Bool) :
    Bool :=
  match symlinkChain host (tree.abs ++ rel) text with
  | none => !relocatable
  | some chain =>
    if chain.any (prunedUnder tree) then true
    else
      match host.realpath (tree.abs ++ rel) with
      | none => !relocatable
      | some real =>
        match relativeTo tree.real real with
        | none => !relocatable
        | some _ => prunedUnder tree real

/-- The regular expression of `relocatableInstallLink`. -/
def insideNodeModules (rest : List UInt8) : Bool :=
  rest.head? == some slash &&
    ((rest.tail.splitOn slash).takeWhile (· != [])).contains (ascii "node_modules")

/-- `relocatableInstallLink`. -/
def relocatableInstallLink (groups : List Group) (text : List UInt8) : Option Bool :=
  (groups.find? fun g =>
    text == g.path.bytes || (g.path.bytes ++ [slash]).isPrefixOf text).map fun g =>
      g.roles.any (fun role => role == .workDir || role == .realWorkDir) &&
        insideNodeModules (text.drop g.path.bytes.length)

/-! ### Looking at files -/

/-- `SCAN_CHUNK_BYTES`. -/
def scanChunkBytes : Nat := 1024 * 1024

/-- **`forEachWindow`**: what is visited. -/
def eachWindow (content : List UInt8) (overlap : Nat) : List (List UInt8) :=
  if content.length ≤ scanChunkBytes then [content]
  else Substitution.windows overlap [] (Substitution.chunks scanChunkBytes content)

/-- `longest`. -/
def longestNeedle (needles : List (List UInt8)) : Nat :=
  (needles.map List.length).foldl max 0 - 1

/-- `buf.includes(needle)`. -/
def includes (buf needle : List UInt8) : Bool := decide (needle <:+: buf)

/-- `fileContains`. -/
def fileContains (content : List UInt8) (needles : List (List UInt8)) : Bool :=
  (eachWindow content (longestNeedle needles)).any fun window => needles.any (includes window)

/-- The `hits` of `fileNeedleHits`. -/
def fileNeedleHits (content : List UInt8) (needles : List (List UInt8)) : List (List UInt8) :=
  needles.filter fun n =>
    (eachWindow content (longestNeedle needles)).any fun window => includes window n

/-- `REWRITABLE_EXTENSIONS`. -/
def rewritableExtensions : List JsString :=
  [js ".js", js ".cjs", js ".mjs", js ".ts", js ".json", js ".map", js ".prisma", js ".txt",
    js ".md", js ".sh", js ".yml", js ".yaml"]

/-- `path.extname` of a name. -/
def extname (name : JsString) : JsString :=
  let ext := (name.reverse.takeWhile (· != 0x2e)).reverse
  if ext.length = name.length ∨ ext.length + 1 = name.length ∨ name = js ".." then []
  else 0x2e :: ext

/-- `toLowerCase`, as far as the extensions go. -/
def toLowerCase (s : JsString) : JsString :=
  s.map fun u => if 0x41 ≤ u ∧ u ≤ 0x5a then u + 0x20 else u

/-- **`isRewritableText`.** -/
def isRewritableText (rel : Rel) (content : List UInt8) : Bool :=
  let ext := toLowerCase (extname (rel.getLast?.getD []))
  let isBinShim := ext == [] && rel.head? == some (js ".bin") && 1 < rel.length &&
    content.take 2 == ascii "#!"
  (rewritableExtensions.contains ext || isBinShim) && !content.contains 0 &&
    encodeUtf8 (decodeUtf8 content) == content

/-! ### The scan -/

/-- The kinds of recorded entries. -/
inductive Kind
  | text
  | symlink
  deriving DecidableEq, Repr

/-- **Why a scan ends early.** -/
inductive Outcome
  | collision
  | prunedLink (rel : Rel)
  | binary (rel : Rel)
  | ambiguous (rel : Rel)
  deriving DecidableEq, Repr

/-- What a scan has found so far. -/
structure Scan where
  /-- The paths of the groups in `found`. -/
  found : List InstallPath
  entries : List (Rel × Kind)

/-- The nested `node_modules` of a workspace, by `lstat`. -/
inductive Nested
  | absent
  | notDirectory
  | tree (tree : Tree)

/-- **A workspace**: a plain relative path, and the names of the links to it. -/
structure Workspace where
  resolved : Rel
  plain : js "node_modules" ∉ resolved
  links : List Rel
  /-- `assertContained` passes. -/
  contained : Bool
  nested : Nested

/-- **What was installed.** -/
structure Installed where
  tree : Tree
  workspaces : List Workspace
  distinct : (workspaces.map Workspace.resolved).Nodup

/-- `WORKSPACE_STASH`. -/
def workspaceStash : JsString := js ".lane-workspaces"

/-- The names of all workspace links. -/
def Installed.linkNames (i : Installed) : List Rel := i.workspaces.flatMap Workspace.links

/-- The place of a nested tree in the stored one. -/
def Workspace.stored (w : Workspace) : Rel := workspaceStash :: (w.resolved ++ [js "node_modules"])

/-- **What the scan of a tree depends on.** -/
structure Scanned where
  host : Host
  groups : List Group
  nonce : Nonce
  linkNames : List Rel
  base : Tree
  /-- Where the tree sits in the stored one. -/
  under : Rel

namespace Scanned

variable (c : Scanned)

/-- The bytes of the install paths. -/
def raw : List (List UInt8) := c.groups.map fun g => g.path.bytes

/-- The `pairs` of the scan, which only tell whether every occurrence is accepted. -/
def pairs : List Pair := c.groups.map fun g => ⟨g.path.bytes, []⟩

/-- The paths that a text names. -/
def named (text : List UInt8) : List InstallPath :=
  (c.groups.filter fun g => includes text g.path.bytes).map Group.path

/-- A symbolic link in the walk. -/
def scanLink (scan : Scan) (rel : Rel) (target : List UInt8) : Except Outcome Scan :=
  let text := readlinkSync target
  let keeps := relocatableInstallLink c.groups text
  let hit := c.raw.any (includes text)
  if keeps = some false then .error (.prunedLink (c.under ++ rel))
  else if (keeps ≠ none ∨ hit = false) ∧
      refusesLink c.host c.base rel (decodeUtf8 target) (keeps == some true) = true then
    .error (.prunedLink (c.under ++ rel))
  else if includes text (tokenTail c.nonce) then .error .collision
  else if hit = true ∧ rewritePrefixes text c.pairs anchoredOccurrence = none then
    .error (.ambiguous (c.under ++ rel))
  else if hit then
    .ok ⟨scan.found ++ c.named text, scan.entries ++ [(c.under ++ rel, .symlink)]⟩
  else .ok scan

/-- A file in the walk. -/
def scanFile (scan : Scan) (rel : Rel) (content : List UInt8) : Except Outcome Scan :=
  let hits := fileNeedleHits content (c.raw ++ [tokenTail c.nonce])
  if hits.contains (tokenTail c.nonce) then .error .collision
  else if hits = [] then .ok scan
  else if isRewritableText rel content = false then .error (.binary (c.under ++ rel))
  else if rewritePrefixes content c.pairs strictOccurrence = none then
    .error (.ambiguous (c.under ++ rel))
  else
    .ok ⟨scan.found ++ (c.groups.filter fun g => hits.contains g.path.bytes).map Group.path,
      scan.entries ++ [(c.under ++ rel, .text)]⟩

/-- **One entry of the walk.** -/
def scanEntry (scan : Scan) (e : Entry) : Except Outcome Scan :=
  if c.under = [] ∧ e.node.isSymlink = true ∧ e.path ∈ c.linkNames then .ok scan
  else if isRegenerableBuildArtifact c.base e.path then
    if e.node.isSymlink then .error (.prunedLink (c.under ++ e.path)) else .ok scan
  else
    match e.node with
    | .dir _ | .other => .ok scan
    | .symlink target => c.scanLink scan e.path target
    | .file _ content => c.scanFile scan e.path content

/-- The entries that the walk comes to: it does not go into what it leaves out. -/
def visited : List Entry :=
  c.base.entries.filter fun e =>
    !onTheWay (isRegenerableBuildArtifact c.base) e.path.dropLast

/-- `walk`. -/
def walk (scan : Scan) : Except Outcome Scan := c.visited.foldlM c.scanEntry scan

end Scanned

/-- The nested tree of one workspace in the scan. -/
def scanNested (c : Scanned) (scan : Scan) (w : Workspace) : Except Outcome Scan :=
  if w.contained then
    match w.nested with
    | .absent => .ok scan
    | .notDirectory => .error (.prunedLink w.stored)
    | .tree nested => ({ c with base := nested, under := w.stored } : Scanned).walk scan
  else .error (.prunedLink w.stored)

/-- **`scanTree`.** -/
def scanTree (host : Host) (i : Installed) (groups : List Group) (nonce : Nonce) :
    Except Outcome Scan :=
  let c : Scanned := ⟨host, groups, nonce, i.linkNames, i.tree, []⟩
  if i.workspaces ≠ [] ∧ i.tree.existsSync [workspaceStash] = true then
    .error (.ambiguous [workspaceStash])
  else
    match c.walk ⟨[], []⟩ with
    | .error outcome => .error outcome
    | .ok scan => i.workspaces.foldlM (scanNested c) scan

/-- **A relocation record.** -/
structure Relocation where
  nonce : Nonce
  candidates : List InstallPath
  prefixes : List Group
  entries : List (Rel × Kind)
  deriving DecidableEq

/-- The attempts of `collectInstallPathReferences`, each with its nonce. -/
def collectFrom (host : Host) (i : Installed) (groups : List Group) :
    List Nonce → Except Outcome Relocation
  | [] => .error (.ambiguous [js "@@LANE_PREFIX_"])
  | nonce :: rest =>
    match scanTree host i groups nonce with
    | .error .collision => collectFrom host i groups rest
    | .error outcome => .error outcome
    | .ok scan =>
      .ok ⟨nonce, groups.map Group.path, groups.filter fun g => scan.found.contains g.path,
        scan.entries⟩

/-- **`collectInstallPathReferences`**, with the nonces it draws. -/
def collectInstallPathReferences (host : Host) (i : Installed)
    (roles : List (Role × InstallPath)) (newNonce : Nat → Nonce) : Except Outcome Relocation :=
  collectFrom host i (groupsOf roles) ((List.range 5).map newNonce)

end DepsStore
end Caches
end LaneBroker
