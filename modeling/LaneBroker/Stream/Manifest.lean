/-
# The manifest of a worktree

`remote-manifest.js`: `buildManifest`, with `applyRemoteExclude` of `remote-exclude.js` and the
globs of `remote-artifacts.js`.  The names are those that `git ls-files -z` prints, in bytes; the
code reads them as text.  A name is looked up on the disk by the bytes of its text, so a name
that is no UTF-8 is looked up under another, and a name that `lstat` refuses is taken for one
that is not there.
-/

import LaneBroker.Stream.Extract
import LaneBroker.Basis.Utf8
import Mathlib.Algebra.Ring.Nat

namespace LaneBroker
namespace Stream

open LaneBroker.Basis

/-! ### The disk and what is made of it -/

/-- **What stands at a path.** -/
inductive Item
  | dir
  | file (exec : Bool) (bytes : List UInt8)
  | link (target : List UInt8)
  /-- A socket, a fifo, a device. -/
  | special
  deriving DecidableEq

/-- **The worktree on disk**, by the bytes of the paths below its root. -/
structure Disk where
  item : List UInt8 → Option Item
  /-- `lstat` fails there whether or not something is there: a directory that may not be
  searched, a path that is too long, an input error. -/
  denied : List UInt8 → Bool := fun _ => false
  /-- `readFileSync` or `readlinkSync` fails there. -/
  unreadable : List UInt8 → Bool := fun _ => false

/-- `fs.lstatSync(path.join(root, relPath))`, none where it throws. -/
def Disk.lstatSync (disk : Disk) (relPath : JsString) : Option Item :=
  if disk.denied (encodeUtf8 relPath) then none else disk.item (encodeUtf8 relPath)

/-- **An entry of a manifest that is built**, with the fields that `canonicalizeEntry` keeps. -/
inductive Built.Entry
  | file (path : JsString) (exec : Bool) (size : Nat) (sha256 : JsString)
  | symlink (path target : JsString)
  deriving DecidableEq

/-- `e.path`. -/
def Built.Entry.path : Built.Entry → JsString
  | .file p _ _ _ => p
  | .symlink p _ => p

/-- **Why no manifest is built.** -/
inductive Refusal
  /-- A `RemoteIneligibleError`. -/
  | ineligible (reason : String) (path : JsString)
  /-- A read that failed. -/
  | failed (path : JsString)
  deriving DecidableEq

/-! ### The excluded paths -/

/-- The code unit of `*`. -/
def star : UInt16 := 0x2a

/-- `segmentRegex(seg).test(s)`: a star stands for any part of the segment. -/
def segmentMatches : JsString → JsString → Bool
  | [], s => s = []
  | c :: seg, s =>
    if c = star then s.tails.any (segmentMatches seg)
    else match s with
    | [] => false
    | u :: s => u = c && segmentMatches seg s

/-- `matchSegments`. -/
def matchSegments : List JsString → List JsString → Bool
  | [], segs => segs = []
  | pat :: pats, segs =>
    if pat = js "**" then segs.tails.any (matchSegments pats)
    else match segs with
    | [] => false
    | seg :: segs => segmentMatches pat seg && matchSegments pats segs

/-- `artifactMatches`. -/
def artifactMatches (pattern relPath : JsString) : Bool :=
  matchSegments pattern.segments relPath.segments

/-- `patternMatchesFile`: a pattern that ends in a slash names a directory above the file. -/
def patternMatchesFile (pattern relPath : JsString) : Bool :=
  if pattern.getLast? ≠ some JsString.slash then artifactMatches pattern relPath
  else (relPath.segments.inits.filter fun segs => segs ≠ [] ∧ segs ≠ relPath.segments).any
    fun segs => artifactMatches pattern.dropLast (JsString.joinSegments segs)

/-- `excludingPattern`: the first pattern that excludes the file. -/
def excludingPattern (patterns : List JsString) (relPath : JsString) : Option JsString :=
  patterns.find? fun pattern => patternMatchesFile pattern relPath

/-- The summary of what was excluded. -/
structure Excluded where
  count : Nat
  bytes : Nat
  byPattern : List (JsString × Nat)
  unmatched : List JsString
  deriving DecidableEq

/-- The size of a file that is excluded, as far as it is on disk. -/
def excludedBytes (disk : Disk) (relPath : JsString) : Nat :=
  match disk.lstatSync relPath with
  | some (.file _ bytes) => bytes.length
  | _ => 0

/-- **`applyRemoteExclude`**: the paths that are kept, and the summary of the others. -/
def applyRemoteExclude (disk : Disk) (patterns candidates : List JsString) :
    List JsString × Excluded :=
  let dropped := candidates.filter fun p => (excludingPattern patterns p).isSome
  let hits pattern := (dropped.filter fun p => excludingPattern patterns p = some pattern).length
  (candidates.filter fun p => (excludingPattern patterns p).isNone,
    { count := dropped.length
      bytes := (dropped.map (excludedBytes disk)).sum
      byPattern := patterns.map fun pattern => (pattern, hits pattern)
      unmatched := patterns.filter fun pattern => hits pattern = 0 })

/-! ### The checks -/

/-- `ENV_TEMPLATE_SUFFIXES`. -/
def envTemplateSuffixes : List JsString :=
  [js ".example", js ".sample", js ".template", js ".dist"]

/-- The names that `SSH_KEY_NAME` matches. -/
def sshKeyNames : List JsString :=
  [js "rsa", js "dsa", js "ecdsa", js "ed25519"].flatMap fun kind =>
    [[], js "_sk"].flatMap fun sk => [[], js ".pub"].map fun pub => js "id_" ++ kind ++ sk ++ pub

/-- `isDenylistedPath`. -/
def isDenylistedPath (relPath : JsString) : Bool :=
  let base := relPath.segments.getLast?.getD []
  if base = js ".env" ∨ js ".env." <+: base then
    !envTemplateSuffixes.any fun suffix => suffix <:+ base
  else if js ".pem" <:+ base then true
  else base ∈ sshKeyNames

/-- `validatePathShape`, and the checks of `buildManifest` that follow it. -/
def checkPath (modeMap : JsString → Option JsString) (relPath : JsString) :
    Except Refusal Unit :=
  if relPath.isAbsolute then .error (.ineligible "absolute path" relPath)
  else if !isCanonicalRelPath relPath then .error (.ineligible "invalid path segment" relPath)
  else if isDenylistedPath relPath then .error (.ineligible "denylisted secret path" relPath)
  else if modeMap relPath = some (js "160000") then
    .error (.ineligible "gitlink/submodule" relPath)
  else .ok ()

/-- The walk of a link's target in `checkSymlinkEscape`. -/
def walkEscape (symlinkPaths : List JsString) (relPath : JsString) :
    List JsString → List JsString → Option String
  | _, [] => none
  | stack, part :: rest =>
    if part = [] ∨ part = js "." then walkEscape symlinkPaths relPath stack rest
    else if part = js ".." then
      if stack = [] then some "symlink target escapes root"
      else walkEscape symlinkPaths relPath stack.dropLast rest
    else
      let cur := JsString.joinSegments (stack ++ [part])
      if cur ∈ symlinkPaths ∧ cur ≠ relPath then
        some "symlink target escapes root (passes through a symlink entry)"
      else walkEscape symlinkPaths relPath (stack ++ [part]) rest

/-- **`checkSymlinkEscape`**: the reason where it throws. -/
def checkSymlinkEscape (symlinkPaths : List JsString) (relPath target : JsString) :
    Option String :=
  if (ancestors relPath).any fun q => q ∈ symlinkPaths then
    some "symlink target escapes root (ancestor is a symlink)"
  else if target.isAbsolute then some "symlink target is absolute"
  else walkEscape symlinkPaths relPath relPath.segments.dropLast target.segments

/-- `OMITTABLE_REASONS`. -/
def omittableReasons : List String := ["symlink target is absolute", "symlink target escapes root"]

/-! ### What git printed -/

/-- `buf.toString('utf8').split('\0')`. -/
def nulChunks (buf : List UInt8) : List JsString := (decodeUtf8 buf).splitOn 0

/-- What `\s` matches. -/
def isSpace (u : UInt16) : Bool :=
  (0x9 ≤ u ∧ u ≤ 0xd) ∨ u = 0x20 ∨ u = 0xa0 ∨ u = 0x1680 ∨ (0x2000 ≤ u ∧ u ≤ 0x200a) ∨
    u = 0x2028 ∨ u = 0x2029 ∨ u = 0x202f ∨ u = 0x205f ∨ u = 0x3000 ∨ u = 0xfeff

/-- `parseModeMap`: the first word before the tab, for what stands after it; the last line of
several. -/
def parseModeMap (buf : List UInt8) (relPath : JsString) : Option JsString :=
  ((nulChunks buf).filterMap fun chunk =>
    if 0x9 ∈ chunk ∧ (chunk.dropWhile (· ≠ 0x9)).tail = relPath then
      some (((chunk.takeWhile (· ≠ 0x9)).dropWhile isSpace).takeWhile fun u => !isSpace u)
    else none).getLast?

/-- `parsePathList`. -/
def parsePathList (buf : List UInt8) : List JsString := (nulChunks buf).filter (· ≠ [])

/-! ### The manifest -/

/-- `comparePaths(a, b) <= 0`. -/
def comparePaths (a b : JsString) : Bool := encodeUtf8 a ≤ encodeUtf8 b

/-- `sortEntries`. -/
def sortEntries (entries : List Built.Entry) : List Built.Entry :=
  entries.mergeSort fun a b => comparePaths a.path b.path

section Build

variable (sha256 : List UInt8 → JsString) (disk : Disk)

/-- `computeEntry`, of what `lstat` found. -/
def computeEntry (relPath : JsString) : Item → Except Refusal Built.Entry
  | .link target =>
    if disk.unreadable (encodeUtf8 relPath) then .error (.failed relPath)
    else .ok (.symlink relPath (decodeUtf8 target))
  | .dir | .special => .error (.ineligible "special file" relPath)
  | .file exec bytes =>
    if disk.unreadable (encodeUtf8 relPath) then .error (.failed relPath)
    else .ok (.file relPath exec bytes.length (sha256 bytes))

/-- The loop over the candidates: each path once, and not where `lstat` throws. -/
def collect (modeMap : JsString → Option JsString) :
    List JsString → List JsString → Except Refusal (List Built.Entry)
  | _, [] => .ok []
  | seen, relPath :: rest =>
    if relPath ∈ seen then collect modeMap seen rest
    else match checkPath modeMap relPath with
    | .error r => .error r
    | .ok () =>
      match disk.lstatSync relPath with
      | none => collect modeMap (relPath :: seen) rest
      | some .dir => .error (.ineligible "directory entry" relPath)
      | some item =>
        match computeEntry sha256 disk relPath item with
        | .error r => .error r
        | .ok e => (collect modeMap (relPath :: seen) rest).map (e :: ·)

/-- The second pass: the entries that are kept, and the paths of the links that are omitted. -/
def sift (omitEscapingSymlinks : Bool) (symlinkPaths : List JsString) :
    List Built.Entry → Except Refusal (List Built.Entry × List JsString)
  | [] => .ok ([], [])
  | e :: rest =>
    match e with
    | .file .. => (sift omitEscapingSymlinks symlinkPaths rest).map fun (kept, omitted) =>
        (e :: kept, omitted)
    | .symlink p target =>
      match checkSymlinkEscape symlinkPaths p target with
      | none => (sift omitEscapingSymlinks symlinkPaths rest).map fun (kept, omitted) =>
          (e :: kept, omitted)
      | some reason =>
        if omitEscapingSymlinks ∧ reason ∈ omittableReasons then
          (sift omitEscapingSymlinks symlinkPaths rest).map fun (kept, omitted) =>
            (kept, p :: omitted)
        else .error (.ineligible reason p)

/-- `e.path` of the entries of type `symlink`. -/
def builtSymlinkPaths (entries : List Built.Entry) : List JsString :=
  entries.filterMap fun e =>
    match e with
    | .symlink p _ => some p
    | .file .. => none

/-- **What `buildManifest` returns.** -/
structure Manifest where
  entries : List Built.Entry
  manifestHash : JsString
  omittedSymlinks : List JsString
  excluded : Option Excluded
  deriving DecidableEq

/-- The options of `buildManifest`. -/
structure BuildOptions where
  omitEscapingSymlinks : Bool := false
  exclude : Option (List JsString) := none

/-- **`buildManifest`**, from what the two `git ls-files` print; `hashOf` is the hash of the text
of the entries. -/
def buildManifest (hashOf : List Built.Entry → JsString) (options : BuildOptions)
    (pathsOut modesOut : List UInt8) : Except Refusal Manifest :=
  let listed := parsePathList pathsOut
  let split := options.exclude.map fun patterns => applyRemoteExclude disk patterns listed
  let candidates := (split.map Prod.fst).getD listed
  match collect sha256 disk (parseModeMap modesOut) [] candidates with
  | .error r => .error r
  | .ok rawEntries =>
    match sift options.omitEscapingSymlinks (builtSymlinkPaths rawEntries) rawEntries with
    | .error r => .error r
    | .ok (kept, omitted) => .ok
      { entries := sortEntries kept
        manifestHash := hashOf (sortEntries kept)
        omittedSymlinks := omitted.mergeSort comparePaths
        excluded := split.map Prod.snd }

end Build
end Stream
end LaneBroker
