/-
# Extracting a snapshot

`remote-stream.js`: `extractFrames` with `validateFrame` and `checkExtractSymlinkTarget`, and
`isCanonicalRelPath` of `remote-manifest.js`.  The frames and the manifest are whatever the
client sent, so each of their fields is any JSON value.

The rules are about strings: the frame's path is canonical, the manifest lists it, none of its
ancestors is the path of an entry of type `symlink`.  The writes are about the file tree, where
a path leads wherever the links on it lead.  The two meet in the host: what the file system
makes of a segment of a path (`nameOf`) need not tell all strings apart.

One `Pass` is what one turn of the loop reads: the line, and the body where the frame has one.
The runner's blob store is outside the tree: a pass says what it answers.
-/

import LaneBroker.Basis.FileTree
import LaneBroker.Basis.JsText

namespace LaneBroker
namespace Stream

open LaneBroker.Basis

/-! ### The manifest and the frames -/

/-- **One entry of the manifest**, as it was parsed. -/
structure Entry where
  path : JsVal
  type : JsVal
  exec : JsVal := .undefined
  size : JsVal := .undefined
  sha256 : JsVal := .undefined
  target : JsVal := .undefined
  deriving DecidableEq

/-- **One frame**, as it was parsed; a line that is no object has no field. -/
structure Frame where
  /-- `frame.end`. -/
  ending : JsVal := .undefined
  path : JsVal
  type : JsVal
  exec : JsVal := .undefined
  size : JsVal := .undefined
  /-- `frame.body`, the encoding of the body. -/
  body : JsVal := .undefined
  target : JsVal := .undefined
  deriving DecidableEq

/-- `frame.path`, once it is known to be a string. -/
def Frame.pathText (frame : Frame) : JsString :=
  match frame.path with
  | .str p => p
  | _ => []

/-- `frame.target`, once it is known to be a string. -/
def Frame.targetText (frame : Frame) : JsString :=
  match frame.target with
  | .str p => p
  | _ => []

/-- `expectedByPath.get(p)`: the last of several entries of one path. -/
def expectedByPath (entries : List Entry) (p : JsString) : Option Entry :=
  (entries.filter fun e => e.path = .str p).getLast?

/-- `symlinkPaths`: the paths of all entries of type `symlink`. -/
def symlinkPaths (entries : List Entry) : List JsVal :=
  (entries.filter fun e => e.type = .str (js "symlink")).map Entry.path

/-- `limits`, with the blob cache on or off. -/
structure Limits where
  maxFileBytes : Option Int := none
  maxTotalBytes : Option Int := none
  blobCache : Bool := false

/-- `MIN_CACHEABLE_BYTES`. -/
def minCacheableBytes : Int := 8 * 1024

/-- `isBlobHash`: 64 lower-case hexadecimal digits. -/
def isBlobHash : JsVal → Bool
  | .str s =>
    s.length = 64 ∧ s.all fun c => (0x30 ≤ c ∧ c ≤ 0x39) ∨ (0x61 ≤ c ∧ c ≤ 0x66)
  | _ => false

/-! ### The checks -/

/-- `isCanonicalRelPath`, of a string. -/
def isCanonicalRelPath (p : JsString) : Bool :=
  if p = [] then false
  else if 0x5c ∈ p ∨ 0 ∈ p then false
  else if p.head? = some JsString.slash ∨ p.getLast? = some JsString.slash then false
  else if p.isAbsolute then false
  else p.segments.all fun seg => seg ≠ [] ∧ seg ≠ js "." ∧ seg ≠ js ".."

/-- The prefixes that the loops over the ancestors of a path build up, one segment at a time. -/
def prefixes (acc : JsString) : List JsString → List JsString
  | [] => []
  | part :: rest =>
    let here := if acc = [] then part else acc ++ JsString.slash :: part
    here :: prefixes here rest

/-- The paths of the directories above a path. -/
def ancestors (p : JsString) : List JsString := prefixes [] p.segments.dropLast

/-- The checks of `validateFrame` on a frame whose entry is a file. -/
def validateFile (limits : Limits) (remainingBudget : Option Int) (frame : Frame) (entry : Entry)
    (p : JsString) : Except JsString Unit :=
  if frame.exec.truthy ≠ entry.exec.truthy then .error (js "exec mismatch: " ++ p)
  else match frame.size.integer? with
  | none => .error (js "invalid size: " ++ p)
  | some size =>
    if size < 0 then .error (js "invalid size: " ++ p)
    else if !frame.size.strictEq entry.size then .error (js "size mismatch: " ++ p)
    else if limits.maxFileBytes.any (· < size) then .error (js "oversize frame: " ++ p)
    else if remainingBudget.any (· < size) then .error (js "oversize total: " ++ p)
    else if frame.body = .str (js "cached") then
      if !limits.blobCache then .error (js "cached body not enabled: " ++ p)
      -- `entry.size`, which is `frame.size` here
      else if size < minCacheableBytes then
        .error (js "cached body below minimum size: " ++ p)
      else if !isBlobHash entry.sha256 then
        .error (js "cached body without a valid sha256: " ++ p)
      else .ok ()
    else if limits.blobCache && frame.body ≠ .undefined then
      .error (js "unknown body encoding: " ++ p)
    else .ok ()

/-- **`validateFrame`**, with the reason where it refuses. -/
def validateFrame (entries : List Entry) (limits : Limits) (seen : List JsString)
    (remainingBudget : Option Int) (frame : Frame) : Except JsString Unit :=
  match frame.path with
  | .str p =>
    if p.isAbsolute then .error (js "absolute path: " ++ p)
    else if !isCanonicalRelPath p then .error (js "invalid path: " ++ p)
    else match expectedByPath entries p with
    | none => .error (js "unlisted path: " ++ p)
    | some entry =>
      if p ∈ seen then .error (js "duplicate path: " ++ p)
      else if (ancestors p).any fun q => .str q ∈ symlinkPaths entries then
        .error (js "ancestor is symlink: " ++ p)
      else if !frame.type.strictEq entry.type then .error (js "type mismatch: " ++ p)
      else if entry.type = .str (js "file") then
        validateFile limits remainingBudget frame entry p
      else if !frame.target.strictEq entry.target then .error (js "target mismatch: " ++ p)
      else .ok ()
  | _ => .error (js "malformed frame")

/-- The walk of a link's target over the path strings. -/
def walkTarget (entries : List Entry) (relPath : JsString) :
    List JsString → List JsString → Except JsString Unit
  | _, [] => .ok ()
  | stack, part :: rest =>
    if part = [] ∨ part = js "." then walkTarget entries relPath stack rest
    else if part = js ".." then
      if stack = [] then .error (js "symlink target escapes: " ++ relPath)
      else walkTarget entries relPath stack.dropLast rest
    else
      let cur := JsString.joinSegments (stack ++ [part])
      if .str cur ∈ symlinkPaths entries ∧ cur ≠ relPath then
        .error (js "symlink target escapes (passes through a symlink entry): " ++ relPath)
      else walkTarget entries relPath (stack ++ [part]) rest

/-- **`checkExtractSymlinkTarget`**, with the reason where it refuses. -/
def checkExtractSymlinkTarget (entries : List Entry) (relPath : JsString) :
    JsVal → Except JsString Unit
  | .str target =>
    if target.isAbsolute then .error (js "symlink target absolute: " ++ relPath)
    else if (ancestors relPath).any fun q => .str q ∈ symlinkPaths entries then
      .error (js "symlink target escapes (ancestor is a symlink): " ++ relPath)
    else walkTarget entries relPath relPath.segments.dropLast target.segments
  | _ => .error (js "symlink target absolute: " ++ relPath)

/-! ### The host -/

/-- **The host of the extraction**: its volume, what that makes of a segment of a path (the
bytes that stand for it, folded where the volume folds case), and how long a path may be. -/
structure Host (ν : Type) where
  volume : Volume ν
  nameOf : JsString → ν
  /-- A call takes the path of these names below `destDir`; one that is too long it refuses. -/
  pathFits : List ν → Bool := fun _ => true

/-- What a file holds. -/
abbrev Body := List UInt8

/-- **The tree on the host's volume.** -/
abbrev Tree (ν : Type) := FileTree ν Body

section Files

variable {ν : Type} (host : Host ν)

/-- The names of a canonical path. -/
def Host.namesOf (p : JsString) : List ν := p.segments.map host.nameOf

/-- The names of the directory of a canonical path, `path.dirname`. -/
def Host.dirsOf (p : JsString) : List ν := p.segments.dropLast.map host.nameOf

/-- What the host makes of one component of a link's target. -/
def Host.componentOf (seg : JsString) : Component ν :=
  if seg = [] ∨ seg = js "." then .stay
  else if seg = js ".." then .up
  else .down (host.nameOf seg)

/-- The target of a link, as the host follows it. -/
def Host.targetOf (target : JsString) : Target ν where
  absolute := target.isAbsolute
  path := target.segments.map host.componentOf

variable [DecidableEq ν]

/-- Something new at `path.join(destDir, p)`: the directory is looked up, the name must be
free. -/
def Host.createAt (t : Tree ν) (base : List ν) (p : JsString) (x : Node ν Body) :
    Except FsError (Tree ν × List ν) :=
  if !host.pathFits (host.namesOf p) then .error .nameTooLong
  else match t.walk host.volume.links base ((host.dirsOf p).map .down) with
  | .error e => .error e
  | .ok (_, loc) =>
    match p.segments.getLast? with
    | none => .error .exists
    | some seg =>
      match t.create host.volume loc (host.nameOf seg) x with
      | .error e => .error e
      | .ok t' => .ok (t', loc ++ [host.nameOf seg])

/-- `mkdirSync` of `path.dirname(path.join(destDir, p))`, recursive: the tree comes back also
where it fails. -/
def Host.mkdirSync (t : Tree ν) (base : List ν) (p : JsString) : Tree ν × Except FsError Unit :=
  if !host.pathFits (host.dirsOf p) then (t, .error .nameTooLong)
  else t.mkdirs host.volume host.volume.links base (host.dirsOf p)

/-- `openSync` with `O_CREAT | O_EXCL | O_WRONLY | O_NOFOLLOW`: the tree and where the file
is. -/
def Host.openSync (t : Tree ν) (base : List ν) (p : JsString) : Except FsError (Tree ν × List ν) :=
  host.createAt t base p (.file [] false)

/-- `chmodSync` of `path.join(destDir, p)`, which follows links. -/
def Host.chmodSync (t : Tree ν) (base : List ν) (p : JsString) (exec : Bool) :
    Except FsError (Tree ν) :=
  if !host.pathFits (host.namesOf p) then .error .nameTooLong
  else match t.walk host.volume.links base ((host.namesOf p).map .down) with
  | .error e => .error e
  | .ok (_, loc) => t.amend loc fun body _ => (body, exec)

/-- `symlinkSync`, which takes no target with a NUL in it and none that is empty. -/
def Host.symlinkSync (t : Tree ν) (base : List ν) (target p : JsString) :
    Except FsError (Tree ν) :=
  if 0 ∈ target then .error .invalid
  else if target = [] then .error .noEntry
  else match host.createAt t base p (.link (host.targetOf target)) with
  | .error e => .error e
  | .ok (t', _) => .ok t'

/-- A new file: opened, written and given its mode.  What went wrong after the open comes back
with the tree. -/
def Host.writeNew (t : Tree ν) (base : List ν) (p : JsString) (bytes : Body) (exec : Bool) :
    Except FsError (Tree ν × Except FsError Unit) :=
  match host.openSync t base p with
  | .error e => .error e
  | .ok (opened, loc) =>
    -- the write goes to the open file, wherever its path leads
    match opened.amend loc fun _ mode => (bytes, mode) with
    | .error e => .ok (opened, .error e)
    | .ok written =>
      match host.chmodSync written base p exec with
      | .error e => .ok (written, .error e)
      | .ok t' => .ok (t', .ok ())

end Files

/-! ### The loop -/

/-- **What `readLine` returned**: an error, `null`, or a line, parsed where it is JSON. -/
inductive LineRead
  | failed (message : JsString)
  | eof
  | line (frame : Option Frame)

/-- **What `readBytes` returned**: an error, `null`, or the bytes. -/
inductive BodyRead
  | failed (message : JsString)
  | eof
  | bytes (body : Body)

/-- **What the blob store has for an entry.** -/
inductive BlobRead
  | hit (bytes : Body)
  | miss
  | corrupt

/-- **What `hasMore` returned** after the last frame. -/
inductive AfterRead
  | failed (message : JsString)
  | more
  | nothing

/-- **What one turn of the loop is given.** -/
structure Pass where
  line : LineRead
  body : BodyRead := .eof
  blob : BlobRead := .miss
  /-- `publishBlob` stored the body. -/
  publishes : Bool := false
  after : AfterRead := .nothing

/-- **`limits.blobCache.stats`.** -/
structure Stats where
  hits : Nat := 0
  misses : Nat := 0
  corrupt : Nat := 0
  published : Nat := 0

/-- **Where the loop stands.** -/
structure State (ν : Type) where
  tree : Tree ν
  seen : List JsString := []
  cumulativeBytes : Int := 0
  stats : Stats := {}
  missing : List JsString := []
  corrupt : List JsString := []

/-- **How the extraction ends.** -/
inductive Outcome
  /-- `{ok: false, reason}`. -/
  | refused (reason : JsString)
  /-- A file operation outside any `try` failed. -/
  | threw (e : FsError)
  /-- What `verifyManifestNoGit`, which only reads, says of the tree. -/
  | verifies

section Loop

variable {ν : Type} [DecidableEq ν] (host : Host ν) (base : List ν) (entries : List Entry)
  (limits : Limits)

/-- What is left of `maxTotalBytes`. -/
def State.remaining (s : State ν) : Option Int := limits.maxTotalBytes.map (· - s.cumulativeBytes)

/-- A file operation's error in a reason. -/
def failedAt (what : String) (p : JsString) (e : FsError) : Outcome :=
  .refused (js what ++ p ++ js ": " ++ js e.code)

/-- A frame with `body: 'cached'`: the blob is copied out of the store.  The size is charged
also where there is no intact blob. -/
def extractCached (s : State ν) (frame : Frame) (entry : Entry) (pass : Pass) :
    State ν × Option Outcome :=
  let p := frame.pathText
  let s := { s with cumulativeBytes := s.cumulativeBytes + (frame.size.integer?).getD 0 }
  match pass.blob with
  | .miss =>
    ({ s with
        stats := { s.stats with misses := s.stats.misses + 1 }, missing := s.missing ++ [p] },
      none)
  | .corrupt =>
    ({ s with
        stats := { s.stats with corrupt := s.stats.corrupt + 1 }, corrupt := s.corrupt ++ [p] },
      none)
  | .hit bytes =>
    match host.writeNew s.tree base p bytes entry.exec.truthy with
    | .error e => (s, some (failedAt "open failed: " p e))
    | .ok (t, .error e) => ({ s with tree := t }, some (failedAt "open failed: " p e))
    | .ok (t, .ok ()) =>
      ({ s with tree := t, stats := { s.stats with hits := s.stats.hits + 1 } }, none)

/-- A frame with its body in the stream. -/
def extractBody (s : State ν) (frame : Frame) (pass : Pass) : State ν × Option Outcome :=
  let p := frame.pathText
  let size := (frame.size.integer?).getD 0
  match pass.body with
  | .failed m => (s, some (.refused (js "file body: " ++ m)))
  | .eof => (s, some (.refused (js "truncated stream: body of " ++ p)))
  | .bytes bytes =>
    match host.writeNew s.tree base p bytes frame.exec.truthy with
    | .error e => (s, some (failedAt "open failed: " p e))
    | .ok (t, .error e) => ({ s with tree := t }, some (.threw e))
    | .ok (t, .ok ()) =>
      let published := limits.blobCache && minCacheableBytes ≤ size && pass.publishes
      ({ s with
          tree := t
          cumulativeBytes := s.cumulativeBytes + size
          stats := { s.stats with published := s.stats.published + published.toNat } },
        none)

/-- Any other frame: a link, if its target passes. -/
def extractLink (s : State ν) (frame : Frame) : State ν × Option Outcome :=
  let p := frame.pathText
  match checkExtractSymlinkTarget entries p frame.target with
  | .error r => (s, some (.refused r))
  | .ok () =>
    match host.symlinkSync s.tree base frame.targetText p with
    | .error e => (s, some (failedAt "symlink create failed: " p e))
    | .ok t => ({ s with tree := t }, none)

/-- A validated frame: its directory is made, then the file or the link. -/
def extractFrame (s : State ν) (frame : Frame) (entry : Entry) (pass : Pass) :
    State ν × Option Outcome :=
  let s := { s with seen := s.seen ++ [frame.pathText] }
  match host.mkdirSync s.tree base frame.pathText with
  | (t, .error e) => ({ s with tree := t }, some (.threw e))
  | (t, .ok ()) =>
    let s := { s with tree := t }
    if frame.type = .str (js "file") ∧ frame.body = .str (js "cached") then
      extractCached host base s frame entry pass
    else if frame.type = .str (js "file") then extractBody host base limits s frame pass
    else extractLink host base entries s frame

/-- What stands after the terminator frame. -/
def finish (s : State ν) (pass : Pass) : Outcome :=
  if s.seen.length ≠ entries.length then
    .refused (js "missing entry: stream ended before all manifest entries arrived")
  else match pass.after with
  | .failed m => .refused (js "after terminator: " ++ m)
  | .more => .refused (js "trailing bytes after terminator")
  | .nothing =>
    if s.corrupt ≠ [] then .refused (js "cache-corrupt: " ++ js (toString s.corrupt.length))
    else if s.missing ≠ [] then .refused (js "cache-miss: " ++ js (toString s.missing.length))
    else .verifies

/-- The frame of a pass that passes `validateFrame` in a state, with its entry. -/
def acceptedFrame (s : State ν) (pass : Pass) : Option (Frame × Entry) :=
  match pass.line with
  | .line (some frame) =>
    if frame.ending.isTrue then none
    else match validateFrame entries limits s.seen (s.remaining limits) frame with
    | .error _ => none
    | .ok () => (expectedByPath entries frame.pathText).map fun entry => (frame, entry)
  | _ => none

/-- **One turn of the loop.** -/
def step (s : State ν) (pass : Pass) : State ν × Option Outcome :=
  match pass.line with
  | .failed m => (s, some (.refused (js "frame header: " ++ m)))
  | .eof => (s, some (.refused (js "truncated stream: missing terminator")))
  | .line none => (s, some (.refused (js "malformed json: frame")))
  | .line (some frame) =>
    if frame.ending.isTrue then (s, some (finish entries s pass))
    else match validateFrame entries limits s.seen (s.remaining limits) frame with
    | .error r => (s, some (.refused r))
    | .ok () =>
      match expectedByPath entries frame.pathText with
      | none => (s, some (.refused (js "unlisted path: " ++ frame.pathText)))
      | some entry => extractFrame host base entries limits s frame entry pass

/-- **The loop.**  Where nothing is left to read, `readLine` returns `null`. -/
def loop (s : State ν) : List Pass → State ν × Outcome
  | [] => (s, .refused (js "truncated stream: missing terminator"))
  | pass :: rest =>
    match step host base entries limits s pass with
    | (s', some o) => (s', o)
    | (s', none) => loop s' rest

/-- `mkdirSync(destDir)`. -/
def makeDest (t : Tree ν) : Except FsError (Tree ν) :=
  match base.getLast? with
  | none => .error .exists
  | some n => t.create host.volume base.dropLast n .dir

/-- **`extractFrames`** into the directory at `base`: the tree it leaves, and its answer. -/
def extractFrames (t : Tree ν) (passes : List Pass) : Tree ν × Outcome :=
  match makeDest host base t with
  | .error .exists => (t, .refused (js "destDir already exists"))
  | .error e => (t, .threw e)
  | .ok t' =>
    let (s, o) := loop host base entries limits { tree := t' } passes
    (s.tree, o)

/-- The states in which the loop takes up a frame that passes `validateFrame`, with the path of
that frame. -/
def accepted (s : State ν) : List Pass → List (State ν × JsString)
  | [] => []
  | pass :: rest =>
    let here :=
      match acceptedFrame entries limits s pass with
      | some (frame, _) => [(s, frame.pathText)]
      | none => []
    match step host base entries limits s pass with
    | (_, some _) => here
    | (s', none) => here ++ accepted s' rest

/-- The frames that an extraction takes up, each with the state before it. -/
def framesTaken (t : Tree ν) (passes : List Pass) : List (State ν × JsString) :=
  match makeDest host base t with
  | .error _ => []
  | .ok t' => accepted host base entries limits { tree := t' } passes

end Loop
end Stream
end LaneBroker
