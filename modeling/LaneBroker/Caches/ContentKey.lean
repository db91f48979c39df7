/-
# The key of a worktree's content

`result-cache.js`: `computeContentKey` with `digest` and `untrackedFingerprint`, and
`decideReuse`.  The key is a hash over length-prefixed parts, one of which is a text with a line
for each untracked entry.  The names and the targets of links in it are decoded, and a line ends
where the next begins.

What git says is an argument: the id of the tree of HEAD, the binary diff against it, and the
untracked names.  Git compares what it would store (`stored`), and is trusted with the two saying
that much (`restore`).  The root in which it is asked is read from its own output, and need not be
the one that it named.
-/

import LaneBroker.Basis.Framing
import LaneBroker.Basis.Hex
import LaneBroker.Stream.Omissions
import Mathlib.Data.List.DropRight

namespace LaneBroker
namespace Caches

open LaneBroker.Basis
open LaneBroker.Stream (Disk Item Listing parsePathList comparePaths isSpace)

/-! ### What is read -/

/-- **What git and `lstat` see in a directory.** -/
structure View where
  /-- `git diff HEAD --binary`. -/
  diff : List UInt8
  /-- There is a `.gitmodules`. -/
  gitmodules : Bool := false
  /-- A path is flagged assume-unchanged or skip-worktree. -/
  flagged : Bool := false
  /-- The untracked names that are not ignored. -/
  untracked : Listing
  disk : Disk

/-- A tree by its id, and a diff against it, come to the entries that git would store. -/
abbrev Restore := List UInt8 → List UInt8 → List UInt8 → Option Item

/-- **A worktree**, seen in its top directory. -/
structure Worktree (restore : Restore) extends View where
  /-- The tracked entries, by the bytes of their paths. -/
  tracked : List UInt8 → Option Item
  /-- What git stores of an entry: its attributes and the configuration may ask for other line
  endings, a filter, no executable bits. -/
  stored : List UInt8 → Item → Item
  /-- The id of `HEAD^{tree}`. -/
  headTree : List UInt8
  headTree_ne : headTree ≠ []
  /-- The path of the top directory. -/
  toplevel : List UInt8
  toplevel_ne : toplevel ≠ []
  /-- Git tells what it would store by the two. -/
  reported : ∀ name, (tracked name).map (stored name) = restore headTree diff name

/-- **One call of `computeContentKey`.**  An identity that is empty counts as none. -/
structure ContentCall (restore : Restore) where
  /-- The worktree that `cwd` is in. -/
  worktree : Worktree restore
  /-- What is seen in other directories, none where git or `lstat` fails. -/
  elsewhere : List UInt8 → Option View := fun _ => none
  key : JsString
  cmdFingerprint : JsString
  configIdentity : Option JsString := none

/-- `MAX_UNTRACKED_FILES`. -/
def maxUntrackedFiles : Nat := 2000

/-- `MAX_UNTRACKED_BYTES`. -/
def maxUntrackedBytes : Nat := 64 * 1024 * 1024

/-! ### The key -/

section Key

variable (sha256 : List UInt8 → List UInt8)

/-- `digest(parts)`: each part with its length before it. -/
def digest (parts : List (List UInt8)) : JsString := hexText (sha256 (parts.flatMap Framing.net))

/-- What stands after the name in the line of an entry, none for an entry that cannot be vouched
for. -/
def lineTail : Item → Option JsString
  | .link target => some (js "symlink" ++ 0 :: 0 :: decodeUtf8 target)
  | .file exec contents => some
    (js "file" ++ 0 :: js (if exec then "true" else "false") ++ 0 :: hexText (sha256 contents))
  | .dir | .special => none

/-- What a file adds to the bytes that are read. -/
def itemSize : Item → Nat
  | .file _ contents => contents.length
  | _ => 0

/-- The loop over the names, with the bytes of the files so far: a line for each, as its name and
what stands after it. -/
def fingerprintLines (disk : Disk) : Nat → List JsString → Option (List (JsString × JsString))
  | _, [] => some []
  | bytes, rel :: rest =>
    match disk.lstatSync rel with
    | none => none
    | some item =>
      if maxUntrackedBytes < bytes + itemSize item ∨ disk.unreadable (encodeUtf8 rel) then none
      else match lineTail sha256 item with
      | none => none
      | some tail =>
        (fingerprintLines disk (bytes + itemSize item) rest).map ((rel, tail) :: ·)

/-- The text of the lines. -/
def linesText (lines : List (JsString × JsString)) : JsString :=
  (js "\n").intercalate (lines.map fun line => line.1 ++ 0 :: line.2)

/-- The names in the order of their bytes. -/
def sortedNames (listing : Listing) : List JsString :=
  (parsePathList listing.text).mergeSort comparePaths

/-- **`untrackedFingerprint`.** -/
def untrackedFingerprint (listing : Listing) (disk : Disk) : Option JsString :=
  if maxUntrackedFiles < (sortedNames listing).length then none
  else (fingerprintLines sha256 disk 0 (sortedNames listing)).map linesText

/-- `s.trim()`. -/
def trim (s : JsString) : JsString := (s.dropWhile isSpace).rdropWhile isSpace

variable {restore : Restore}

/-- What `git rev-parse HEAD^{tree} --show-toplevel` prints. -/
def Worktree.revParse (w : Worktree restore) : List UInt8 :=
  encodeUtf8 (hexText w.headTree) ++ 0x0a :: (w.toplevel ++ [0x0a])

/-- What is seen at a path. -/
def ContentCall.viewAt (c : ContentCall restore) (root : JsString) : Option View :=
  if encodeUtf8 root = c.worktree.toplevel then some c.worktree.toView
  else c.elsewhere (encodeUtf8 root)

/-- The identity that is hashed. -/
def ContentCall.identity (c : ContentCall restore) : Option JsString :=
  c.configIdentity.filter (· ≠ [])

/-- **`computeContentKey`.** -/
def computeContentKey (c : ContentCall restore) : Option JsString :=
  if c.key = [] ∨ c.cmdFingerprint = [] then none
  else match (trim (decodeUtf8 c.worktree.revParse)).splitOn 0x0a with
  | headTree :: root :: _ =>
    if headTree = [] ∨ root = [] then none
    else match c.viewAt root with
    | none => none
    | some view =>
      if view.gitmodules ∨ view.flagged then none
      else match untrackedFingerprint sha256 view.untracked view.disk with
      | none => none
      | some untracked => some (digest sha256 (
          [encodeUtf8 (js "lane-result-cache/1"), encodeUtf8 c.key, encodeUtf8 c.cmdFingerprint,
            encodeUtf8 headTree, view.diff, encodeUtf8 untracked] ++
          c.identity.toList.map encodeUtf8))
  | _ => none

end Key

/-! ### Which outcome is used again -/

/-- **A row of the history**, as far as it is looked at. -/
structure HistoryRow where
  contentKey : Option JsString
  cachedFrom : Bool := false
  refusedFrom : Bool := false
  /-- Finite numbers, or none. -/
  startedAt : Option Int
  endedAt : Option Int
  exit : Option Int
  /-- `signal`, `cancelled`, `error` or `reason` is set. -/
  disturbed : Bool := false
  contentKeyVerified : Bool := false
  /-- It ran on a runner, and there not to the end of its command. -/
  remoteUnfinished : Bool := false
  deriving DecidableEq

/-- `NON_VERDICT_EXITS`. -/
def nonVerdictExits : List Int := [64, 69, 75, 76, 77, 79, 124, 126, 127, 130]

/-- `isNewestRowCandidate`. -/
def isNewestRowCandidate (row : HistoryRow) (contentKey : JsString) (now : Int) : Bool :=
  row.contentKey = some contentKey && !row.cachedFrom && !row.refusedFrom &&
    row.startedAt.isSome && row.endedAt.any (· ≤ now)

/-- `isServablePass`. -/
def isServablePass (row : HistoryRow) : Bool := row.exit = some 0 && !row.disturbed

/-- `isQualifyingRed`. -/
def isQualifyingRed (row : HistoryRow) : Bool :=
  row.contentKeyVerified && row.exit.any (fun e => e ≠ 0 ∧ e < 128 ∧ e ∉ nonVerdictExits) &&
    !row.disturbed && !row.remoteUnfinished

/-- What `decideReuse` answers. -/
inductive Reuse
  | run
  | serve (row : HistoryRow)
  | refuse (row : HistoryRow)

/-- The newest of the candidates, the later one of several. -/
def newestRow (rows : List HistoryRow) (contentKey : JsString) (now : Int) : Option HistoryRow :=
  (rows.filter fun row => isNewestRowCandidate row contentKey now).foldl
    (fun newest row =>
      match newest with
      | none => some row
      | some n => if n.endedAt.getD 0 ≤ row.endedAt.getD 0 then some row else some n) none

/-- **`decideReuse`.** -/
def decideReuse (rows : List HistoryRow) (contentKey : JsString) (now passTtlMs redTtlMs : Int) :
    Reuse :=
  match newestRow rows contentKey now with
  | none => .run
  | some newest =>
    let age := now - newest.endedAt.getD 0
    if isServablePass newest ∧ 0 < passTtlMs ∧ age ≤ passTtlMs then .serve newest
    else if isQualifyingRed newest ∧ 0 < redTtlMs ∧ age ≤ redTtlMs then .refuse newest
    else .run

end Caches
end LaneBroker
