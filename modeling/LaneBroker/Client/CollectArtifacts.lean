/-
# Collecting the files of a finished run

The runner's side of `remote-artifacts.js`: `collectArtifacts` with `walkGlob`, and
`encodeArtifacts` with `readVerifiedFile` of `remote-stream.js`.

The work directory is what the calls on it answer (`WorkDir`), which do not change while it is
read.  The copies are files of a volume of the runner that may take two paths for one
(`Copies.place`); what stands at such a place is the copy that was made last.
-/

import LaneBroker.Basis.Json
import LaneBroker.Basis.SyncedFile
import LaneBroker.Client.ArtifactPaths

namespace LaneBroker
namespace Client
namespace Artifacts

open LaneBroker.Basis LaneBroker.Stream

/-- `MAX_SCANNED_ENTRIES`. -/
def MAX_SCANNED_ENTRIES : ℕ := 100000

/-- `ARTIFACT_STREAM_PROTOCOL`. -/
def ARTIFACT_STREAM_PROTOCOL : ℕ := 1

/-- `artifactLimitsOf`. -/
structure Limits where
  maxFileBytes : ℕ
  maxTotalBytes : ℕ
  maxCount : ℕ

/-- `/^[0-9a-f]{64}$/`. -/
def isSha256 (s : JsString) : Bool :=
  s.length = 64 && s.all fun u => (0x30 ≤ u && u ≤ 0x39) || (0x61 ≤ u && u ≤ 0x66)

/-- **`sha256Of`**: 32 bytes in hexadecimal. -/
structure Sha256 where
  sha256Of : Bytes → JsString
  hex : ∀ bytes, isSha256 (sha256Of bytes) = true

/-- **What stands at a path of the work directory**, as far as the code asks. -/
inductive Found
  /-- `ENOENT` or `ENOTDIR`. -/
  | missing
  | fails (message : JsString)
  | symlink
  | special
  /-- A file: whether its real path is inside, and what is read, `none` if it is no file now. -/
  | file (inside : Except JsString Bool) (opened : Except JsString (Option Bytes))

/-- **A work directory.** -/
structure WorkDir where
  /-- Why it cannot be resolved. -/
  unavailable : Option JsString := none
  /-- The entries of a directory, and which of them are directories. -/
  opendir : JsString → Option (Except JsString (List (JsString × Bool)))
  found : JsString → Found

/-- **Where the copies are made.** -/
structure Copies where
  /-- Two paths that this takes to one are one. -/
  place : JsString → JsString
  /-- Why a copy cannot be made. -/
  fails : JsString → Option JsString := fun _ => none

/-- An entry of `manifest.json`. -/
structure FileEntry where
  path : JsString
  size : ℕ
  sha256 : JsString
  deriving DecidableEq

/-- **What is stored for a ticket**: the manifest, the copies in the order they were made, and the
paths at which nothing stands. -/
structure Collected where
  files : List FileEntry := []
  copies : List (JsString × Bytes) := []
  missing : List JsString := []

/-! ### The candidates -/

/-- `add`. -/
def addCandidate (maxCount : ℕ) (candidates : List JsString) (rel : JsString) :
    Except JsString (List JsString) :=
  let candidates := if rel ∈ candidates then candidates else candidates ++ [rel]
  if maxCount < candidates.length then
    .error (js "more than " ++ JsonText.decimalText maxCount ++ js " files match (count cap)")
  else .ok candidates

/-- A walk: how many entries it has read, the directories it has still to open, the last one first,
and the candidates. -/
structure Walk where
  scanned : ℕ := 0
  stack : List JsString
  candidates : List JsString

/-- `rel ? rel + '/' + entry.name : entry.name`. -/
def childOf (rel name : JsString) : JsString :=
  if rel = [] then name else rel ++ JsString.slash :: name

section Walk

variable (maxCount : ℕ) (pattern : JsString)

/-- The entries of the directory `rel`. -/
def readEntries (rel : JsString) : List (JsString × Bool) → Walk → Except JsString Walk
  | [], walk => .ok walk
  | (name, isDirectory) :: entries, walk =>
    let scanned := walk.scanned + 1
    if MAX_SCANNED_ENTRIES < scanned then
      .error (js "more than " ++ JsonText.decimalText MAX_SCANNED_ENTRIES ++
        js " entries scanned for " ++ pattern)
    else
      let child := childOf rel name
      if isDirectory then
        let stack := if child = js ".git" then walk.stack else child :: walk.stack
        readEntries rel entries { walk with scanned, stack }
      else if artifactMatches pattern child then
        match addCandidate maxCount walk.candidates child with
        | .error reason => .error reason
        | .ok candidates => readEntries rel entries { walk with scanned, candidates }
      else readEntries rel entries { walk with scanned }

variable {maxCount pattern} in
/-- Each entry that is read makes the rest of the walk shorter. -/
theorem readEntries_measure {rel : JsString} {entries : List (JsString × Bool)} {walk walk' : Walk}
    (h : readEntries maxCount pattern rel entries walk = .ok walk') :
    MAX_SCANNED_ENTRIES - walk'.scanned + walk'.stack.length ≤
      MAX_SCANNED_ENTRIES - walk.scanned + walk.stack.length := by
  induction entries generalizing walk with
  | nil => rw [Except.ok.inj h]
  | cons entry entries ih =>
    obtain ⟨name, isDirectory⟩ := entry
    rw [readEntries] at h
    split at h
    · cases h
    · next hscanned =>
      dsimp only at h
      split at h
      · have hrest := ih h
        dsimp only at hrest
        split at hrest
        · omega
        · rw [List.length_cons] at hrest
          omega
      · split at h
        · split at h
          · cases h
          · have hrest := ih h
            dsimp only at hrest
            omega
        · have hrest := ih h
          dsimp only at hrest
          omega

/-- The loop of `walkGlob`. -/
def walkFrom (dir : WorkDir) (walk : Walk) : Except JsString (List JsString) :=
  match _hstack : walk.stack with
  | [] => .ok walk.candidates
  | rel :: stack =>
    match dir.opendir rel with
    | none => walkFrom dir { walk with stack }
    | some (.error message) => .error (js "could not collect artifacts: " ++ message)
    | some (.ok entries) =>
      match _hread : readEntries maxCount pattern rel entries { walk with stack } with
      | .error reason => .error reason
      | .ok walk' => walkFrom dir walk'
termination_by MAX_SCANNED_ENTRIES - walk.scanned + walk.stack.length
decreasing_by
  · simp [_hstack]
  · have := readEntries_measure _hread
    rw [_hstack, List.length_cons]
    dsimp only at this
    omega

/-- **`walkGlob`.** -/
def walkGlob (dir : WorkDir) (candidates : List JsString) : Except JsString (List JsString) :=
  walkFrom maxCount pattern dir { stack := [literalDirPrefix pattern], candidates }

end Walk

section WalkFrom

variable {dir : WorkDir} {maxCount : ℕ} {pattern rel : JsString}

theorem walkFrom_nil {walk : Walk} (h : walk.stack = []) :
    walkFrom maxCount pattern dir walk = .ok walk.candidates := by
  rw [walkFrom]
  split
  · rfl
  · next hstack =>
    rw [h] at hstack
    cases hstack

theorem walkFrom_open {walk walk' : Walk} {stack : List JsString}
    {entries : List (JsString × Bool)} (hstack : walk.stack = rel :: stack)
    (hopen : dir.opendir rel = some (.ok entries))
    (hread : readEntries maxCount pattern rel entries { walk with stack } = .ok walk') :
    walkFrom maxCount pattern dir walk = walkFrom maxCount pattern dir walk' := by
  rw [walkFrom]
  split
  · next hnil =>
    rw [hnil] at hstack
    cases hstack
  · next rel' stack' hcons =>
    obtain ⟨rfl, rfl⟩ := List.cons.inj (hstack.symm.trans hcons)
    rw [hopen]
    dsimp only
    split
    · next reason hfail =>
      rw [hread] at hfail
      cases hfail
    · next walk'' hok =>
      rw [Except.ok.inj (hread.symm.trans hok)]

end WalkFrom

/-- The candidates of all patterns. -/
def candidatesOf (dir : WorkDir) (maxCount : ℕ) :
    List JsString → List JsString → Except JsString (List JsString)
  | [], candidates => .ok candidates
  | pattern :: patterns, candidates =>
    match if isGlobPattern pattern then walkGlob maxCount pattern dir candidates
      else addCandidate maxCount candidates pattern with
    | .error reason => .error reason
    | .ok candidates => candidatesOf dir maxCount patterns candidates

/-! ### The copies -/

section Copies

variable (toLowerCase : JsString → JsString) (sha : Sha256) (dir : WorkDir) (dest : Copies)
  (limits : Limits)

/-- The checks of one candidate, and its bytes; `none` where nothing stands. -/
def readCandidate (total : ℕ) (rel : JsString) : Except JsString (Option Bytes) :=
  let unexpected (message : JsString) := js "could not collect artifacts: " ++ message
  if isDeniedArtifactPath toLowerCase rel then .error (js "refusing a protected path: " ++ rel)
  else
    match dir.found rel with
    | .missing => .ok none
    | .fails message => .error (unexpected message)
    | .symlink => .error (js "refusing a symlink: " ++ rel)
    | .special => .error (js "not a regular file: " ++ rel)
    | .file (.error message) _ => .error (unexpected message)
    | .file (.ok false) _ => .error (js "resolves outside the work dir: " ++ rel)
    | .file (.ok true) opened =>
      if !isCanonicalRelPath rel then .error (js "invalid path: " ++ rel)
      else
        match opened with
        | .error message => .error (unexpected message)
        | .ok none => .error (js "not a regular file: " ++ rel)
        | .ok (some bytes) =>
          if min limits.maxFileBytes (limits.maxTotalBytes - total) < bytes.length then
            if limits.maxFileBytes ≤ limits.maxTotalBytes - total then
              .error (rel ++ js " is over the per-file cap of " ++
                JsonText.decimalText limits.maxFileBytes ++ js " bytes")
            else
              .error (js "artifacts exceed the total cap of " ++
                JsonText.decimalText limits.maxTotalBytes ++ js " bytes")
          else
            match dest.fails rel with
            | some message => .error (unexpected message)
            | none => .ok (some bytes)

/-- The loop over the candidates, behind so many bytes. -/
def copyFrom (total : ℕ) : List JsString → Except JsString Collected
  | [] => .ok {}
  | rel :: rels =>
    match readCandidate toLowerCase dir dest limits total rel with
    | .error reason => .error reason
    | .ok none =>
      (copyFrom total rels).map fun rest => { rest with missing := rel :: rest.missing }
    | .ok (some bytes) =>
      (copyFrom (total + bytes.length) rels).map fun rest =>
        { rest with
          files := ⟨rel, bytes.length, sha.sha256Of bytes⟩ :: rest.files
          copies := (rel, bytes) :: rest.copies }

/-- **`collectArtifacts`.** -/
def collectArtifacts (patterns : List JsString) : Except JsString Collected :=
  match dir.unavailable with
  | some message => .error (js "could not collect artifacts: " ++ message)
  | none =>
    match candidatesOf dir limits.maxCount patterns [] with
    | .error reason => .error reason
    | .ok candidates =>
      copyFrom toLowerCase sha dir dest limits 0 (candidates.mergeSort fun a b => a ≤ b)

/-! ### The stream -/

/-- `JSON.stringify(entry)`. -/
def entryText (entry : FileEntry) : JsString :=
  JsonText.objectText
    [(js "path", JsonText.quote entry.path), (js "size", JsonText.decimalText entry.size),
      (js "sha256", JsonText.quote entry.sha256)]

/-- `JSON.stringify({ protocol: ARTIFACT_STREAM_PROTOCOL, ticketId, files: manifest.files })`. -/
def headerText (ticketId : JsString) (files : List FileEntry) : JsString :=
  JsonText.objectText
    [(js "protocol", JsonText.decimalText ARTIFACT_STREAM_PROTOCOL),
      (js "ticketId", JsonText.quote ticketId),
      (js "files", JsonText.arrayText (files.map entryText))]

/-- `JSON.stringify({ end: true })`. -/
def endText : JsString := JsonText.objectText [(js "end", js "true")]

/-- The line of a text. -/
def lineOf (text : JsString) : Bytes := encodeUtf8 text ++ [Basis.newline]

/-- What stands where a path is copied to. -/
def copyAt (copies : List (JsString × Bytes)) (path : JsString) : Option Bytes :=
  ((copies.filter fun copy => dest.place copy.1 = dest.place path).getLast?).map Prod.snd

/-- **`readVerifiedFile`.** -/
def readVerifiedFile (copies : List (JsString × Bytes)) (entry : FileEntry) :
    Except JsString Bytes :=
  match copyAt dest copies entry.path with
  | none => .error (js "open failed for encode: " ++ entry.path)
  | some bytes =>
    if bytes.length ≠ entry.size then
      .error (js "file changed size on disk since manifest was built: " ++ entry.path)
    else if sha.sha256Of bytes ≠ entry.sha256 then
      .error (js "file changed content on disk since manifest was built: " ++ entry.path)
    else .ok bytes

/-- The frames of the entries. -/
def framesOf (copies : List (JsString × Bytes)) : List FileEntry → Except JsString Bytes
  | [] => .ok []
  | entry :: entries =>
    match readVerifiedFile sha dest copies entry with
    | .error message => .error message
    | .ok bytes =>
      (framesOf copies entries).map fun rest => lineOf (entryText entry) ++ bytes ++ rest

/-- **`encodeArtifacts`**: the whole stream, or what it breaks off with; `none` where no manifest
was written. -/
def encodeArtifacts (ticketId : JsString) (collected : Collected) :
    Option (Except JsString Bytes) :=
  if collected.files = [] then none
  else
    some ((framesOf sha dest collected.copies collected.files).map fun frames =>
      lineOf (headerText ticketId collected.files) ++ frames ++ lineOf endText)

end Copies

end Artifacts
end Client
end LaneBroker
