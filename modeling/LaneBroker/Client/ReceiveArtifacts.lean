/-
# Receiving the files of a finished run

The submitter's side of the stream: `receiveArtifacts` of `remote-artifacts.js` with
`readHeaderLine` of `remote-stream.js`.  It reads off whatever answers the calls of a reader.
-/

import LaneBroker.Client.CollectArtifacts
import LaneBroker.Stream.Reader

namespace LaneBroker
namespace Client
namespace Artifacts

open LaneBroker.Basis LaneBroker.Stream

/-- `MAX_FRAME_LINE_BYTES`. -/
def MAX_FRAME_LINE_BYTES : ℕ := 1000000

/-- `MAX_STREAM_HEADER_BYTES`. -/
def MAX_STREAM_HEADER_BYTES : ℕ := 256 * 1024

/-- A file that was received. -/
structure Received where
  path : JsString
  size : ℕ
  sha256 : JsString
  bytes : Bytes
  deriving DecidableEq

section Source

variable {σ : Type} (call : Call → σ → Stream.Answer × σ)

/-- **`readHeaderLine`.** -/
def readHeaderLine (maxLineBytes : ℕ) (reader : σ) : Except JsString (Json × σ) :=
  match call (.readLine maxLineBytes) reader with
  | (.line text, reader) =>
    match JsonText.parse text with
    | some header => .ok (header, reader)
    | none => .error (js "malformed json: header")
  | (.ended, _) => .error (js "truncated stream: missing header")
  | _ => .error (js "header line: line exceeds max length")

/-- `JSON.parse` of what `readLine` answers; of `null` it is `null`. -/
def parseLine (malformed : JsString) : Stream.Answer → Except JsString Json
  | .line text =>
    match JsonText.parse text with
    | some v => .ok v
    | none => .error malformed
  | .ended => .ok .null
  | _ => .error (js "artifact stream: line exceeds max length")

variable (toLowerCase : JsString → JsString) (sha : Sha256) (patterns : List JsString)
  (limits : Limits)

/-- The checks of the entries of the header, behind so many bytes. -/
def checkEntries (seen : List JsString) (total : ℤ) : List Json → Except JsString (List FileEntry)
  | [] => .ok []
  | entry :: entries =>
    match entry.field (js "path") with
    | .str p =>
      if !isCanonicalRelPath p then .error (js "invalid artifact path: " ++ JsonText.quote p)
      else if isDeniedArtifactPath toLowerCase p then .error (js "protected artifact path: " ++ p)
      else if !isUnderDeclaredDir p patterns then .error (js "artifact was not declared: " ++ p)
      else if p ∈ seen then .error (js "duplicate artifact: " ++ p)
      else
        match (entry.field (js "size")).integer? with
        | none => .error (js "invalid artifact size: " ++ p)
        | some size =>
          if size < 0 then .error (js "invalid artifact size: " ++ p)
          else if limits.maxFileBytes < size then
            .error (p ++ js " is " ++ JsonText.decimalText size.toNat ++
              js " bytes, over the per-file cap of " ++ JsonText.decimalText limits.maxFileBytes ++
              js " bytes")
          else if limits.maxTotalBytes < total + size then
            .error (js "artifacts exceed the total cap of " ++
              JsonText.decimalText limits.maxTotalBytes ++ js " bytes")
          else
            match entry.field (js "sha256") with
            | .str sha256 =>
              if !isSha256 sha256 then .error (js "invalid artifact sha256: " ++ p)
              else
                (checkEntries (p :: seen) (total + size) entries).map fun rest =>
                  ⟨p, size.toNat, sha256⟩ :: rest
            | _ => .error (js "invalid artifact sha256: " ++ p)
    | _ => .error (js "invalid artifact path")

/-- The frames, one for each entry. -/
def readFrames : List FileEntry → σ → Except JsString (List Received × σ)
  | [], reader => .ok ([], reader)
  | entry :: entries, reader =>
    let line := call (.readLine MAX_FRAME_LINE_BYTES) reader
    match parseLine (js "malformed artifact frame") line.1 with
    | .error reason => .error reason
    | .ok frame =>
      if frame.field (js "path") ≠ .str entry.path ∨ frame.field (js "size") ≠ .num entry.size ∨
          frame.field (js "sha256") ≠ .str entry.sha256 then
        .error (js "artifact frame does not match its header entry: " ++ entry.path)
      else
        match call (.readBytes entry.size) line.2 with
        | (.bytes bytes, reader) =>
          if sha.sha256Of bytes ≠ entry.sha256 then .error (js "sha256 mismatch: " ++ entry.path)
          else
            (readFrames entries reader).map fun rest =>
              (⟨entry.path, entry.size, entry.sha256, bytes⟩ :: rest.1, rest.2)
        | _ => .error (js "truncated artifact stream: " ++ entry.path)

/-- What comes behind the frames. -/
def readEnd (files : List Received) (reader : σ) : Except JsString (List Received) :=
  let line := call (.readLine MAX_FRAME_LINE_BYTES) reader
  match parseLine (js "artifact stream: ") line.1 with
  | .error reason => .error reason
  | .ok v =>
    if v.field (js "end") ≠ .bool true then .error (js "artifact stream has no terminator")
    else
      match call .hasMore line.2 with
      | (.more false, _) => .ok files
      | _ => .error (js "trailing bytes after the artifact terminator")

/-- **`receiveArtifacts`.** -/
def receiveArtifacts (ticketId : JsString) (reader : σ) : Except JsString (List Received) :=
  match readHeaderLine call MAX_STREAM_HEADER_BYTES reader with
  | .error reason => .error reason
  | .ok (header, reader) =>
    if header.field (js "protocol") ≠ .num ARTIFACT_STREAM_PROTOCOL then
      .error (js "unsupported artifact stream protocol")
    else if header.field (js "ticketId") ≠ .str ticketId then
      .error (js "artifact stream does not bind to this ticket")
    else
      match header.member (js "files") with
      | some (.arr entries) =>
        if limits.maxCount < entries.length then
          .error (JsonText.decimalText entries.length ++ js " artifacts, over the count cap of " ++
            JsonText.decimalText limits.maxCount)
        else
          match checkEntries toLowerCase patterns limits [] 0 entries with
          | .error reason => .error reason
          | .ok files =>
            match readFrames call sha files reader with
            | .error reason => .error reason
            | .ok (received, reader) => readEnd call received reader
      | _ => .error (js "artifact stream does not bind to this ticket")

end Source

/-- The reader of a stream that comes in chunks, with the chunks that are still to come. -/
def chunked (c : Call) (at_ : Reader × List Bytes) : Stream.Answer × (Reader × List Bytes) :=
  at_.1.call c at_.2

end Artifacts
end Client
end LaneBroker
