/-
# Paths and patterns of artifacts

`artifactMatches`, `isDeniedArtifactPath` and `isUnderDeclaredDir` of `remote-artifacts.js`,
and `literalDirPrefix` and `isValidRemoteArtifactsShape` of `config.js`.  A pattern is cut
into segments: a star stands for any run within one of them, and a segment of two stars for
any number of segments.
-/

import LaneBroker.Stream.Extract

namespace LaneBroker
namespace Client
namespace Artifacts

open LaneBroker.Basis LaneBroker.Stream

/-- The code unit of `*`. -/
def star : UInt16 := 0x2a

/-- `isGlobPattern`. -/
def isGlobPattern (pattern : JsString) : Bool := star ∈ pattern

/-- **`segmentRegex(seg).test(s)`**, of a segment without a slash. -/
def segmentTest : JsString → JsString → Bool
  | [], s => s = []
  | c :: seg, s =>
    if c = star then s.tails.any (segmentTest seg)
    else
      match s with
      | [] => false
      | d :: s => d = c && segmentTest seg s

/-- **`matchSegments`.** -/
def matchSegments : List JsString → List JsString → Bool
  | [], segs => segs = []
  | pat :: pats, segs =>
    if pat = [star, star] then segs.tails.any (matchSegments pats)
    else
      match segs with
      | [] => false
      | seg :: segs => segmentTest pat seg && matchSegments pats segs

/-- **`artifactMatches`.** -/
def artifactMatches (pattern relPath : JsString) : Bool :=
  matchSegments pattern.segments relPath.segments

/-- **`literalDirPrefix`.** -/
def literalDirPrefix (pattern : JsString) : JsString :=
  JsString.joinSegments (pattern.segments.dropLast.takeWhile fun seg => star ∉ seg)

/-- What `isDeniedArtifactPath` lists. -/
def deniedNames : List JsString :=
  [js ".npmrc", js ".lane-broker.json", js "node_modules", js "package.json",
    js "package-lock.json", js "npm-shrinkwrap.json"]

/-- **`isDeniedArtifactPath`.** -/
def isDeniedArtifactPath (toLowerCase : JsString → JsString) (relPath : JsString) : Bool :=
  relPath.segments.any fun segment =>
    let seg := toLowerCase segment
    (js ".git").isPrefixOf seg || (js ".env").isPrefixOf seg || (js ".yarnrc").isPrefixOf seg ||
      (js ".lock").isSuffixOf seg || seg ∈ deniedNames

/-- `toLowerCase`, for the letters of ASCII. -/
def lowerAscii (s : JsString) : JsString :=
  s.map fun c => if 0x41 ≤ c ∧ c ≤ 0x5a then c + 0x20 else c

/-- **`isUnderDeclaredDir`.** -/
def isUnderDeclaredDir (relPath : JsString) (patterns : List JsString) : Bool :=
  patterns.any fun pattern =>
    let dir := literalDirPrefix pattern
    dir ≠ [] && (dir ++ [JsString.slash]).isPrefixOf relPath && artifactMatches pattern relPath

/-- `MAX_REMOTE_ARTIFACT_PATTERNS`. -/
def MAX_REMOTE_ARTIFACT_PATTERNS : ℕ := 50

/-- `isValidArtifactSegment`. -/
def isValidArtifactSegment (seg : JsString) : Bool :=
  !seg.tails.any ([star, star].isPrefixOf ·) || seg = [star, star]

/-- **`isValidRemoteArtifactsShape`**, of an array of strings. -/
def isValidRemoteArtifactsShape (patterns : List JsString) : Bool :=
  patterns ≠ [] && patterns.length ≤ MAX_REMOTE_ARTIFACT_PATTERNS &&
    (patterns.all fun pattern =>
      isCanonicalRelPath pattern && pattern.segments.all isValidArtifactSegment &&
        literalDirPrefix pattern ≠ []) && patterns.Nodup

end Artifacts
end Client
end LaneBroker
