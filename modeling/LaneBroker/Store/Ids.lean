/-
# The names of objects

`store/ids.js`: the ids from which a path of the store is built, the paths of a blob and of a
manifest, and `parseObjectPath`, which reads them back.  A path is read as an object just if
it is the one that the object is written under (`parseObjectPath_eq_some_iff`).
-/

import LaneBroker.Basis.JsText
import LaneBroker.Store.Records
import Mathlib.Data.List.Infix

namespace LaneBroker
namespace Store
namespace Ids

open LaneBroker.Basis

/-! ### The source -/

/-- `[0-9a-f]`. -/
def isHexUnit (u : UInt16) : Bool := (0x30 ≤ u && u ≤ 0x39) || (0x61 ≤ u && u ≤ 0x66)

/-- `[A-Za-z0-9]`. -/
def isAlphanumeric (u : UInt16) : Bool :=
  (0x30 ≤ u && u ≤ 0x39) || (0x41 ≤ u && u ≤ 0x5a) || (0x61 ≤ u && u ≤ 0x7a)

/-- `[A-Za-z0-9._-]`. -/
def isJobUnit (u : UInt16) : Bool := isAlphanumeric u || u = 0x2e || u = 0x5f || u = 0x2d

/-- What a dot of a pattern stands for. -/
def noLineEnd (u : UInt16) : Bool := u ≠ 0x0a && u ≠ 0x0d && u ≠ 0x2028 && u ≠ 0x2029

/-- `[0-9a-f]`, so many times. -/
def isHex (n : ℕ) (s : JsString) : Bool := s.length = n && s.all isHexUnit

/-- `SHA256_RE`. -/
def isSha256 (s : JsString) : Bool := isHex 64 s

/-- `JOB_ID_RE`. -/
def isJobId (s : JsString) : Bool :=
  match s with
  | [] => false
  | u :: rest => isAlphanumeric u && rest.length ≤ 127 && rest.all isJobUnit

/-- **`blobRelPath`.** -/
def blobRelPath (sha : JsString) : JsString :=
  js "blobs/" ++ sha.take 2 ++ JsString.slash :: (sha.drop 2).take 2 ++ JsString.slash :: sha

/-- **`manifestRelPath`.** -/
def manifestRelPath (job : JsString) : JsString := js "manifests/" ++ job ++ js ".json"

/-- The groups of `/^blobs\/([0-9a-f]{2})\/([0-9a-f]{2})\/([0-9a-f]{64})$/`. -/
def blobGroups (rel : JsString) : Option (JsString × JsString × JsString) :=
  let a := (rel.drop 6).take 2
  let b := (rel.drop 9).take 2
  let sha := rel.drop 12
  if isHex 2 a && isHex 2 b && isHex 64 sha &&
      rel = js "blobs/" ++ a ++ JsString.slash :: b ++ JsString.slash :: sha then
    some (a, b, sha)
  else none

/-- The group of `/^manifests\/(.+)\.json$/`. -/
def manifestGroup (rel : JsString) : Option JsString :=
  let job := (rel.drop 10).take (rel.length - 15)
  if job ≠ [] && job.all noLineEnd && rel = js "manifests/" ++ job ++ js ".json" then some job
  else none

/-- **`parseObjectPath`.** -/
def parseObjectPath (rel : JsVal) : Option (Path JsString JsString) :=
  match rel with
  | .str rel =>
    match (blobGroups rel).filter fun (a, b, sha) => (a ++ b).isPrefixOf sha with
    | some (_, _, sha) => some (.blob sha)
    | none => ((manifestGroup rel).filter isJobId).map .manifest
  | _ => none

/-! ### What is read back -/

/-- The path of an object. -/
def relPath : Path JsString JsString → JsString
  | .blob sha => blobRelPath sha
  | .manifest job => manifestRelPath job

/-- An object with an id of the shape that is wanted. -/
def ValidId : Path JsString JsString → Prop
  | .blob sha => isSha256 sha = true
  | .manifest job => isJobId job = true

theorem isHex_iff {n : ℕ} {s : JsString} :
    isHex n s = true ↔ s.length = n ∧ ∀ u ∈ s, isHexUnit u = true := by
  simp [isHex]

theorem blobGroups_eq_some_iff {rel a b sha : JsString} :
    blobGroups rel = some (a, b, sha) ↔ isHex 2 a = true ∧ isHex 2 b = true ∧ isHex 64 sha = true ∧
      rel = js "blobs/" ++ a ++ JsString.slash :: b ++ JsString.slash :: sha := by
  constructor
  · intro h
    simp only [blobGroups, Option.ite_none_right_eq_some, Bool.and_eq_true, decide_eq_true_eq,
      Option.some.injEq, Prod.mk.injEq] at h
    obtain ⟨⟨⟨⟨ha, hb⟩, hsha⟩, hrel⟩, rfl, rfl, rfl⟩ := h
    exact ⟨ha, hb, hsha, hrel⟩
  · rintro ⟨ha, hb, hsha, rfl⟩
    obtain ⟨a₀, a₁, rfl⟩ := List.length_eq_two.1 (isHex_iff.1 ha).1
    obtain ⟨b₀, b₁, rfl⟩ := List.length_eq_two.1 (isHex_iff.1 hb).1
    have hfront : js "blobs/" = [0x62, 0x6c, 0x6f, 0x62, 0x73, 0x2f] := by decide
    simp [blobGroups, hfront, ha, hb, hsha]

theorem manifestGroup_eq_some_iff {rel job : JsString} :
    manifestGroup rel = some job ↔ job ≠ [] ∧ (∀ u ∈ job, noLineEnd u = true) ∧
      rel = manifestRelPath job := by
  constructor
  · intro h
    simp only [manifestGroup, Option.ite_none_right_eq_some, Bool.and_eq_true, decide_eq_true_eq,
      List.all_eq_true, Option.some.injEq] at h
    obtain ⟨⟨⟨hne, hunits⟩, hrel⟩, rfl⟩ := h
    exact ⟨hne, hunits, hrel⟩
  · rintro ⟨hne, hunits, rfl⟩
    have hfront : (js "manifests/").length = 10 := by decide
    have hback : (js ".json").length = 5 := by decide
    have hjob : ((manifestRelPath job).drop 10).take ((manifestRelPath job).length - 15) = job := by
      rw [manifestRelPath, List.append_assoc, ← hfront, List.drop_left, List.length_append,
        List.length_append, hfront, hback,
        show 10 + (job.length + 5) - 15 = job.length by omega, List.take_left]
    simp only [manifestGroup, hjob]
    simpa [hne, manifestRelPath] using hunits

/-- **The names of the directories are the start of the hash.** -/
theorem blobRelPath_of_begins {a b sha : JsString} (ha : a.length = 2) (hb : b.length = 2)
    (h : a ++ b <+: sha) :
    js "blobs/" ++ a ++ JsString.slash :: b ++ JsString.slash :: sha = blobRelPath sha := by
  obtain ⟨rest, rfl⟩ := h
  have hfirst : (a ++ b ++ rest).take 2 = a := by
    rw [List.append_assoc, ← ha, List.take_left]
  have hsecond : ((a ++ b ++ rest).drop 2).take 2 = b := by
    rw [List.append_assoc, ← ha, List.drop_left, ha, ← hb, List.take_left]
  rw [blobRelPath, hfirst, hsecond]

theorem isHex_take {n k : ℕ} {s : JsString} (h : isHex n s = true) (hk : k ≤ n) :
    isHex k (s.take k) = true := by
  obtain ⟨hlen, hunits⟩ := isHex_iff.1 h
  refine isHex_iff.2 ⟨?_, fun u hu => hunits u (List.mem_of_mem_take hu)⟩
  rw [List.length_take]
  omega

theorem isHex_drop {n : ℕ} (k : ℕ) {s : JsString} (h : isHex n s = true) :
    isHex (n - k) (s.drop k) = true := by
  obtain ⟨hlen, hunits⟩ := isHex_iff.1 h
  refine isHex_iff.2 ⟨?_, fun u hu => hunits u (List.mem_of_mem_drop hu)⟩
  rw [List.length_drop, hlen]

/-- **What is found as a blob.** -/
theorem blob_iff {rel sha : JsString} :
    (∃ a b, (blobGroups rel).filter (fun (a, b, sha) => (a ++ b).isPrefixOf sha) =
      some (a, b, sha)) ↔ isSha256 sha = true ∧ blobRelPath sha = rel := by
  simp only [Option.filter_eq_some_iff, blobGroups_eq_some_iff, List.isPrefixOf_iff_prefix]
  constructor
  · rintro ⟨a, b, ⟨ha, hb, hsha, rfl⟩, hbegins⟩
    exact ⟨hsha, (blobRelPath_of_begins (isHex_iff.1 ha).1 (isHex_iff.1 hb).1 hbegins).symm⟩
  · rintro ⟨hsha, rfl⟩
    refine ⟨sha.take 2, (sha.drop 2).take 2, ⟨isHex_take hsha (by decide),
      isHex_take (isHex_drop 2 hsha) (by decide), hsha, rfl⟩, ?_⟩
    rw [← List.take_add]
    exact List.take_prefix 4 sha

theorem noLineEnd_of_isJobUnit {u : UInt16} (h : isJobUnit u = true) : noLineEnd u = true := by
  have hnot : ([(0x0a : UInt16), 0x0d, 0x2028, 0x2029].all fun c => !isJobUnit c) = true := by
    decide
  have hne : ∀ c ∈ [(0x0a : UInt16), 0x0d, 0x2028, 0x2029], u ≠ c := by
    rintro c hc rfl
    have hunit := List.all_eq_true.1 hnot u hc
    rw [h] at hunit
    cases hunit
  simpa [noLineEnd, and_assoc] using hne

theorem isJobId_units {job : JsString} (h : isJobId job = true) :
    job ≠ [] ∧ ∀ u ∈ job, isJobUnit u = true := by
  unfold isJobId at h
  split at h
  · cases h
  · next u rest =>
    simp only [Bool.and_eq_true, List.all_eq_true] at h
    refine ⟨List.cons_ne_nil u rest, List.forall_mem_cons.2 ⟨?_, h.2⟩⟩
    simp [isJobUnit, h.1.1]

/-- **What is found as a manifest.** -/
theorem manifest_iff {rel job : JsString} :
    (manifestGroup rel).filter isJobId = some job ↔
      isJobId job = true ∧ manifestRelPath job = rel := by
  rw [Option.filter_eq_some_iff, manifestGroup_eq_some_iff]
  constructor
  · rintro ⟨⟨-, -, rfl⟩, hjob⟩
    exact ⟨hjob, rfl⟩
  · rintro ⟨hjob, rfl⟩
    obtain ⟨hne, hunits⟩ := isJobId_units hjob
    exact ⟨⟨hne, fun u hu => noLineEnd_of_isJobUnit (hunits u hu), rfl⟩, hjob⟩

/-- The two kinds of path differ in their first unit. -/
theorem manifestRelPath_ne_blobRelPath (job sha : JsString) :
    manifestRelPath job ≠ blobRelPath sha := by
  intro h
  have hhead := congrArg List.head? h
  have hmanifest : js "manifests/" = 0x6d :: js "anifests/" := by decide
  have hblob : js "blobs/" = 0x62 :: js "lobs/" := by decide
  rw [manifestRelPath, blobRelPath, hmanifest, hblob] at hhead
  cases hhead

/-- **A path is read as an object if and only if it is the path of that object**, and the id of the
object is valid. -/
theorem parseObjectPath_eq_some_iff {rel : JsVal} {object : Path JsString JsString} :
    parseObjectPath rel = some object ↔ ValidId object ∧ rel = .str (relPath object) := by
  cases rel with
  | str rel =>
    rw [parseObjectPath, JsVal.str.injEq]
    cases hblob : (blobGroups rel).filter fun (a, b, sha) => (a ++ b).isPrefixOf sha with
    | some groups =>
      obtain ⟨a, b, sha⟩ := groups
      obtain ⟨hsha, rfl⟩ := blob_iff.1 ⟨a, b, hblob⟩
      constructor
      · intro h
        obtain rfl := Option.some.inj h
        exact ⟨hsha, rfl⟩
      · rintro ⟨hvalid, hrel⟩
        cases object with
        | blob sha' =>
          obtain ⟨a', b', hfound⟩ := blob_iff.2 ⟨hvalid, hrel.symm⟩
          rw [hblob, Option.some.injEq, Prod.mk.injEq, Prod.mk.injEq] at hfound
          rw [hfound.2.2]
        | manifest job => exact absurd hrel.symm (manifestRelPath_ne_blobRelPath job sha)
    | none =>
      constructor
      · intro h
        obtain ⟨job, hfound, rfl⟩ := Option.map_eq_some_iff.1 h
        obtain ⟨hjob, rfl⟩ := manifest_iff.1 hfound
        exact ⟨hjob, rfl⟩
      · rintro ⟨hvalid, rfl⟩
        cases object with
        | blob sha =>
          obtain ⟨a, b, hfound⟩ := blob_iff.2 ⟨hvalid, rfl⟩
          change (blobGroups (relPath (.blob sha))).filter _ = none at hblob
          rw [relPath, hfound] at hblob
          cases hblob
        | manifest job => exact Option.map_eq_some_iff.2 ⟨job, manifest_iff.2 ⟨hvalid, rfl⟩, rfl⟩
  | _ => simp [parseObjectPath]

end Ids
end Store
end LaneBroker
