/-
# What is collected arrives

A set that `collectArtifacts` stores is one that `receiveArtifacts` lets through: what a
pattern finds is declared by it, whether it is walked or named, and the caps are the same.
What can still be lost is lost in between: a header that is longer than the submitter reads,
two copies that the runner's volume takes for one, an empty chunk behind the end
(`artifacts_arrive_iff`).
-/

import LaneBroker.Client.ArtifactStream
import Mathlib.Algebra.Order.BigOperators.Group.List
import Mathlib.Algebra.Order.Group.Nat
import Mathlib.Data.List.TakeWhile

namespace LaneBroker
namespace Client
namespace Artifacts

open LaneBroker.Basis LaneBroker.Stream

variable {toLowerCase : JsString → JsString} {sha : Sha256} {dir : WorkDir} {dest : Copies}
  {limits : Limits} {patterns : List JsString} {ticketId : JsString}

/-! ### What is declared -/

theorem joinSegments_segments (s : JsString) : JsString.joinSegments s.segments = s :=
  List.intercalate_splitOn ..

/-- A text without a star is matched by itself. -/
theorem segmentTest_self {seg : JsString} (h : star ∉ seg) : segmentTest seg seg = true := by
  induction seg with
  | nil => rfl
  | cons c seg ih =>
    obtain ⟨hc, hrest⟩ := not_or.1 (List.mem_cons.not.1 h)
    rw [segmentTest, if_neg (Ne.symm hc)]
    simpa using ih hrest

/-- Behind segments that match themselves the rest is matched. -/
theorem matchSegments_append {segs pats rest : List JsString} (h : ∀ seg ∈ segs, star ∉ seg)
    (hrest : matchSegments pats rest = true) :
    matchSegments (segs ++ pats) (segs ++ rest) = true := by
  induction segs with
  | nil => exact hrest
  | cons seg segs ih =>
    obtain ⟨hseg, hsegs⟩ := List.forall_mem_cons.1 h
    have hne : seg ≠ [star, star] := by
      rintro rfl
      exact hseg List.mem_cons_self
    rw [List.cons_append, List.cons_append, matchSegments, if_neg hne]
    simp [segmentTest_self hseg, ih hsegs]

theorem matchSegments_self {segs : List JsString} (h : ∀ seg ∈ segs, star ∉ seg) :
    matchSegments segs segs = true := by
  have hwhole := @matchSegments_append segs [] [] h rfl
  simpa using hwhole

theorem mem_joinSegments {segs : List JsString} {seg : JsString} {c : UInt16} (hseg : seg ∈ segs)
    (hc : c ∈ seg) : c ∈ JsString.joinSegments segs := by
  induction segs with
  | nil => cases hseg
  | cons first segs ih =>
    unfold JsString.joinSegments at ih ⊢
    by_cases hlast : segs = []
    · subst hlast
      obtain rfl := List.mem_singleton.1 hseg
      simpa using hc
    · rw [List.intercalate_cons_of_ne_nil hlast]
      obtain rfl | hseg := List.mem_cons.1 hseg
      · simp [hc]
      · exact List.mem_append_right _ (ih hseg)

theorem joinSegments_concat {segs : List JsString} (h : segs ≠ []) (seg : JsString) :
    JsString.joinSegments (segs ++ [seg]) =
      JsString.joinSegments segs ++ [JsString.slash] ++ seg := by
  induction segs with
  | nil => exact absurd rfl h
  | cons first segs ih =>
    unfold JsString.joinSegments at ih ⊢
    by_cases hlast : segs = []
    · simp [hlast, List.intercalate_cons_cons]
    · rw [List.cons_append, List.intercalate_cons_of_ne_nil (by simp),
        List.intercalate_cons_of_ne_nil hlast, ih hlast]
      simp

/-- **What a pattern without a star names is declared by it.** -/
theorem declared_literal {pattern : JsString} (hmem : pattern ∈ patterns)
    (hliteral : isGlobPattern pattern = false) (hdir : literalDirPrefix pattern ≠ []) :
    isUnderDeclaredDir pattern patterns = true := by
  have hstar : star ∉ pattern := by simpa [isGlobPattern] using hliteral
  have hsegs : ∀ seg ∈ pattern.segments, star ∉ seg :=
    fun seg hseg hmem =>
      hstar (joinSegments_segments pattern ▸ mem_joinSegments hseg hmem)
  have htake : literalDirPrefix pattern = JsString.joinSegments pattern.segments.dropLast := by
    rw [literalDirPrefix, List.takeWhile_eq_self_iff.2]
    intro seg hseg
    simpa using hsegs seg (List.dropLast_subset _ hseg)
  have hdrop : pattern.segments.dropLast ≠ [] := by
    intro hnil
    rw [htake, hnil] at hdir
    exact hdir rfl
  have hsplit := List.dropLast_append_getLast (l := pattern.segments) (List.splitOn_ne_nil _ _)
  have hprefix : (literalDirPrefix pattern ++ [JsString.slash]).isPrefixOf pattern = true := by
    rw [List.isPrefixOf_iff_prefix, htake]
    refine ⟨pattern.segments.getLast (List.splitOn_ne_nil _ _), ?_⟩
    rw [← joinSegments_concat hdrop, hsplit, joinSegments_segments]
  rw [isUnderDeclaredDir, List.any_eq_true]
  refine ⟨pattern, hmem, ?_⟩
  simp [hdir, hprefix, artifactMatches, matchSegments_self hsegs]

/-- The directory, or below it. -/
def Below (top rel : JsString) : Prop := rel = top ∨ top ++ [JsString.slash] <+: rel

theorem below_childOf {top rel : JsString} (htop : top ≠ []) (h : Below top rel)
    (name : JsString) :
    top ++ [JsString.slash] <+: childOf rel name := by
  obtain rfl | h := h
  · rw [childOf, if_neg htop]
    exact ⟨name, by simp⟩
  · have hne : rel ≠ [] := by
      rintro rfl
      simp at h
    rw [childOf, if_neg hne]
    exact h.trans (List.prefix_append rel _)

theorem declared_match {pattern rel : JsString} (hmem : pattern ∈ patterns)
    (hdir : literalDirPrefix pattern ≠ [])
    (hbelow : literalDirPrefix pattern ++ [JsString.slash] <+: rel)
    (hmatch : artifactMatches pattern rel = true) : isUnderDeclaredDir rel patterns = true := by
  rw [isUnderDeclaredDir, List.any_eq_true]
  refine ⟨pattern, hmem, ?_⟩
  have hprefix := List.isPrefixOf_iff_prefix.2 hbelow
  simp [hdir, hprefix, hmatch]

/-! ### The candidates -/

/-- **Candidates in order**: each once, each declared, not too many. -/
structure Gathered (patterns : List JsString) (maxCount : ℕ) (candidates : List JsString) :
    Prop where
  distinct : candidates.Nodup
  count : candidates.length ≤ maxCount
  declared : ∀ rel ∈ candidates, isUnderDeclaredDir rel patterns = true

variable {maxCount : ℕ}

theorem gathered_addCandidate {candidates candidates' : List JsString} {rel : JsString}
    (h : Gathered patterns maxCount candidates) (hdeclared : isUnderDeclaredDir rel patterns = true)
    (hadd : addCandidate maxCount candidates rel = .ok candidates') :
    Gathered patterns maxCount candidates' := by
  unfold addCandidate at hadd
  by_cases hmem : rel ∈ candidates
  · rw [if_pos hmem] at hadd
    simp only [if_neg (Nat.not_lt.2 h.count)] at hadd
    obtain rfl := Except.ok.inj hadd
    exact h
  · rw [if_neg hmem] at hadd
    dsimp only at hadd
    split at hadd
    · cases hadd
    · next hcount =>
      obtain rfl := Except.ok.inj hadd
      exact
        { distinct := h.distinct.append (List.nodup_singleton rel) (by simpa using hmem)
          count := Nat.not_lt.1 hcount
          declared := by
            intro other hother
            rw [List.mem_append, List.mem_singleton] at hother
            obtain hother | rfl := hother
            · exact h.declared other hother
            · exact hdeclared }

/-- **A walk in order**: the directories it has still to open are the top one or below it. -/
structure Walking (patterns : List JsString) (maxCount : ℕ) (top : JsString) (walk : Walk) :
    Prop where
  stack : ∀ rel ∈ walk.stack, Below top rel
  gathered : Gathered patterns maxCount walk.candidates

section Walk

variable {pattern : JsString}

theorem walking_readEntries (hmem : pattern ∈ patterns) (hdir : literalDirPrefix pattern ≠ [])
    {rel : JsString} (hrel : Below (literalDirPrefix pattern) rel)
    {entries : List (JsString × Bool)} {walk walk' : Walk}
    (h : Walking patterns maxCount (literalDirPrefix pattern) walk)
    (hread : readEntries maxCount pattern rel entries walk = .ok walk') :
    Walking patterns maxCount (literalDirPrefix pattern) walk' := by
  induction entries generalizing walk with
  | nil =>
    obtain rfl := Except.ok.inj hread
    exact h
  | cons entry entries ih =>
    obtain ⟨name, isDirectory⟩ := entry
    have hchild := below_childOf hdir hrel name
    rw [readEntries] at hread
    split at hread
    · cases hread
    · dsimp only at hread
      split at hread
      · refine ih ?_ hread
        refine ⟨?_, h.gathered⟩
        dsimp only
        split
        · exact h.stack
        · rw [List.forall_mem_cons]
          exact ⟨.inr hchild, h.stack⟩
      · split at hread
        · next hmatch =>
          split at hread
          · cases hread
          · next candidates hadd =>
            have hdeclared := declared_match hmem hdir hchild hmatch
            refine ih ?_ hread
            exact ⟨h.stack, gathered_addCandidate h.gathered hdeclared hadd⟩
        · refine ih ?_ hread
          exact ⟨h.stack, h.gathered⟩

/-- **What a walk finds is declared by its pattern.** -/
theorem gathered_walkFrom (hmem : pattern ∈ patterns) (hdir : literalDirPrefix pattern ≠ [])
    {walk : Walk} {candidates : List JsString}
    (h : Walking patterns maxCount (literalDirPrefix pattern) walk)
    (hwalk : walkFrom maxCount pattern dir walk = .ok candidates) :
    Gathered patterns maxCount candidates := by
  fun_induction walkFrom maxCount pattern dir walk with
  | case1 walk hstack =>
    obtain rfl := Except.ok.inj hwalk
    exact h.gathered
  | case2 walk rel stack hstack hopen ih =>
    have hall := h.stack
    rw [hstack, List.forall_mem_cons] at hall
    exact ih ⟨hall.2, h.gathered⟩ hwalk
  | case3 => cases hwalk
  | case4 => cases hwalk
  | case5 walk rel stack hstack entries hopen walk' hread ih =>
    have hall := h.stack
    rw [hstack, List.forall_mem_cons] at hall
    have hbefore : Walking patterns maxCount (literalDirPrefix pattern) { walk with stack } :=
      ⟨hall.2, h.gathered⟩
    exact ih (walking_readEntries hmem hdir hall.1 hbefore hread) hwalk

end Walk

theorem gathered_candidatesOf {list candidates candidates' : List JsString}
    (hlist : ∀ pattern ∈ list, pattern ∈ patterns ∧ literalDirPrefix pattern ≠ [])
    (h : Gathered patterns maxCount candidates)
    (hok : candidatesOf dir maxCount list candidates = .ok candidates') :
    Gathered patterns maxCount candidates' := by
  induction list generalizing candidates with
  | nil =>
    obtain rfl := Except.ok.inj hok
    exact h
  | cons pattern list ih =>
    obtain ⟨⟨hmem, hdir⟩, hrest⟩ := List.forall_mem_cons.1 hlist
    rw [candidatesOf] at hok
    split at hok
    · cases hok
    · next next hfound =>
      refine ih hrest ?_ hok
      split at hfound
      · refine gathered_walkFrom hmem hdir ⟨?_, h⟩ hfound
        intro rel hrel
        exact .inl (List.mem_singleton.1 hrel)
      · next hliteral =>
        have hdeclared := declared_literal hmem (by simpa using hliteral) hdir
        exact gathered_addCandidate h hdeclared hfound

/-! ### The copies -/

/-- The entry of a copy. -/
def entryOf (sha : Sha256) (copy : JsString × Bytes) : FileEntry :=
  ⟨copy.1, copy.2.length, sha.sha256Of copy.2⟩

theorem readCandidate_some {total : ℕ} {rel : JsString} {bytes : Bytes}
    (h : readCandidate toLowerCase dir dest limits total rel = .ok (some bytes)) :
    isDeniedArtifactPath toLowerCase rel = false ∧ isCanonicalRelPath rel = true ∧
      bytes.length ≤ min limits.maxFileBytes (limits.maxTotalBytes - total) := by
  unfold readCandidate at h
  dsimp only at h
  split at h
  · cases h
  next hdenied =>
  split at h
  · cases h
  · cases h
  · cases h
  · cases h
  · cases h
  · cases h
  split at h
  · cases h
  next hcanonical =>
  split at h
  · cases h
  · cases h
  split at h
  · split at h <;> cases h
  next hroom =>
  split at h
  · cases h
  obtain rfl := Option.some.inj (Except.ok.inj h)
  exact ⟨by simpa using hdenied, by simpa using hcanonical, Nat.not_lt.1 hroom⟩

/-- **What the loop over the candidates stores**, behind so many bytes. -/
structure Stores (toLowerCase : JsString → JsString) (sha : Sha256) (limits : Limits) (total : ℕ)
    (rels : List JsString) (collected : Collected) : Prop where
  files : collected.files = collected.copies.map (entryOf sha)
  paths : (collected.copies.map Prod.fst).Sublist rels
  canonical : ∀ copy ∈ collected.copies, isCanonicalRelPath copy.1 = true
  unprotected : ∀ copy ∈ collected.copies, isDeniedArtifactPath toLowerCase copy.1 = false
  size : ∀ copy ∈ collected.copies, copy.2.length ≤ limits.maxFileBytes
  total : total + (collected.copies.map fun copy => copy.2.length).sum ≤ limits.maxTotalBytes

theorem stores_copyFrom {total : ℕ} {rels : List JsString} {collected : Collected}
    (htotal : total ≤ limits.maxTotalBytes)
    (h : copyFrom toLowerCase sha dir dest limits total rels = .ok collected) :
    Stores toLowerCase sha limits total rels collected := by
  induction rels generalizing total collected with
  | nil =>
    obtain rfl := Except.ok.inj h
    exact
      { files := rfl
        paths := .slnil
        canonical := by simp
        unprotected := by simp
        size := by simp
        total := by simpa using htotal }
  | cons rel rels ih =>
    rw [copyFrom] at h
    split at h
    · cases h
    · cases hrest : copyFrom toLowerCase sha dir dest limits total rels with
      | error reason =>
        rw [hrest] at h
        cases h
      | ok rest =>
        rw [hrest] at h
        obtain rfl := Except.ok.inj h
        have hstores := ih htotal hrest
        exact { hstores with paths := hstores.paths.cons rel }
    · next bytes hread =>
      obtain ⟨hdenied, hcanonical, hroom⟩ := readCandidate_some hread
      have hsize := hroom.trans (Nat.min_le_left ..)
      have hleft := hroom.trans (Nat.min_le_right ..)
      cases hrest : copyFrom toLowerCase sha dir dest limits (total + bytes.length) rels with
      | error reason =>
        rw [hrest] at h
        cases h
      | ok rest =>
        rw [hrest] at h
        obtain rfl := Except.ok.inj h
        have hstores := ih (by omega) hrest
        have hsum := hstores.total
        exact
          { files := by simp [hstores.files, entryOf]
            paths := hstores.paths.cons_cons rel
            canonical := List.forall_mem_cons.2 ⟨hcanonical, hstores.canonical⟩
            unprotected := List.forall_mem_cons.2 ⟨hdenied, hstores.unprotected⟩
            size := List.forall_mem_cons.2 ⟨hsize, hstores.size⟩
            total := by
              simp only [List.map_cons, List.sum_cons]
              omega }

/-- **What is collected is acceptable to the submitter.** -/
theorem acceptable_of_collected (hshape : isValidRemoteArtifactsShape patterns = true)
    {collected : Collected}
    (h : collectArtifacts toLowerCase sha dir dest limits patterns = .ok collected) :
    collected.files = collected.copies.map (entryOf sha) ∧
      Acceptable toLowerCase patterns limits collected.files := by
  have hlist : ∀ pattern ∈ patterns, pattern ∈ patterns ∧ literalDirPrefix pattern ≠ [] := by
    intro pattern hmem
    simp only [isValidRemoteArtifactsShape, Bool.and_eq_true, List.all_eq_true,
      decide_eq_true_eq] at hshape
    exact ⟨hmem, (hshape.1.2 pattern hmem).2⟩
  have hstart : Gathered patterns limits.maxCount [] := ⟨.nil, Nat.zero_le _, by simp⟩
  unfold collectArtifacts at h
  split at h
  · cases h
  split at h
  · cases h
  next candidates hcandidates =>
  have hgathered := gathered_candidatesOf hlist hstart hcandidates
  have hstores := stores_copyFrom (Nat.zero_le _) h
  have hperm := List.mergeSort_perm candidates fun a b => a ≤ b
  have hnodup := hperm.nodup_iff.2 hgathered.distinct
  have hpaths : collected.files.map FileEntry.path = collected.copies.map Prod.fst := by
    rw [hstores.files, List.map_map]
    rfl
  have hsizes : collected.files.map FileEntry.size =
      collected.copies.map fun copy => copy.2.length := by
    rw [hstores.files, List.map_map]
    rfl
  refine ⟨hstores.files, ?_⟩
  exact
    { entries := by
        intro entry hentry
        rw [hstores.files] at hentry
        obtain ⟨copy, hcopy, rfl⟩ := List.mem_map.1 hentry
        have hrel := hstores.paths.subset (List.mem_map_of_mem hcopy)
        exact
          { canonical := hstores.canonical copy hcopy
            unprotected := hstores.unprotected copy hcopy
            declared := hgathered.declared _ (hperm.mem_iff.1 hrel)
            size := hstores.size copy hcopy
            sha256 := sha.hex copy.2 }
      distinct := by
        rw [hpaths]
        exact hstores.paths.nodup hnodup
      count := by
        have hlen := hstores.paths.length_le
        rw [hperm.length_eq, List.length_map] at hlen
        rw [hstores.files, List.length_map]
        exact hlen.trans hgathered.count
      total := by
        rw [hsizes]
        simpa using hstores.total }

/-! ### What arrives -/

theorem readVerifiedFile_ok_iff {copies : List (JsString × Bytes)} {entry : FileEntry}
    {bytes : Bytes} : readVerifiedFile sha dest copies entry = .ok bytes ↔
      copyAt dest copies entry.path = some bytes ∧ bytes.length = entry.size ∧
        sha.sha256Of bytes = entry.sha256 := by
  unfold readVerifiedFile
  cases copyAt dest copies entry.path with
  | none => simp
  | some found =>
    simp only [Option.some.injEq]
    constructor
    · intro h
      split at h
      · cases h
      next hsize =>
      split at h
      · cases h
      next hhash =>
      obtain rfl := Except.ok.inj h
      exact ⟨rfl, not_not.1 hsize, not_not.1 hhash⟩
    · rintro ⟨rfl, hsize, hhash⟩
      rw [if_neg (not_not.2 hsize), if_neg (not_not.2 hhash)]

theorem framesOf_ok {copies : List (JsString × Bytes)} {files : List (FileEntry × Bytes)}
    (h : ∀ file ∈ files, readVerifiedFile sha dest copies file.1 = .ok file.2) :
    framesOf sha dest copies (files.map Prod.fst) = .ok (files.flatMap frameOf) := by
  induction files with
  | nil => rfl
  | cons file files ih =>
    obtain ⟨hfile, hrest⟩ := List.forall_mem_cons.1 h
    rw [List.map_cons, framesOf, hfile]
    simp only [ih hrest]
    rfl

theorem exists_files_of_framesOf {copies : List (JsString × Bytes)} {entries : List FileEntry}
    {frames : Bytes} (h : framesOf sha dest copies entries = .ok frames) :
    ∃ files : List (FileEntry × Bytes), files.map Prod.fst = entries ∧
      (∀ file ∈ files, readVerifiedFile sha dest copies file.1 = .ok file.2) ∧
        frames = files.flatMap frameOf := by
  induction entries generalizing frames with
  | nil => exact ⟨[], rfl, by simp, (Except.ok.inj h).symm⟩
  | cons entry entries ih =>
    rw [framesOf] at h
    split at h
    · cases h
    next bytes hread =>
    cases hrest : framesOf sha dest copies entries with
    | error message =>
      rw [hrest] at h
      cases h
    | ok rest =>
      rw [hrest] at h
      obtain ⟨files, rfl, hfiles, rfl⟩ := ih hrest
      refine ⟨(entry, bytes) :: files, rfl, List.forall_mem_cons.2 ⟨hread, hfiles⟩, ?_⟩
      exact (Except.ok.inj h).symm

/-- The file of a copy, with its entry. -/
def fileOf (sha : Sha256) (copy : JsString × Bytes) : FileEntry × Bytes :=
  (entryOf sha copy, copy.2)

/-- **The set arrives**: the stream is written, and read off the chunks are just the paths and bytes
that were collected. -/
def Arrives (toLowerCase : JsString → JsString) (sha : Sha256) (dest : Copies) (limits : Limits)
    (patterns : List JsString) (ticketId : JsString) (collected : Collected) (chunks : List Bytes) :
    Prop :=
  ∃ text, encodeArtifacts sha dest ticketId collected = some (.ok text) ∧
    receiveArtifacts chunked toLowerCase sha patterns limits ticketId ({}, chunks) =
      .ok (collected.copies.map fun copy => receivedOf (fileOf sha copy))

/-- **Nothing is lost in between.** -/
structure Undamaged (dest : Copies) (ticketId : JsString) (collected : Collected)
    (chunks : List Bytes) : Prop where
  header : (encodeUtf8 (headerText ticketId collected.files)).length ≤ MAX_STREAM_HEADER_BYTES
  copies : ∀ copy ∈ collected.copies, ∀ other ∈ collected.copies,
    dest.place copy.1 = dest.place other.1 → copy.2 = other.2
  last : chunks.getLast? ≠ some []

theorem copyAt_of_alike {copies : List (JsString × Bytes)}
    (h : ∀ copy ∈ copies, ∀ other ∈ copies, dest.place copy.1 = dest.place other.1 →
      copy.2 = other.2) {copy : JsString × Bytes} (hmem : copy ∈ copies) :
    copyAt dest copies copy.1 = some copy.2 := by
  have hthere : copy ∈ copies.filter fun other => dest.place other.1 = dest.place copy.1 := by
    simpa using hmem
  obtain ⟨last, hlast⟩ := Option.isSome_iff_exists.1
    (List.getLast?_isSome.2 (List.ne_nil_of_mem hthere))
  obtain ⟨hin, hsame⟩ := List.mem_filter.1 (List.mem_of_getLast? hlast)
  rw [copyAt, hlast, Option.map_some, h last hin copy hmem (by simpa using hsame)]

theorem receivedOf_injective : Function.Injective receivedOf := by
  rintro ⟨⟨path, size, sha256⟩, bytes⟩ ⟨⟨path', size', sha256'⟩, bytes'⟩ h
  simpa [receivedOf, and_assoc] using h

section Arrive

variable {collected : Collected} {chunks : List Bytes}

theorem files_of_collected (hfiles : collected.files = collected.copies.map (entryOf sha)) :
    (collected.copies.map (fileOf sha)).map Prod.fst = collected.files := by
  rw [hfiles, List.map_map]
  rfl

theorem undamaged_of_arrives
    (hacceptable : Acceptable toLowerCase patterns limits collected.files)
    (hsome : collected.files ≠ [])
    (hchunks : ∀ text, encodeArtifacts sha dest ticketId collected = some (.ok text) →
      chunks.flatten = text)
    (h : Arrives toLowerCase sha dest limits patterns ticketId collected chunks) :
    Undamaged dest ticketId collected chunks := by
  obtain ⟨text, hencode, hreceive⟩ := h
  obtain ⟨hplain, hlast⟩ := (receiveArtifacts_chunked_iff chunks).1 hreceive
  rw [hchunks text hencode] at hplain
  rw [encodeArtifacts, if_neg hsome, Option.some.injEq] at hencode
  cases hframes : framesOf sha dest collected.copies collected.files with
  | error message =>
    rw [hframes] at hencode
    cases hencode
  | ok frames =>
    rw [hframes] at hencode
    obtain ⟨files, hfst, hread, rfl⟩ := exists_files_of_framesOf hframes
    obtain rfl := Except.ok.inj hencode
    have hverified := fun file hfile => readVerifiedFile_ok_iff.1 (hread file hfile)
    rw [← hfst] at hacceptable hplain
    rw [receiveArtifacts_text ticketId hacceptable (fun file hfile => (hverified file hfile).2.1)
      fun file hfile => (hverified file hfile).2.2] at hplain
    split at hplain
    · cases hplain
    next hfits =>
    -- the files that were received are the copies, so each was read from where it was made
    have hsame : files = collected.copies.map (fileOf sha) := by
      refine List.map_injective_iff.2 receivedOf_injective ?_
      rw [List.map_map]
      exact Except.ok.inj hplain
    have hat : ∀ copy ∈ collected.copies,
        copyAt dest collected.copies copy.1 = some copy.2 := by
      intro copy hcopy
      exact (hverified (fileOf sha copy) (hsame ▸ List.mem_map_of_mem hcopy)).1
    exact
      { header := by
          rw [← hfst]
          exact Nat.not_lt.1 hfits
        copies := by
          intro copy hcopy other hother heq
          have hcopyAt := hat copy hcopy
          rw [copyAt, heq, ← copyAt, hat other hother] at hcopyAt
          exact (Option.some.inj hcopyAt).symm
        last := hlast }

theorem arrives_of_undamaged (hfiles : collected.files = collected.copies.map (entryOf sha))
    (hacceptable : Acceptable toLowerCase patterns limits collected.files)
    (hsome : collected.files ≠ [])
    (hchunks : ∀ text, encodeArtifacts sha dest ticketId collected = some (.ok text) →
      chunks.flatten = text)
    (h : Undamaged dest ticketId collected chunks) :
    Arrives toLowerCase sha dest limits patterns ticketId collected chunks := by
  have hentries := files_of_collected hfiles
  have hread : ∀ file ∈ collected.copies.map (fileOf sha),
      readVerifiedFile sha dest collected.copies file.1 = .ok file.2 := by
    intro file hfile
    obtain ⟨copy, hcopy, rfl⟩ := List.mem_map.1 hfile
    exact readVerifiedFile_ok_iff.2 ⟨copyAt_of_alike h.copies hcopy, rfl, rfl⟩
  have hverified := fun file hfile => readVerifiedFile_ok_iff.1 (hread file hfile)
  have hframes := framesOf_ok hread
  rw [hentries] at hframes
  have hencode : encodeArtifacts sha dest ticketId collected =
      some (.ok (lineOf (headerText ticketId collected.files) ++
        (collected.copies.map (fileOf sha)).flatMap frameOf ++ lineOf endText)) := by
    rw [encodeArtifacts, if_neg hsome, hframes]
    rfl
  have htext := receiveArtifacts_text ticketId (hentries.symm ▸ hacceptable)
    (fun file hfile => (hverified file hfile).2.1) fun file hfile => (hverified file hfile).2.2
  rw [hentries, if_neg (Nat.not_lt.2 h.header), List.map_map] at htext
  refine ⟨_, hencode, (receiveArtifacts_chunked_iff chunks).2 ⟨?_, h.last⟩⟩
  rw [hchunks _ hencode]
  exact htext

/-- **A collected set arrives if and only if nothing is lost in between.** -/
theorem artifacts_arrive_iff (hshape : isValidRemoteArtifactsShape patterns = true)
    (hcollected : collectArtifacts toLowerCase sha dir dest limits patterns = .ok collected)
    (hsome : collected.files ≠ [])
    (hchunks : ∀ text, encodeArtifacts sha dest ticketId collected = some (.ok text) →
      chunks.flatten = text) :
    Arrives toLowerCase sha dest limits patterns ticketId collected chunks ↔
      Undamaged dest ticketId collected chunks := by
  obtain ⟨hfiles, hacceptable⟩ := acceptable_of_collected hshape hcollected
  exact ⟨undamaged_of_arrives hacceptable hsome hchunks,
    arrives_of_undamaged hfiles hacceptable hsome hchunks⟩

end Arrive

/-! ### Paths of digits -/

/-- The digest of no bytes, whatever they are. -/
def emptySha256 : Sha256 where
  sha256Of _ := js "e3b0c44298fc1c149afbf4c8996fb92427ae41e4649b934ca495991b7852b855"
  hex _ := by decide

/-- The digests of `a` and of `b`, and of nothing. -/
def shortSha256 : Sha256 where
  sha256Of bytes :=
    if bytes = [0x61] then js "ca978112ca1bbdcafac231b39a23dc4da786eff8147c4e72b9807785afee48bb"
    else if bytes = [0x62] then
      js "3e23e8160039594a33894f6564e1b1348bbd7a0088d42c4acb73eeaed59c009d"
    else emptySha256.sha256Of bytes
  hex bytes := by
    split_ifs
    · decide
    · decide
    · exact emptySha256.hex bytes

/-- A directory `out` with the files `a` and `b`. -/
def smallDir : WorkDir where
  opendir rel :=
    if rel = js "out" then some (.ok [(js "a", false), (js "b", false)]) else none
  found rel :=
    if rel = js "out/a" then .file (.ok true) (.ok (some [0x61]))
    else if rel = js "out/b" then .file (.ok true) (.ok (some [0x62]))
    else .missing

/-- What is stored of it. -/
def smallSet : Collected where
  files := [⟨js "out/a", 1, shortSha256.sha256Of [0x61]⟩, ⟨js "out/b", 1, shortSha256.sha256Of [0x62]⟩]
  copies := [(js "out/a", [0x61]), (js "out/b", [0x62])]

/-- The stream of it. -/
def smallStream : Bytes :=
  lineOf (headerText (js "t1") smallSet.files) ++
    (smallSet.copies.map (fileOf shortSha256)).flatMap frameOf ++ lineOf endText

/-- The default caps. -/
def defaultLimits : Limits where
  maxFileBytes := 16 * 1024 * 1024
  maxTotalBytes := 64 * 1024 * 1024
  maxCount := 200

theorem artifacts_arrive_small :
    Arrives lowerAscii shortSha256 { place := id } defaultLimits [js "out/*"] (js "t1") smallSet
      [smallStream.take 100, smallStream.drop 100] := by
  have hcollected : collectArtifacts lowerAscii shortSha256 smallDir { place := id } defaultLimits
      [js "out/*"] = .ok smallSet := by
    have hread : readEntries 200 (js "out/*") (js "out") [(js "a", false), (js "b", false)]
        { stack := [], candidates := [] } =
          .ok { scanned := 2, stack := [], candidates := [js "out/a", js "out/b"] } := by rfl
    have hcandidates : candidatesOf smallDir defaultLimits.maxCount [js "out/*"] [] =
        .ok [js "out/a", js "out/b"] := by
      have hopened := @walkFrom_open smallDir 200 (js "out/*") (js "out")
        { stack := [js "out"], candidates := [] } _ [] _ rfl rfl hread
      have hwalk : walkGlob defaultLimits.maxCount (js "out/*") smallDir [] =
          .ok [js "out/a", js "out/b"] := hopened.trans (walkFrom_nil rfl)
      rw [candidatesOf, if_pos (by decide), hwalk]
      rfl
    have hsorted : [js "out/a", js "out/b"].mergeSort (fun a b => a ≤ b) =
        [js "out/a", js "out/b"] := List.mergeSort_of_pairwise (by decide)
    unfold collectArtifacts
    simp only [hcandidates, hsorted]
    rfl
  have hencode : encodeArtifacts shortSha256 { place := id } (js "t1") smallSet =
      some (.ok smallStream) := by rfl
  refine (artifacts_arrive_iff (by decide) hcollected (by decide) fun text htext => ?_).2 ?_
  · rw [hencode] at htext
    simpa using Except.ok.inj (Option.some.inj htext)
  · exact
      { header := by decide +kernel
        copies := by decide
        last := by decide +kernel }

/-! ### Many long paths -/

theorem segments_joinSegments {segs : List JsString} (hne : segs ≠ [])
    (h : ∀ seg ∈ segs, JsString.slash ∉ seg) : (JsString.joinSegments segs).segments = segs :=
  List.splitOn_intercalate _ h hne

/-- A name of digits. -/
structure Digits (seg : JsString) : Prop where
  ne_nil : seg ≠ []
  digits : ∀ u ∈ seg, JsonText.isDigit u = true

theorem Digits.not_mem {seg : JsString} (h : Digits seg) {u : UInt16}
    (hu : JsonText.isDigit u = false) : u ∉ seg := by
  intro hmem
  rw [h.digits u hmem] at hu
  cases hu

/-- What holds anything but digits is no part of a name of digits. -/
theorem Digits.not_part {seg : JsString} (h : Digits seg) {w : JsString}
    (hw : ∃ u ∈ w, JsonText.isDigit u = false) : ¬w <+: seg ∧ ¬w <:+ seg ∧ seg ≠ w := by
  obtain ⟨u, hu, hdigit⟩ := hw
  refine ⟨fun hpart => ?_, fun hpart => ?_, ?_⟩
  · exact h.not_mem hdigit (hpart.subset hu)
  · exact h.not_mem hdigit (hpart.subset hu)
  · rintro rfl
    exact h.not_mem hdigit hu

theorem Digits.lowerAscii {seg : JsString} (h : Digits seg) : lowerAscii seg = seg := by
  unfold Artifacts.lowerAscii
  conv_rhs => rw [← List.map_id seg]
  refine List.map_congr_left fun c hc => ?_
  have hdigit := h.digits c hc
  simp only [JsonText.isDigit, Bool.and_eq_true, decide_eq_true_eq] at hdigit
  rw [if_neg fun hupper => ?_]
  · rfl
  · exact absurd (UInt16.le_trans hupper.1 hdigit.2) (by decide)

theorem digits_decimalText (n : ℕ) : Digits (JsonText.decimalText n) where
  ne_nil := by
    rw [JsonText.decimalText]
    simpa using Framing.decimal_ne_nil n
  digits := JsonText.isDigit_decimalText n

section Digits

variable {segs : List JsString}

theorem segments_digits (hne : segs ≠ []) (h : ∀ seg ∈ segs, Digits seg) :
    (JsString.joinSegments segs).segments = segs :=
  segments_joinSegments hne fun seg hseg => (h seg hseg).not_mem (by decide)

theorem mem_of_mem_joinSegments {segs : List JsString} {u : UInt16}
    (h : u ∈ JsString.joinSegments segs) : u = JsString.slash ∨ ∃ seg ∈ segs, u ∈ seg := by
  induction segs with
  | nil => cases h
  | cons first segs ih =>
    unfold JsString.joinSegments at ih h
    by_cases hlast : segs = []
    · subst hlast
      exact .inr ⟨first, List.mem_cons_self, by simpa using h⟩
    · rw [List.intercalate_cons_of_ne_nil hlast, List.mem_append, List.mem_append,
        List.mem_singleton] at h
      obtain (h | rfl) | h := h
      · exact .inr ⟨first, List.mem_cons_self, h⟩
      · exact .inl rfl
      · obtain heq | ⟨seg, hseg, hu⟩ := ih h
        · exact .inl heq
        · exact .inr ⟨seg, List.mem_cons_of_mem _ hseg, hu⟩

/-- **A path of names of digits is canonical.** -/
theorem canonical_digits (hne : segs ≠ []) (h : ∀ seg ∈ segs, Digits seg) :
    isCanonicalRelPath (JsString.joinSegments segs) = true := by
  have hsegs := segments_digits hne h
  have hnil : [] ∉ segs := fun hmem => (h [] hmem).ne_nil rfl
  have hunit : ∀ {c}, JsonText.isDigit c = false → c ≠ JsString.slash →
      c ∉ JsString.joinSegments segs := by
    intro c hc hslash hmem
    obtain heq | ⟨seg, hseg, hu⟩ := mem_of_mem_joinSegments hmem
    · exact hslash heq
    · exact (h seg hseg).not_mem hc hu
  -- a slash at an end would leave an empty segment there
  have hcut : ∀ a b, JsString.joinSegments segs ≠ a ++ JsString.slash :: b ∨ (a ≠ [] ∧ b ≠ []) := by
    intro a b
    by_contra hends
    obtain ⟨heq, hempty⟩ := not_or.1 hends
    rw [not_not] at heq
    have hsplit := List.splitOn_append_cons_self (a := JsString.slash) a b
    rw [← heq, ← JsString.segments, hsegs] at hsplit
    refine hnil ?_
    rw [hsplit, List.mem_append]
    obtain rfl | rfl : a = [] ∨ b = [] := by tauto
    · exact .inl (by simp)
    · exact .inr (by simp)
  have hhead : (JsString.joinSegments segs).head? ≠ some JsString.slash := by
    intro hslash
    obtain ⟨rest, hrest⟩ := List.head?_eq_some_iff.1 hslash
    obtain hne | ⟨hfront, -⟩ := hcut [] rest
    · exact hne hrest
    · exact hfront rfl
  have hlast : (JsString.joinSegments segs).getLast? ≠ some JsString.slash := by
    intro hslash
    obtain ⟨init, hinit⟩ := List.getLast?_eq_some_iff.1 hslash
    obtain hne | ⟨-, hback⟩ := hcut init []
    · exact hne hinit
    · exact hback rfl
  have hsome : JsString.joinSegments segs ≠ [] := by
    intro hempty
    rw [hempty] at hsegs
    exact hnil (hsegs ▸ by simp [JsString.segments])
  have hback := hunit (c := 0x5c) (by decide) (by decide)
  have hzero := hunit (c := 0) (by decide) (by decide)
  have hnames : ∀ seg ∈ segs, seg ≠ [] ∧ seg ≠ js "." ∧ seg ≠ js ".." := by
    intro seg hseg
    exact ⟨(h seg hseg).ne_nil, ((h seg hseg).not_part ⟨0x2e, by decide, by decide⟩).2.2,
      ((h seg hseg).not_part ⟨0x2e, by decide, by decide⟩).2.2⟩
  simpa [isCanonicalRelPath, JsString.isAbsolute, hsome, hback, hzero, hhead, hlast, hsegs]
    using hnames

/-- **Nor is it protected.** -/
theorem unprotected_digits (hne : segs ≠ []) (h : ∀ seg ∈ segs, Digits seg) :
    isDeniedArtifactPath lowerAscii (JsString.joinSegments segs) = false := by
  rw [isDeniedArtifactPath, segments_digits hne h, List.any_eq_false]
  intro seg hseg
  have hdigits := h seg hseg
  have hnames : ∀ w ∈ deniedNames, ∃ u ∈ w, JsonText.isDigit u = false := by decide
  have hname : seg ∉ deniedNames := fun hmem => (hdigits.not_part (hnames seg hmem)).2.2 rfl
  have hgit := (hdigits.not_part (w := js ".git") (by decide)).1
  have henv := (hdigits.not_part (w := js ".env") (by decide)).1
  have hyarn := (hdigits.not_part (w := js ".yarnrc") (by decide)).1
  have hlock := (hdigits.not_part (w := js ".lock") (by decide)).2.1
  simp [hdigits.lowerAscii, hname, hgit, henv, hyarn, hlock]

end Digits

/-! ### A walk over files -/

section Walk

variable {pattern rel : JsString}

theorem addCandidate_new {candidates : List JsString} (hnew : rel ∉ candidates)
    (hcount : candidates.length + 1 ≤ maxCount) :
    addCandidate maxCount candidates rel = .ok (candidates ++ [rel]) := by
  have hroom : ¬maxCount < (candidates ++ [rel]).length := by
    rw [List.length_append, List.length_singleton]
    omega
  rw [addCandidate, if_neg hnew]
  exact if_neg hroom

/-- **A listing of new files that match is read to its end.** -/
theorem readEntries_files {names : List JsString} {walk : Walk}
    (hmatch : ∀ name ∈ names, artifactMatches pattern (childOf rel name) = true)
    (hnew : (walk.candidates ++ names.map (childOf rel)).Nodup)
    (hcount : walk.candidates.length + names.length ≤ maxCount)
    (hscanned : walk.scanned + names.length ≤ MAX_SCANNED_ENTRIES) :
    readEntries maxCount pattern rel (names.map fun name => (name, false)) walk =
      .ok { walk with
        scanned := walk.scanned + names.length
        candidates := walk.candidates ++ names.map (childOf rel) } := by
  induction names generalizing walk with
  | nil => simp [readEntries]
  | cons name names ih =>
    obtain ⟨hname, hrest⟩ := List.forall_mem_cons.1 hmatch
    rw [List.map_cons, List.append_cons] at hnew
    rw [List.length_cons] at hcount hscanned
    have hfresh : childOf rel name ∉ walk.candidates := by
      have hfront := hnew.of_append_left
      rw [List.nodup_append] at hfront
      exact fun hmem => hfront.2.2 _ hmem _ List.mem_cons_self rfl
    have hadd : addCandidate maxCount walk.candidates (childOf rel name) =
        .ok (walk.candidates ++ [childOf rel name]) := addCandidate_new hfresh (by omega)
    have hstep := @ih { walk with
        scanned := walk.scanned + 1, candidates := walk.candidates ++ [childOf rel name] }
      hrest hnew (by simp; omega) (by dsimp only; omega)
    rw [List.map_cons, readEntries, if_neg (by omega)]
    simp only [Bool.false_eq_true, if_false, hname, if_true, hadd]
    rw [hstep]
    simp [Nat.add_comm, Nat.add_left_comm]

end Walk

/-- **Empty files are all stored.** -/
theorem copyFrom_empty (sha : Sha256) {rels : List JsString}
    (hread : ∀ rel ∈ rels, ∀ total,
      readCandidate toLowerCase dir dest limits total rel = .ok (some [])) (total : ℕ) :
    copyFrom toLowerCase sha dir dest limits total rels = .ok
      { files := rels.map fun rel => entryOf sha (rel, [])
        copies := rels.map fun rel => (rel, []) } := by
  induction rels generalizing total with
  | nil => rfl
  | cons rel rels ih =>
    obtain ⟨hrel, hrest⟩ := List.forall_mem_cons.1 hread
    rw [copyFrom, hrel]
    dsimp only
    rw [ih hrest]
    rfl

/-! ### The size of a header -/

theorem length_entryText (entry : FileEntry) :
    entry.path.length + entry.sha256.length ≤ (entryText entry).length := by
  have hpath := JsonText.length_le_quoteBody entry.path
  have hsha256 := JsonText.length_le_quoteBody entry.sha256
  simp only [entryText, JsonText.objectText, JsonText.quote, List.map_cons, List.map_nil,
    List.intercalate_cons_cons, List.intercalate_singleton, List.length_cons, List.length_append]
  omega

/-- **A header is longer than its entries.** -/
theorem sum_le_headerText (ticketId : JsString) (files : List FileEntry) :
    (files.map fun entry => (entryText entry).length).sum ≤ (headerText ticketId files).length := by
  have hentries := JsonText.length_le_intercalate (files.map entryText)
  rw [List.map_map] at hentries
  simp only [headerText, JsonText.objectText, JsonText.arrayText, List.map_cons, List.map_nil,
    List.intercalate_cons_cons, List.intercalate_singleton, List.length_cons, List.length_append]
  simp only [Function.comp_def] at hentries
  omega

/-! ### Many long paths -/

/-- Five names of 250 digits. -/
def deepNames : List JsString := List.replicate 5 (List.replicate 250 0x30)

/-- The path of a name below them. -/
def deepPath (name : JsString) : JsString := JsString.joinSegments (deepNames ++ [name])

/-- The names of 200 files. -/
def wideNames : List JsString := (List.range 200).map JsonText.decimalText

/-- The work directory in which these stand there, and are empty. -/
def wideDir : WorkDir where
  opendir rel :=
    if rel = JsString.joinSegments deepNames then
      some (.ok (wideNames.map fun name => (name, false)))
    else none
  found rel :=
    if rel ∈ wideNames.map deepPath then .file (.ok true) (.ok (some [])) else .missing

/-- The pattern of them. -/
def widePattern : JsString := deepPath [star]

theorem digits_deepNames : ∀ seg ∈ deepNames, Digits seg := by
  intro seg hseg
  obtain rfl := List.eq_of_mem_replicate hseg
  refine ⟨List.ne_nil_of_length_pos ?_, fun u hu => ?_⟩
  · rw [List.length_replicate]
    decide
  · rw [List.eq_of_mem_replicate hu]
    decide

theorem digits_deepPath {name : JsString} (h : Digits name) :
    ∀ seg ∈ deepNames ++ [name], Digits seg := by
  intro seg hseg
  rw [List.mem_append, List.mem_singleton] at hseg
  obtain hseg | rfl := hseg
  · exact digits_deepNames seg hseg
  · exact h

theorem digits_wideNames : ∀ name ∈ wideNames, Digits name := by
  intro name hname
  obtain ⟨n, -, rfl⟩ := List.mem_map.1 hname
  exact digits_decimalText n

theorem nodup_wideNames : wideNames.Nodup :=
  List.nodup_range.map fun n m h => by
    rw [← JsonText.natOf_decimalText n, h, JsonText.natOf_decimalText]

theorem length_deepNames : deepNames.length = 5 := List.length_replicate

theorem deepNames_ne_nil : deepNames ≠ [] :=
  List.ne_nil_of_length_pos (by rw [length_deepNames]; decide)

theorem joinSegments_deepNames_ne_nil : JsString.joinSegments deepNames ≠ [] := by
  intro hempty
  have hsegs := segments_digits deepNames_ne_nil digits_deepNames
  rw [hempty] at hsegs
  have hlen := congrArg List.length hsegs
  rw [length_deepNames] at hlen
  cases hlen

theorem childOf_deep (name : JsString) :
    childOf (JsString.joinSegments deepNames) name = deepPath name := by
  rw [childOf, if_neg joinSegments_deepNames_ne_nil, deepPath, joinSegments_concat deepNames_ne_nil]
  simp

theorem segments_widePattern : widePattern.segments = deepNames ++ [[star]] := by
  refine segments_joinSegments (by simp) fun seg hseg => ?_
  rw [List.mem_append, List.mem_singleton] at hseg
  obtain hseg | rfl := hseg
  · exact (digits_deepNames seg hseg).not_mem (by decide)
  · decide

theorem literalDirPrefix_widePattern :
    literalDirPrefix widePattern = JsString.joinSegments deepNames := by
  rw [literalDirPrefix, segments_widePattern, List.dropLast_concat, List.takeWhile_eq_self_iff.2]
  intro seg hseg
  simpa using (digits_deepNames seg hseg).not_mem (by decide)

theorem segmentTest_star (s : JsString) : segmentTest [star] s = true := by
  rw [segmentTest.eq_def]
  simp only [if_true, List.any_eq_true]
  exact ⟨[], by simp, rfl⟩

theorem artifactMatches_widePattern {name : JsString} (h : Digits name) :
    artifactMatches widePattern (deepPath name) = true := by
  rw [artifactMatches, segments_widePattern, deepPath,
    segments_digits (by simp) (digits_deepPath h)]
  refine matchSegments_append (fun seg hseg => (digits_deepNames seg hseg).not_mem (by decide)) ?_
  rw [matchSegments, if_neg (by decide)]
  simp [segmentTest_star, matchSegments]

theorem deepPath_injective {name other : JsString} (h : Digits name) (hother : Digits other)
    (heq : deepPath name = deepPath other) : name = other := by
  have hsegs := congrArg JsString.segments heq
  rw [deepPath, deepPath, segments_digits (by simp) (digits_deepPath h),
    segments_digits (by simp) (digits_deepPath hother)] at hsegs
  simpa using hsegs

theorem nodup_widePaths : (wideNames.map deepPath).Nodup :=
  nodup_wideNames.map_on fun name hname other hother heq =>
    deepPath_injective (digits_wideNames name hname) (digits_wideNames other hother) heq

/-- **The walk finds them all.** -/
theorem walkGlob_wideDir : walkGlob 200 widePattern wideDir [] = .ok (wideNames.map deepPath) := by
  have hchildren : wideNames.map (childOf (JsString.joinSegments deepNames)) =
      wideNames.map deepPath := List.map_congr_left fun name _ => childOf_deep name
  have hlen : wideNames.length = 200 := by simp [wideNames]
  have hread := @readEntries_files 200 widePattern (JsString.joinSegments deepNames) wideNames
    { stack := [], candidates := [] }
    (fun name hname => by
      rw [childOf_deep]
      exact artifactMatches_widePattern (digits_wideNames name hname))
    (by rw [List.nil_append, hchildren]; exact nodup_widePaths) (by simp [hlen])
    (by simp [hlen, MAX_SCANNED_ENTRIES])
  have hopen : wideDir.opendir (JsString.joinSegments deepNames) =
      some (.ok (wideNames.map fun name => (name, false))) := by
    simp only [wideDir, if_true]
  have hopened := @walkFrom_open wideDir 200 widePattern (JsString.joinSegments deepNames)
    { stack := [JsString.joinSegments deepNames], candidates := [] } _ [] _ rfl hopen hread
  rw [walkGlob, literalDirPrefix_widePattern, hopened, walkFrom_nil rfl]
  exact congrArg Except.ok hchildren

theorem shape_widePattern : isValidRemoteArtifactsShape [widePattern] = true := by
  have hprefix : literalDirPrefix widePattern ≠ [] := by
    rw [literalDirPrefix_widePattern]
    exact joinSegments_deepNames_ne_nil
  have hsegments : ∀ seg ∈ widePattern.segments, isValidArtifactSegment seg = true := by
    rw [segments_widePattern]
    decide +kernel
  have hcanonical : isCanonicalRelPath widePattern = true := by
    decide +kernel
  simp [isValidRemoteArtifactsShape, MAX_REMOTE_ARTIFACT_PATTERNS, hprefix, hcanonical]
  exact hsegments

/-- What is stored of them. -/
def wideSet (rels : List JsString) : Collected where
  files := rels.map fun rel => entryOf emptySha256 (rel, [])
  copies := rels.map fun rel => (rel, [])

theorem collectArtifacts_wideDir :
    ∃ rels, rels.Perm (wideNames.map deepPath) ∧
      collectArtifacts lowerAscii emptySha256 wideDir { place := id } defaultLimits [widePattern] =
        .ok (wideSet rels) := by
  have hglob : isGlobPattern widePattern = true := by
    rw [isGlobPattern, decide_eq_true_eq]
    exact mem_joinSegments (List.mem_append_right _ List.mem_cons_self) List.mem_cons_self
  have hcandidates : candidatesOf wideDir defaultLimits.maxCount [widePattern] [] =
      .ok (wideNames.map deepPath) := by
    rw [candidatesOf, if_pos hglob]
    have hwalk : walkGlob defaultLimits.maxCount widePattern wideDir [] =
      .ok (wideNames.map deepPath) := walkGlob_wideDir
    rw [hwalk]
    rfl
  have hperm := List.mergeSort_perm (wideNames.map deepPath) fun a b => a ≤ b
  refine ⟨_, hperm, ?_⟩
  have hread : ∀ rel ∈ (wideNames.map deepPath).mergeSort fun a b => a ≤ b, ∀ total,
      readCandidate lowerAscii wideDir { place := id } defaultLimits total rel = .ok (some []) := by
    intro rel hrel total
    have hmem := hperm.mem_iff.1 hrel
    have hfound : wideDir.found rel = .file (.ok true) (.ok (some [])) := by
      simp only [wideDir, if_pos hmem]
    obtain ⟨name, hname, rfl⟩ := List.mem_map.1 hmem
    have hdigits := digits_deepPath (digits_wideNames name hname)
    have hcanonical := canonical_digits (by simp) hdigits
    have hunprotected := unprotected_digits (by simp) hdigits
    rw [← deepPath] at hcanonical hunprotected
    simp [readCandidate, hunprotected, hfound, hcanonical]
  have hcopies := copyFrom_empty emptySha256 hread 0
  rw [collectArtifacts, hcandidates]
  exact hcopies

theorem length_deepPath (name : JsString) : 1250 ≤ (deepPath name).length := by
  have hlen : (JsString.joinSegments deepNames).length = 1254 := by decide +kernel
  rw [deepPath, joinSegments_concat deepNames_ne_nil, List.length_append, List.length_append, hlen]
  omega

/-- **The header of these files is longer than the submitter reads.** -/
theorem wideSet_header {rels : List JsString} (hrels : rels.Perm (wideNames.map deepPath))
    (ticketId : JsString) :
    MAX_STREAM_HEADER_BYTES < (encodeUtf8 (headerText ticketId (wideSet rels).files)).length := by
  have hcount : rels.length = 200 := by
    rw [hrels.length_eq, List.length_map, wideNames, List.length_map, List.length_range]
  have hbytes := Utf8.length_le_encode (headerText ticketId (wideSet rels).files)
  have hsum := sum_le_headerText ticketId (wideSet rels).files
  have heach := List.card_nsmul_le_sum
    ((wideSet rels).files.map fun entry => (entryText entry).length) 1314 (by
      intro size hsize
      obtain ⟨entry, hentry, rfl⟩ := List.mem_map.1 hsize
      obtain ⟨rel, hrel, rfl⟩ := List.mem_map.1 hentry
      obtain ⟨name, -, rfl⟩ := List.mem_map.1 (hrels.mem_iff.1 hrel)
      have hentry := length_entryText (entryOf emptySha256 (deepPath name, []))
      have hpath := length_deepPath name
      have hsha256 : (emptySha256.sha256Of []).length = 64 := by decide
      simp only [entryOf] at hentry ⊢
      omega)
  have hlen : ((wideSet rels).files.map fun entry => (entryText entry).length).length = 200 := by
    rw [List.length_map, wideSet, List.length_map, hcount]
  rw [hlen, Nat.nsmul_eq_mul] at heach
  unfold MAX_STREAM_HEADER_BYTES
  omega

/-- **Files with long paths are collected, and never arrive.** -/
theorem long_paths_are_lost :
    isValidRemoteArtifactsShape [widePattern] = true ∧
      ∃ collected, collectArtifacts lowerAscii emptySha256 wideDir { place := id } defaultLimits
          [widePattern] = .ok collected ∧ collected.files ≠ [] ∧
        ∀ ticketId chunks,
          (∀ text, encodeArtifacts emptySha256 { place := id } ticketId collected =
            some (.ok text) → chunks.flatten = text) →
          ¬Arrives lowerAscii emptySha256 { place := id } defaultLimits [widePattern] ticketId
            collected chunks := by
  obtain ⟨rels, hrels, hcollected⟩ := collectArtifacts_wideDir
  have hsome : (wideSet rels).files ≠ [] := by
    have hlen := hrels.length_eq
    rw [List.length_map, wideNames, List.length_map, List.length_range] at hlen
    refine List.ne_nil_of_length_pos ?_
    rw [wideSet, List.length_map, hlen]
    decide
  refine ⟨shape_widePattern, _, hcollected, hsome, fun ticketId chunks hchunks harrives => ?_⟩
  have hacceptable := (acceptable_of_collected shape_widePattern hcollected).2
  have hheader := (undamaged_of_arrives hacceptable hsome hchunks harrives).header
  have hlong := wideSet_header hrels ticketId
  omega

end Artifacts
end Client
end LaneBroker
