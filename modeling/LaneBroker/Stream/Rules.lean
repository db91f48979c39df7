/-
# Rules about a manifest and facts about a tree

What a manifest lets a stream do is known ahead of any stream.  A path can be sent if it is
canonical and listed, and no ancestor of it is the path of an entry of type `symlink`
(`Sendable`); a link can be made at it if besides its entry is no file and its target passes the
walk over the paths (`Linkable`).  No extraction leaves its directory, whatever is sent and
wherever it is extracted, just when no path that can be sent lies below one at which a link can be
made; and where all entries are files and `symlink`s, and the host tells the segments of their
paths apart, that is what the rule about the ancestors says (`extractFrames_stays_inside_iff`).
-/

import LaneBroker.Stream.Answers
import Mathlib.Data.Set.Operations

namespace LaneBroker
namespace Stream

open LaneBroker.Basis

/-! ### What a manifest lets a stream do -/

/-- **A path that a stream can send**, with its entry. -/
structure Sendable (entries : List Entry) (p : JsString) (e : Entry) : Prop where
  canonical : isCanonicalRelPath p = true
  listed : expectedByPath entries p = some e
  above : ∀ q ∈ ancestors p, .str q ∉ symlinkPaths entries
  /-- A frame can be equal to the entry in what it repeats of it. -/
  type : e.type ≠ .obj
  size : e.type = .str (js "file") → ∃ n, e.size.integer? = some n ∧ 0 ≤ n
  target : e.type ≠ .str (js "file") → e.target ≠ .obj

/-- **A path at which a stream can make a link**: a call can make one of its target, which the walk
over the paths lets through. -/
structure Linkable (entries : List Entry) (q : JsString) (e : Entry) : Prop where
  sendable : Sendable entries q e
  noFile : e.type ≠ .str (js "file")
  target : ∃ text, e.target = .str text ∧ text ≠ [] ∧ 0 ∉ text
  walk : checkExtractSymlinkTarget entries q e.target = .ok ()

/-- **No path that can be sent lies below one at which a link can be made**, as the host reads their
segments. -/
def NoneBelowLink {ν : Type} (nameOf : JsString → ν) (entries : List Entry) : Prop :=
  ∀ p e q e', Sendable entries p e → Linkable entries q e' →
    ¬ q.segments.map nameOf <+: p.segments.dropLast.map nameOf

/-- The frame that repeats an entry. -/
def Entry.frame (e : Entry) (p : JsString) : Frame where
  path := .str p
  type := e.type
  exec := e.exec
  size := e.size
  target := e.target

variable {ν : Type} [DecidableEq ν]

section Checks

variable {entries : List Entry} {limits : Limits} {seen : List JsString} {remaining : Option Int}
  {frame : Frame} {p : JsString} {e : Entry}

theorem validateFile_ok (h : validateFile limits remaining frame e p = .ok ()) :
    ∃ n, e.size.integer? = some n ∧ 0 ≤ n := by
  unfold validateFile at h
  split at h
  · cases h
  · split at h
    · cases h
    · rename_i n hn
      split_ifs at h with hneg hsize
      all_goals
        have hsize := (JsVal.strictEq_eq_true.1 (by simpa using hsize)).2
        exact ⟨n, by rw [← hsize, hn], Int.not_lt.1 hneg⟩

/-- **What passes `validateFrame` can be sent**, and the frame repeats the entry. -/
theorem sendable_of_validateFrame
    (h : validateFrame entries limits seen remaining frame = .ok ()) :
    ∃ e, Sendable entries frame.pathText e ∧ frame.type = e.type ∧
      (e.type ≠ .str (js "file") → frame.target = e.target) := by
  unfold validateFrame at h
  split at h
  · rename_i p hp
    have htext : frame.pathText = p := by simp [Frame.pathText, hp]
    rw [htext]
    cases hentry : expectedByPath entries p with
    | none =>
      simp only [hentry] at h
      split_ifs at h
    | some e =>
      simp only [hentry] at h
      split_ifs at h with _ hcanonical _ hancestors htype hfile htarget
      all_goals
        obtain ⟨hobj, htype⟩ := JsVal.strictEq_eq_true.1 (by simpa using htype)
        have hancestors : ∀ q ∈ ancestors p, JsVal.str q ∉ symlinkPaths entries := by
          simpa using hancestors
      · refine ⟨e, ⟨by simpa using hcanonical, hentry, hancestors, htype ▸ hobj, fun _ => ?_,
          fun hno => absurd hfile hno⟩, htype, fun hno => absurd hfile hno⟩
        exact validateFile_ok h
      · obtain ⟨hobj', htarget⟩ := JsVal.strictEq_eq_true.1 (by simpa using htarget)
        exact ⟨e, ⟨by simpa using hcanonical, hentry, hancestors, htype ▸ hobj,
          fun hyes => absurd hyes hfile, fun _ => htarget ▸ hobj'⟩, htype, fun _ => htarget⟩
  · cases h

/-- **What can be sent passes `validateFrame`**, if it was not sent before. -/
theorem Sendable.validates (h : Sendable entries p e) (hnew : p ∉ seen) :
    validateFrame entries {} seen none (e.frame p) = .ok () := by
  have hrelative : p.isAbsolute = false := by
    have hcanonical := h.canonical
    unfold isCanonicalRelPath at hcanonical
    split_ifs at hcanonical with _ _ _ habsolute
    simpa using habsolute
  have hancestors : ((ancestors p).any fun q => .str q ∈ symlinkPaths entries) = false := by
    simpa using h.above
  have htype : e.type.strictEq e.type = true := JsVal.strictEq_eq_true.2 ⟨h.type, rfl⟩
  by_cases hfile : e.type = .str (js "file")
  · obtain ⟨n, hn, hsize⟩ := h.size hfile
    have hself : e.size.strictEq e.size = true :=
      JsVal.strictEq_eq_true.2 ⟨by rintro he; simp [he, JsVal.integer?] at hn, rfl⟩
    rw [hfile] at htype
    simp [validateFrame, Entry.frame, hrelative, h.canonical, h.listed, hancestors, htype, hnew,
      hfile, validateFile, hn, hself, Int.not_lt.2 hsize]
  · have htarget : e.target.strictEq e.target = true :=
      JsVal.strictEq_eq_true.2 ⟨h.target hfile, rfl⟩
    simp [validateFrame, Entry.frame, hrelative, h.canonical, h.listed, hancestors, htype, hnew,
      hfile, htarget]

end Checks

/-! ### What a stream can do is what the manifest lets it do -/

section Upward

variable {host : Host ν} {base : List ν} {entries : List Entry} {limits : Limits} {s : State ν}
  {frame : Frame} {entry : Entry} {pass : Pass}

omit [DecidableEq ν] in
theorem sendable_of_accepted (h : acceptedFrame entries limits s pass = some (frame, entry)) :
    Sendable entries frame.pathText entry ∧ frame.type = entry.type ∧
      (entry.type ≠ .str (js "file") → frame.target = entry.target) := by
  unfold acceptedFrame at h
  split at h
  · split_ifs at h
    split at h
    · cases h
    · rename_i hval
      obtain ⟨e, hsendable, hrest⟩ := sendable_of_validateFrame hval
      rw [hsendable.listed] at h
      obtain ⟨rfl, rfl⟩ := Prod.mk.inj (Option.some.inj h)
      exact ⟨hsendable, hrest⟩
  · cases h

/-- **A link that is made is one that the manifest lets be made.** -/
theorem linkable_of_goes (hacc : acceptedFrame entries limits s pass = some (frame, entry))
    (hlink : linksAt entries frame.pathText = true)
    (hgo : (extractFrame host base entries limits s frame entry pass).2 = none) :
    Linkable entries frame.pathText entry := by
  obtain ⟨hsendable, htype, htarget⟩ := sendable_of_accepted hacc
  have hframe := (linksAt_iff hsendable.listed htype).1 hlink
  have hentry : entry.type ≠ .str (js "file") := htype ▸ hframe
  have htarget := htarget hentry
  unfold extractFrame at hgo
  dsimp only at hgo
  split at hgo
  · cases hgo
  · rw [if_neg fun hfile => hframe hfile.1, if_neg hframe] at hgo
    unfold extractLink at hgo
    dsimp only at hgo
    split at hgo
    · cases hgo
    · rename_i hwalk
      split at hgo
      · cases hgo
      · rename_i hmade
        unfold Host.symlinkSync at hmade
        split_ifs at hmade with hnul hempty
        have htext : entry.target = .str frame.targetText := by
          rw [← htarget]
          unfold Frame.targetText
          unfold checkExtractSymlinkTarget at hwalk
          split at hwalk
          · rename_i text hstr
            simp [hstr]
          · cases hwalk
        exact ⟨hsendable, hentry, ⟨_, htext, hempty, hnul⟩, htarget ▸ hwalk⟩

/-- The links made so far are ones that the manifest lets be made. -/
def Linked (entries : List Entry) (s : State ν) : Prop :=
  ∀ q ∈ s.seen, linksAt entries q = true → ∃ e, Linkable entries q e

/-- **Along the loop a frame lies below no link**, if the manifest does not let it. -/
theorem belowNoLink_of_noneBelowLink (hnone : NoneBelowLink host.nameOf entries)
    (hbase : s.tree.isDir base = true) (h : Linked entries s) (passes : List Pass) :
    ∀ taken ∈ accepted host base entries limits s passes, BelowNoLink host entries taken := by
  induction passes generalizing s with
  | nil => nofun
  | cons pass rest ih =>
    cases hacc : acceptedFrame entries limits s pass with
    | none =>
      obtain ⟨o, hstep, -⟩ := step_of_not_accepted host base hacc
      simp [accepted, hacc, hstep]
    | some fe =>
      obtain ⟨frame, entry⟩ := fe
      have hstep := (step_of_accepted host base hacc).1
      have hhere : BelowNoLink host entries (s, frame.pathText) := by
        intro q hq hlink
        obtain ⟨e, hlinkable⟩ := h q hq hlink
        exact hnone _ _ _ _ (sendable_of_accepted hacc).1 hlinkable
      generalize hr : extractFrame host base entries limits s frame entry pass = r at hstep
      obtain ⟨s', o⟩ := r
      cases o with
      | some o => simpa [accepted, hacc, hstep] using hhere
      | none =>
        -- the loop goes on, so the frame was seen, and its link was made if it has one
        obtain ⟨hseen, hbase'⟩ : s'.seen = s.seen ++ [frame.pathText] ∧
            s'.tree.isDir base = true := by
          obtain ⟨-, hkeeps⟩ | ⟨-, e, hthrew⟩ :=
            @extractFrame_keeps _ _ host base s frame entries limits entry pass hbase
          · rw [hr] at hkeeps
            obtain ⟨_, hrefused⟩ | ⟨-, hkept⟩ := hkeeps
            · cases hrefused
            · exact hkept
          · rw [hr] at hthrew
            cases hthrew
        have hlinked : Linked entries s' := by
          intro q hq hlink
          rw [hseen, List.mem_append, List.mem_singleton] at hq
          obtain hq | rfl := hq
          · exact h q hq hlink
          · exact ⟨entry, linkable_of_goes hacc hlink (by rw [hr])⟩
        simpa [accepted, hacc, hstep, hhere] using ih hbase' hlinked

end Upward

/-! ### What the manifest lets a stream do, a stream does -/

section Downward

variable {entries : List Entry} {nameOf : JsString → ν} {p q : JsString} {e e' : Entry}

/-- A host on which nothing is too long, and where no name is. -/
def roomyHost (nameOf : JsString → ν) : Host ν where
  volume := { fits := fun _ => true, links := 40 }
  nameOf := nameOf

/-- The pass of a frame that repeats an entry. -/
def Entry.pass (e : Entry) (p : JsString) : Pass := { line := .line (some (e.frame p)) }

omit [DecidableEq ν] in
theorem Sendable.accepted {s : State ν} (h : Sendable entries p e) (hnew : p ∉ s.seen) :
    acceptedFrame entries {} s (e.pass p) = some (e.frame p, e) := by
  have hend : (e.frame p).ending.isTrue = false := rfl
  have hremaining : s.remaining {} = none := rfl
  have htext : (e.frame p).pathText = p := rfl
  simp [acceptedFrame, Entry.pass, hend, hremaining, h.validates hnew, htext, h.listed]

variable {base : List ν} {t t' : Tree ν}

/-- In a destination just made the directories of a path can be made, -/
theorem mkdirSync_makeDest (h : makeDest (roomyHost nameOf) base t = .ok t') (q : JsString) :
    ((roomyHost nameOf).mkdirSync t' base q).2 = .ok () := by
  have hdir : t'.isDir base = true :=
    FileTree.isDir_iff.2 (by rw [(makeDest_ok h).2, if_pos rfl])
  refine (mkdirSync_ok_iff hdir).2 ⟨rfl, ?_⟩
  cases (roomyHost nameOf).dirsOf q with
  | nil => exact FileTree.opens_nil hdir
  | cons n names =>
    exact (FileTree.opens_free hdir (makeDest_empty h (by simp))).2 fun _ _ => rfl

/-- and then the last name of the path is free. -/
theorem exists_createAt (h : makeDest (roomyHost nameOf) base t = .ok t') (q : JsString)
    (x : Node ν Body) :
    ∃ r, (roomyHost nameOf).createAt ((roomyHost nameOf).mkdirSync t' base q).1 base q x = .ok r := by
  have hbuilt : Built (roomyHost nameOf) base [] t { tree := t' } := built_makeDest h
  have hplain : ¬ t'.Crosses base ((roomyHost nameOf).dirsOf q) := fun hcrosses =>
    (hbuilt.crosses_iff q).1 hcrosses nofun
  have hdirs := mkdirSync_ok hbuilt.dest hplain (mkdirSync_makeDest h q)
  have hwiden : FileTree.Widens t' ((roomyHost nameOf).mkdirSync t' base q).1 base _ :=
    mkdirSync_widens hplain
  generalize ((roomyHost nameOf).mkdirSync t' base q).1 = u at hdirs hwiden ⊢
  have hseg := List.getLast?_eq_some_getLast (List.splitOn_ne_nil JsString.slash q)
  have hnames := @namesOf_eq_of_getLast _ (roomyHost nameOf) _ _ hseg
  have hfree : u.node (base ++ (roomyHost nameOf).namesOf q) = none := by
    obtain hsame | ⟨-, -, names, hpre, heq⟩ := hwiden (base ++ (roomyHost nameOf).namesOf q)
    · rw [hsame]
      exact makeDest_empty h (by rw [hnames]; simp)
    · -- only directories above it were made
      have hlen := (List.append_cancel_left heq ▸ hpre).length_le
      rw [hnames, List.length_append, List.length_singleton] at hlen
      omega
  rw [hnames, ← List.append_assoc] at hfree
  have hdir := FileTree.isDir_iff.2 (hdirs _ List.prefix_rfl)
  unfold Host.createAt
  rw [if_neg (by simp [roomyHost]), FileTree.walk_down hdirs]
  simp only [JsString.segments, hseg, FileTree.create, hdir, hfree]
  simp [roomyHost]

/-- **The first link of a stream is made.** -/
theorem Linkable.goes (h : Linkable entries q e)
    (hmk : makeDest (roomyHost nameOf) base t = .ok t') :
    ∃ s, extractFrame (roomyHost nameOf) base entries {} { tree := t' } (e.frame q) e (e.pass q) =
      (s, none) ∧ s.seen = [q] := by
  obtain ⟨text, htext, hne, hnul⟩ := h.target
  have hmade := mkdirSync_makeDest hmk q
  obtain ⟨⟨u, loc⟩, hcreated⟩ :=
    exists_createAt hmk q (.link ((roomyHost nameOf).targetOf text))
  have hpath : (e.frame q).pathText = q := rfl
  have hframe : (e.frame q).type ≠ .str (js "file") := h.noFile
  have hwalk : checkExtractSymlinkTarget entries q (e.frame q).target = .ok () := h.walk
  have htarget : (e.frame q).targetText = text := by
    simp [Frame.targetText, Entry.frame, htext]
  unfold extractFrame
  dsimp only
  rw [hpath]
  generalize (roomyHost nameOf).mkdirSync t' base q = made at hmade hcreated
  obtain ⟨t₁, r⟩ := made
  obtain rfl : r = .ok () := hmade
  have hlink : (roomyHost nameOf).symlinkSync t₁ base text q = .ok u := by
    unfold Host.symlinkSync
    rw [if_neg hnul, if_neg hne, hcreated]
  dsimp only
  rw [if_neg fun hfile => hframe hfile.1, if_neg hframe]
  simp only [extractLink, hpath, hwalk, htarget, hlink]
  exact ⟨_, rfl, rfl⟩

/-- **A path below a link**: the link is sent first, then the path. -/
theorem exists_taken (hp : Sendable entries p e) (hq : Linkable entries q e')
    (hbelow : q.segments.map nameOf <+: p.segments.dropLast.map nameOf) :
    ∃ taken ∈ framesTaken (roomyHost nameOf) [nameOf []] entries {} (lonePath [])
      [e'.pass q, e.pass p], ¬ BelowNoLink (roomyHost nameOf) entries taken := by
  obtain ⟨t', hmk⟩ : ∃ t', makeDest (roomyHost nameOf) [nameOf []] (lonePath []) = .ok t' := by
    simp [makeDest, FileTree.create, FileTree.isDir, lonePath, roomyHost]
  obtain ⟨s, hgoes, hseen⟩ := hq.goes hmk
  have hfirst := hq.sendable.accepted (s := { tree := t' }) (by simp)
  have hstep := (step_of_accepted (roomyHost nameOf) [nameOf []] hfirst).1
  have hnew : p ∉ s.seen := by
    rw [hseen, List.mem_singleton]
    rintro rfl
    have hlen := hbelow.length_le
    simp only [List.length_map, List.length_dropLast] at hlen
    have := List.length_pos_iff.2 (List.splitOn_ne_nil JsString.slash p)
    unfold JsString.segments at hlen
    omega
  have hsecond := hp.accepted hnew
  refine ⟨(s, p), ?_, fun hno => hno q (by simp [hseen]) ?_ hbelow⟩
  · simp only [framesTaken, hmk]
    unfold accepted
    rw [hstep, hgoes, hfirst]
    exact List.mem_append_right _ (mem_accepted _ _ [] hsecond)
  · simp [linksAt, hq.sendable.listed, hq.noFile]

end Downward

/-! ### The rule about the ancestors -/

/-- The text of the first segments is built up, behind one that was built before, -/
theorem join_mem_prefixes_of_ne {acc : JsString} {before : List JsString} (after : List JsString)
    (hacc : acc ≠ []) (hne : before ≠ []) :
    acc ++ JsString.slash :: JsString.joinSegments before ∈ prefixes acc (before ++ after) := by
  induction before generalizing acc with
  | nil => exact absurd rfl hne
  | cons seg before ih =>
    rw [List.cons_append, prefixes, if_neg hacc]
    by_cases hlast : before = []
    · subst hlast
      simp [JsString.joinSegments]
    · have hmore := @ih (acc ++ JsString.slash :: seg) (by simp) hlast
      unfold JsString.joinSegments at hmore ⊢
      rw [List.intercalate_cons_of_ne_nil hlast]
      refine List.mem_cons_of_mem _ ?_
      simpa using hmore

/-- and from the first one on. -/
theorem join_mem_prefixes {before : List JsString} (after : List JsString) (hne : before ≠ [])
    (hsegs : ∀ seg ∈ before, seg ≠ []) :
    JsString.joinSegments before ∈ prefixes [] (before ++ after) := by
  cases before with
  | nil => exact absurd rfl hne
  | cons seg before =>
    rw [List.cons_append, prefixes, if_pos rfl]
    by_cases hlast : before = []
    · subst hlast
      simp [JsString.joinSegments]
    · have hmore := join_mem_prefixes_of_ne after (hsegs seg List.mem_cons_self) hlast
      unfold JsString.joinSegments at hmore ⊢
      rw [List.intercalate_cons_of_ne_nil hlast]
      refine List.mem_cons_of_mem _ ?_
      simpa using hmore

/-- The segments of the paths that a manifest lists. -/
def listedSegments (entries : List Entry) : Set JsString :=
  { seg | ∃ e ∈ entries, ∃ p, e.path = .str p ∧ seg ∈ p.segments }

theorem mem_of_expectedByPath {entries : List Entry} {p : JsString} {e : Entry}
    (h : expectedByPath entries p = some e) : e ∈ entries ∧ e.path = .str p := by
  have hmem := List.mem_of_getLast? h
  rwa [List.mem_filter, decide_eq_true_eq] at hmem

omit [DecidableEq ν] in
/-- **The rule about the ancestors is enough** for files and entries of type `symlink`, if the host
tells the segments of their paths apart. -/
theorem noneBelowLink_of_types {nameOf : JsString → ν} {entries : List Entry}
    (hapart : Set.InjOn nameOf (listedSegments entries))
    (htypes : ∀ e ∈ entries, e.type = .str (js "file") ∨ e.type = .str (js "symlink")) :
    NoneBelowLink nameOf entries := by
  intro p e q e' hp hq hbelow
  obtain ⟨hmem, hpath⟩ := mem_of_expectedByPath hp.listed
  obtain ⟨hmem', hpath'⟩ := mem_of_expectedByPath hq.sendable.listed
  -- the segments of the link begin those of the path, as the names do
  obtain ⟨rest, hrest⟩ := hbelow
  obtain ⟨before, after, hsplit, hnames, -⟩ := List.append_eq_map_iff.1 hrest
  have hsegs : ∀ seg ∈ before, seg ∈ p.segments := fun seg hseg =>
    List.mem_of_mem_dropLast (hsplit ▸ List.mem_append_left _ hseg)
  have hbefore : before = q.segments := by
    refine List.ext_getElem (by simpa using congrArg List.length hnames) fun i hi hi' => ?_
    refine hapart ⟨e, hmem, p, hpath, hsegs _ (List.getElem_mem hi)⟩
      ⟨e', hmem', q, hpath', List.getElem_mem hi'⟩ ?_
    simpa [hi, hi'] using congrArg (fun names => names[i]?) hnames
  have hfilled : ∀ seg ∈ before, seg ≠ [] := by
    have hcanonical := hp.canonical
    unfold isCanonicalRelPath at hcanonical
    split_ifs at hcanonical
    intro seg hseg
    have hall := List.all_eq_true.1 hcanonical seg (hsegs seg hseg)
    simp only [decide_eq_true_eq] at hall
    exact hall.1
  have hjoin : JsString.joinSegments before = q := by
    rw [hbefore]
    exact List.intercalate_splitOn ..
  refine hp.above q ?_ ?_
  · have habove := join_mem_prefixes after
      (hbefore ▸ List.splitOn_ne_nil JsString.slash q) hfilled
    rwa [hjoin, ← hsplit] at habove
  · rw [← hpath']
    refine List.mem_map_of_mem (List.mem_filter.2 ⟨hmem', ?_⟩)
    simpa using (htypes e' hmem').resolve_left hq.noFile

/-! ### The extraction -/

/-- **Nothing that is sent leads out just when the manifest lets nothing be sent below a link.**  For
a host that reads segments in some way: no extraction of the manifest, on any volume, into any
directory, under any limits, goes outside, if and only if no path that can be sent lies below one
at which a link can be made.  Where all entries are files and `symlink`s and the host tells the
segments of their paths apart, none does. -/
theorem extractFrames_stays_inside_iff (nameOf : JsString → ν) (entries : List Entry) :
    ((∀ volume pathFits base limits t passes,
        StaysInside ⟨volume, nameOf, pathFits⟩ base entries limits t passes) ↔
      NoneBelowLink nameOf entries) ∧
    (Set.InjOn nameOf (listedSegments entries) →
      (∀ e ∈ entries, e.type = .str (js "file") ∨ e.type = .str (js "symlink")) →
        NoneBelowLink nameOf entries) := by
  refine ⟨⟨fun hinside p e q e' hp hq hbelow => ?_, fun hnone => ?_⟩, noneBelowLink_of_types⟩
  · obtain ⟨taken, htaken, hno⟩ := exists_taken hp hq hbelow
    exact hno ((staysInside_iff _ _ _ _ _ _).1 (hinside _ _ _ _ _ _) taken htaken)
  · intro volume pathFits base limits t passes
    refine (staysInside_iff _ _ _ _ _ _).2 ?_
    unfold framesTaken
    cases hmk : makeDest ⟨volume, nameOf, pathFits⟩ base t with
    | error e => exact fun _ htaken => absurd htaken List.not_mem_nil
    | ok t' =>
      have hdir : t'.isDir base = true :=
        FileTree.isDir_iff.2 (by rw [(makeDest_ok hmk).2, if_pos rfl])
      have hnothing : Linked entries ({ tree := t' } : State ν) := fun _ hq =>
        absurd hq List.not_mem_nil
      exact belowNoLink_of_noneBelowLink hnone hdir hnothing passes

/-- An entry of type `link`. -/
def linkEntry (p target : String) : Entry where
  path := .str (js p)
  type := .str (js "link")
  target := .str (js target)

/-- The frame of a `linkEntry`. -/
def linkFrame (p target : String) : Frame where
  path := .str (js p)
  type := .str (js "link")
  target := .str (js target)

/-- Two links of the type `link`, the second through the first, and a file below the second. -/
def chainEntries : List Entry :=
  [linkEntry "d1/d2/l1" "../..", linkEntry "l2" "d1/d2/l1/..",
    { path := .str (js "l2/file"), type := .str (js "file"), size := .num 1 }]

/-- The frames of `chainEntries`, in their order. -/
def chainFrames : List Pass :=
  [{ line := .line (some (linkFrame "d1/d2/l1" "../..")) },
    { line := .line (some (linkFrame "l2" "d1/d2/l1/..")) },
    { line := .line (some
        { path := .str (js "l2/file"), type := .str (js "file"), size := .num 1 })
      body := .bytes [0x78] },
    { line := .line (some { ending := .bool true, path := .undefined, type := .undefined }) }]

/-- **Links of another type than `symlink` lead the extraction out**: the file is written beside
the destination. -/
theorem extractFrames_chain_writes_outside :
    ¬ StaysInside plainHost [js "work", js "dest"] chainEntries {} (lonePath [js "work"])
      chainFrames := by
  intro h
  have hout : (extractFrames plainHost [js "work", js "dest"] chainEntries {}
      (lonePath [js "work"]) chainFrames).1.node [js "work", js "file"] =
        some (.file [0x78] false) := by
    decide +kernel
  rw [h.2 _ (by decide +kernel)] at hout
  cases hout


end Stream
end LaneBroker
