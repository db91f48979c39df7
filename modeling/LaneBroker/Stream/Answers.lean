/-
# Whether an extraction answers

`extractFrames` is to answer `{ok: true}` or `{ok: false, reason}` whatever the stream holds.
Of its calls on the file system two stand outside any `try` and can fail through what the stream
holds: the `mkdirSync` of a frame's directory, and what `verifyManifestNoGit` reads at the end
(the write and the `chmodSync` of a file just opened do not).  So it answers just when every
directory can be made when its frame is taken up, and the tree of a whole stream can be read
back.
-/

import LaneBroker.Stream.Inside
import Mathlib.Data.List.Nodup
import Mathlib.Data.List.Perm.Subperm

namespace LaneBroker
namespace Stream

open LaneBroker.Basis

/-! ### The manifest of the header -/

/-- **`header.manifest`**, its entries being an array. -/
structure HeaderManifest where
  /-- An entry that is `null` is `none`; any other has its fields, or none. -/
  entries : List (Option Entry)
  manifestHash : JsVal

/-- `comparePaths` takes the path: `Buffer.from` throws unless it is a string or some object. -/
def comparable : JsVal → Bool
  | .str _ | .obj => true
  | _ => false

/-- **What `validateHeaderFields` asks of the manifest.**  `manifestHashOf` sorts the entries,
comparing paths where there are two, and copies their fields; `hashOf` is the hash it takes of
the text of these. -/
def HeaderManifest.validate (hashOf : List Entry → JsString) (m : HeaderManifest) :
    Except JsString (List Entry) :=
  match m.entries.mapM id with
  | none => .error (js "manifest entries could not be hashed")
  | some entries =>
    if 2 ≤ entries.length ∧ ¬ entries.all fun e => comparable e.path then
      .error (js "manifest entries could not be hashed")
    else if m.manifestHash ≠ .str (hashOf entries) then
      .error (js "manifest hash does not match its own entries")
    else .ok entries

/-! ### What it is to answer -/

section Statement

variable {ν : Type} [DecidableEq ν] (host : Host ν) (base : List ν) (entries : List Entry)
  (limits : Limits)

/-- A path below the destination that no call takes stands nowhere in the tree: `walkDir` can
list, `lstat` and read all of it. -/
def ReadsBack (t : Tree ν) : Prop :=
  ∀ names, t.node (base ++ names) ≠ none → host.pathFits names = true

/-- **`verifyManifestNoGit` answers**: it sorts the entries, whose paths have to be strings, and
walks the tree. -/
structure Verifies (t : Tree ν) : Prop where
  sorts : ∀ e ∈ entries, ∃ p, e.path = .str p
  reads : ReadsBack host base t

/-- **An extraction that ended so has answered.** -/
def Answered (t : Tree ν) : Outcome → Prop
  | .refused _ => True
  | .threw _ => False
  | .verifies => Verifies host base entries t

/-- The extraction ended with a throw. -/
def Outcome.isThrow : Outcome → Bool
  | .threw _ => true
  | _ => false

/-- **`extractFrames` answers for every manifest the header checks let through**, into a
destination that can be made. -/
def AlwaysAnswers (hashOf : List Entry → JsString) (m : HeaderManifest) (t : Tree ν)
    (passes : List Pass) : Prop :=
  ∀ entries, m.validate hashOf = .ok entries → (∃ t', makeDest host base t = .ok t') →
    Answered host base entries (extractFrames host base entries limits t passes).1
      (extractFrames host base entries limits t passes).2

variable {host base entries} in
omit [DecidableEq ν] in
theorem Answered.not_throw {t : Tree ν} {o : Outcome} (h : Answered host base entries t o) :
    o.isThrow = false := by
  cases o with
  | refused reason => rfl
  | threw e => exact h.elim
  | verifies => rfl

/-! ### When it answers -/

/-- The turns of the loop, each with the state before it. -/
def turns (s : State ν) : List Pass → List (State ν × Pass)
  | [] => []
  | pass :: rest =>
    (s, pass) :: match step host base entries limits s pass with
    | (_, some _) => []
    | (s', none) => turns s' rest

/-- The pass is the terminator of a whole stream: every entry has come, nothing follows, and no
blob was missing or corrupt. -/
def EndsWhole (s : State ν) (pass : Pass) : Prop :=
  (∃ frame, pass.line = .line (some frame) ∧ frame.ending.isTrue = true) ∧
    s.seen.length = entries.length ∧ pass.after = .nothing ∧ s.corrupt = [] ∧ s.missing = []

/-- **A turn can be answered**, as the tree stands before it: the directory of a frame taken up
opens, by a path that is not too long, and at the end of a whole stream the tree reads back. -/
structure Answerable (turn : State ν × Pass) : Prop where
  opens : ∀ frame entry, acceptedFrame entries limits turn.1 turn.2 = some (frame, entry) →
    host.pathFits (host.dirsOf frame.pathText) = true ∧
      turn.1.tree.Opens host.volume host.volume.links base (host.dirsOf frame.pathText)
  reads : EndsWhole entries turn.1 turn.2 → ReadsBack host base turn.1.tree

/-- The turns of an extraction. -/
def extractionTurns (t : Tree ν) (passes : List Pass) : List (State ν × Pass) :=
  match makeDest host base t with
  | .error _ => []
  | .ok t' => turns host base entries limits { tree := t' } passes

end Statement

/-! ### The calls outside a `try` -/

section Calls

variable {ν : Type} [DecidableEq ν] {host : Host ν} {t t' : Tree ν} {base loc : List ν}
  {p : JsString}

/-- Something new is put in the directory that the path of the directory leads to. -/
theorem createAt_ok {x : Node ν Body} (h : host.createAt t base p x = .ok (t', loc)) :
    host.pathFits (host.namesOf p) = true ∧ ∃ left d n,
      t.walk host.volume.links base ((host.dirsOf p).map .down) = .ok (left, d) ∧
        host.namesOf p = host.dirsOf p ++ [n] ∧ loc = d ++ [n] ∧
        t.create host.volume d n x = .ok t' := by
  unfold Host.createAt at h
  split_ifs at h with hfits
  refine ⟨by simpa using hfits, ?_⟩
  split at h
  · cases h
  · rename_i left d hwalk
    split at h
    · cases h
    · rename_i seg hseg
      split at h
      · cases h
      · rename_i u hc
        obtain ⟨rfl, rfl⟩ := Prod.mk.inj (Except.ok.inj h)
        exact ⟨left, d, _, hwalk, namesOf_eq_of_getLast hseg, rfl, hc⟩

/-- **A file just opened is found again by its path**, wherever that leads, so its mode can be
changed. -/
theorem exists_chmodSync {u : Tree ν} {x : Node ν Body} {body : Body} {mode : Bool} (exec : Bool)
    (h : host.createAt t base p x = .ok (t', loc)) (hu : FileTree.Extends t u)
    (hfile : u.node loc = some (.file body mode)) :
    ∃ w, host.chmodSync u base p exec = .ok w := by
  obtain ⟨hfits, left, d, n, hwalk, hnames, rfl, hc⟩ := createAt_ok h
  have hd : u.isDir d = true := by
    apply hu.isDir
    unfold FileTree.create at hc
    split_ifs at hc
    assumption
  have hfound : u.walk host.volume.links base ((host.namesOf p).map .down) =
      .ok (left, d ++ [n]) := by
    rw [hnames, List.map_append, FileTree.walk_append, hu.walk hwalk]
    change u.walk left d [.down n] = _
    rw [FileTree.walk_cons_down hd, hfile]
    exact FileTree.walk_nil u left (d ++ [n])
  unfold Host.chmodSync
  rw [if_neg (by simp [hfits]), hfound]
  exact FileTree.exists_amend _ hfile

/-- **Nothing goes wrong after the open**, and the file is added to the tree. -/
theorem writeNew_ok {bytes : Body} {exec : Bool} {r : Except FsError Unit}
    (h : host.writeNew t base p bytes exec = .ok (t', r)) :
    r = .ok () ∧ ∀ d, t.isDir d = true → t'.isDir d = true := by
  unfold Host.writeNew at h
  split at h
  · cases h
  · rename_i opened at' hopen
    obtain ⟨-, -, d, n, -, -, rfl, hc⟩ := createAt_ok hopen
    obtain ⟨hnone, hnode⟩ := FileTree.create_ok hc
    have hext : FileTree.Extends t opened := FileTree.extends_create hc
    have hfile : opened.node (d ++ [n]) = some (.file [] false) := by rw [hnode, if_pos rfl]
    obtain ⟨written, hwrite⟩ := FileTree.exists_amend (fun _ mode => (bytes, mode)) hfile
    obtain ⟨body, mode, hthen⟩ := FileTree.amend_ok hwrite
    have hext' : FileTree.Extends t written := by
      intro q hq
      have hne : q ≠ d ++ [n] := by
        rintro rfl
        exact hq hnone
      rw [hthen, if_neg hne, hnode, if_neg hne]
    have hfile' : written.node (d ++ [n]) = some (.file body mode) := by rw [hthen, if_pos rfl]
    obtain ⟨changed, hchmod⟩ := exists_chmodSync exec hopen hext' hfile'
    simp only [hwrite, hchmod] at h
    obtain ⟨rfl, rfl⟩ := Prod.mk.inj (Except.ok.inj h)
    refine ⟨rfl, fun q hq => ?_⟩
    unfold Host.chmodSync at hchmod
    split_ifs at hchmod
    split at hchmod
    · cases hchmod
    · exact FileTree.isDir_amend hchmod (hext'.isDir hq)

theorem symlinkSync_isDir {target : JsString} (h : host.symlinkSync t base target p = .ok t') :
    ∀ d, t.isDir d = true → t'.isDir d = true := by
  intro d hd
  unfold Host.symlinkSync at h
  split_ifs at h
  split at h
  · cases h
  · rename_i hc
    obtain rfl := Except.ok.inj h
    obtain ⟨-, -, _, _, -, -, -, hcreate⟩ := createAt_ok hc
    exact (FileTree.extends_create hcreate).isDir hd

theorem mkdirSync_isDir {d : List ν} (hd : t.isDir d = true) :
    (host.mkdirSync t base p).1.isDir d = true := by
  unfold Host.mkdirSync
  split_ifs
  · exact hd
  · exact (FileTree.extends_mkdirs _ _ _ _ _).isDir hd

/-- **The directory of a frame is made just where its path opens.** -/
theorem mkdirSync_ok_iff (hbase : t.isDir base = true) :
    (host.mkdirSync t base p).2 = .ok () ↔ host.pathFits (host.dirsOf p) = true ∧
      t.Opens host.volume host.volume.links base (host.dirsOf p) := by
  unfold Host.mkdirSync
  split_ifs with hlong
  · exact iff_of_false nofun fun h => by simp [h.1] at hlong
  · rw [FileTree.mkdirs_ok_iff _ hbase]
    simp only [Bool.not_eq_true', Bool.not_eq_false] at hlong
    simp [hlong]

end Calls

/-! ### One turn -/

section Turns

variable {ν : Type} [DecidableEq ν] {host : Host ν} {base : List ν} {entries : List Entry}
  {limits : Limits} {s : State ν} {frame : Frame} {entry : Entry} {pass : Pass}

/-- A turn refuses, or it goes on with these paths seen and the destination still there. -/
def RefusesOrKeeps (base : List ν) (seen : List JsString) (r : State ν × Option Outcome) : Prop :=
  (∃ reason, r.2 = some (.refused reason)) ∨
    (r.2 = none ∧ r.1.seen = seen ∧ r.1.tree.isDir base = true)

theorem extractCached_keeps (hbase : s.tree.isDir base = true) :
    RefusesOrKeeps base s.seen (extractCached host base s frame entry pass) := by
  unfold extractCached
  dsimp only
  split
  · exact .inr ⟨rfl, rfl, hbase⟩
  · exact .inr ⟨rfl, rfl, hbase⟩
  · split
    · exact .inl ⟨_, rfl⟩
    · exact .inl ⟨_, rfl⟩
    · rename_i hwrite
      exact .inr ⟨rfl, rfl, (writeNew_ok hwrite).2 base hbase⟩

theorem extractBody_keeps (hbase : s.tree.isDir base = true) :
    RefusesOrKeeps base s.seen (extractBody host base limits s frame pass) := by
  unfold extractBody
  dsimp only
  split
  · exact .inl ⟨_, rfl⟩
  · exact .inl ⟨_, rfl⟩
  · split
    · exact .inl ⟨_, rfl⟩
    · rename_i hwrite
      exact absurd (writeNew_ok hwrite).1 nofun
    · rename_i hwrite
      exact .inr ⟨rfl, rfl, (writeNew_ok hwrite).2 base hbase⟩

theorem extractLink_keeps (hbase : s.tree.isDir base = true) :
    RefusesOrKeeps base s.seen (extractLink host base entries s frame) := by
  unfold extractLink
  dsimp only
  split
  · exact .inl ⟨_, rfl⟩
  · split
    · exact .inl ⟨_, rfl⟩
    · rename_i hlink
      exact .inr ⟨rfl, rfl, symlinkSync_isDir hlink base hbase⟩

/-- **A frame throws just where its directory cannot be made**; else it is refused or the loop
goes on. -/
theorem extractFrame_keeps (entries : List Entry) (limits : Limits) (entry : Entry) (pass : Pass)
    (hbase : s.tree.isDir base = true) :
    ((host.mkdirSync s.tree base frame.pathText).2 = .ok () ∧
        RefusesOrKeeps base (s.seen ++ [frame.pathText])
          (extractFrame host base entries limits s frame entry pass)) ∨
      ((host.mkdirSync s.tree base frame.pathText).2 ≠ .ok () ∧
        ∃ e, (extractFrame host base entries limits s frame entry pass).2 = some (.threw e)) := by
  have hmade : (host.mkdirSync s.tree base frame.pathText).1.isDir base = true :=
    mkdirSync_isDir hbase
  unfold extractFrame
  dsimp only
  generalize host.mkdirSync s.tree base frame.pathText = made at hmade ⊢
  obtain ⟨t, r⟩ := made
  cases r with
  | error e => exact .inr ⟨nofun, e, rfl⟩
  | ok u =>
    refine .inl ⟨rfl, ?_⟩
    dsimp only
    split_ifs
    · exact extractCached_keeps hmade
    · exact extractBody_keeps hmade
    · exact extractLink_keeps hmade

/-- What the loop knows of the paths seen: they are paths of entries, each seen once. -/
structure Listed (entries : List Entry) (s : State ν) : Prop where
  nodup : s.seen.Nodup
  listed : ∀ p ∈ s.seen, .str p ∈ entries.map Entry.path

omit [DecidableEq ν] in
/-- **When as many paths are seen as there are entries, each entry has a path.** -/
theorem Listed.sorts (h : Listed entries s) (hlen : s.seen.length = entries.length) :
    ∀ e ∈ entries, ∃ p, e.path = .str p := by
  have hnodup : (s.seen.map JsVal.str).Nodup := h.nodup.map fun _ _ he => JsVal.str.inj he
  have hsub : s.seen.map JsVal.str ⊆ entries.map Entry.path := by
    intro v hv
    obtain ⟨p, hp, rfl⟩ := List.mem_map.1 hv
    exact h.listed p hp
  have hperm : (s.seen.map JsVal.str).Perm (entries.map Entry.path) :=
    (hnodup.subperm hsub).perm_of_length_le (by simp [hlen])
  intro e he
  obtain ⟨p, -, hp⟩ := List.mem_map.1 (hperm.mem_iff.2 (List.mem_map_of_mem he))
  exact ⟨p, hp.symm⟩

omit [DecidableEq ν] in
/-- A frame that passes has a path listed and not seen before. -/
theorem Listed.seen {s' : State ν} (h : Listed entries s)
    (hfresh : frame.pathText ∉ s.seen) (hentry : expectedByPath entries frame.pathText = some entry)
    (hseen : s'.seen = s.seen ++ [frame.pathText]) : Listed entries s' := by
  refine ⟨?_, fun p hp => ?_⟩
  · rw [hseen]
    exact List.concat_eq_append ▸ h.nodup.concat hfresh
  · rw [hseen, List.mem_append, List.mem_singleton] at hp
    rcases hp with hp | rfl
    · exact h.listed p hp
    · have hmem := List.mem_of_getLast? hentry
      rw [List.mem_filter, decide_eq_true_eq] at hmem
      rw [← hmem.2]
      exact List.mem_map_of_mem hmem.1

theorem validateFrame_fresh {seen : List JsString} {remaining : Option Int}
    (h : validateFrame entries limits seen remaining frame = .ok ()) :
    frame.pathText ∉ seen := by
  unfold validateFrame at h
  split at h
  · rename_i p hp
    have htext : frame.pathText = p := by simp [Frame.pathText, hp]
    rw [htext]
    intro hmem
    cases hentry : expectedByPath entries p with
    | none =>
      simp only [hentry] at h
      split_ifs at h
    | some entry =>
      simp only [hentry, hmem, if_true] at h
      split_ifs at h
  · cases h

omit [DecidableEq ν] in
theorem acceptedFrame_fresh
    (h : acceptedFrame entries limits s pass = some (frame, entry)) : frame.pathText ∉ s.seen := by
  unfold acceptedFrame at h
  split at h
  · split_ifs at h
    split at h
    · cases h
    · rename_i hval
      obtain ⟨e, -, he⟩ := Option.map_eq_some_iff.1 h
      obtain ⟨rfl, -⟩ := Prod.mk.inj he
      exact validateFrame_fresh hval
  · cases h

omit [DecidableEq ν] in
/-- The terminator is answered by a refusal, or by what is read back of a whole stream. -/
theorem finish_answered_iff (h : Listed entries s)
    (hend : pass.line = .line (some frame) ∧ frame.ending.isTrue = true) :
    Answered host base entries s.tree (finish entries s pass) ↔
      (EndsWhole entries s pass → ReadsBack host base s.tree) := by
  unfold finish
  by_cases hlen : s.seen.length = entries.length
  · rw [if_neg (not_not.2 hlen)]
    split
    · rename_i hafter
      exact iff_of_true trivial fun hw => absurd (hafter.symm.trans hw.2.2.1) nofun
    · rename_i hafter
      exact iff_of_true trivial fun hw => absurd (hafter.symm.trans hw.2.2.1) nofun
    · rename_i hafter
      by_cases hcorrupt : s.corrupt = []
      · rw [if_neg (not_not.2 hcorrupt)]
        by_cases hmissing : s.missing = []
        · rw [if_neg (not_not.2 hmissing)]
          exact ⟨fun hv _ => hv.reads, fun hr =>
            ⟨h.sorts hlen, hr ⟨⟨frame, hend⟩, hlen, hafter, hcorrupt, hmissing⟩⟩⟩
        · rw [if_pos hmissing]
          exact iff_of_true trivial fun hw => absurd hw.2.2.2.2 hmissing
      · rw [if_pos hcorrupt]
        exact iff_of_true trivial fun hw => absurd hw.2.2.2.1 hcorrupt
  · rw [if_pos hlen]
    exact iff_of_true trivial fun hw => absurd hw.2.1 hlen

/-- **The step lemma.**  A turn that ends the loop has answered just where it could be answered,
and a turn that goes on could be. -/
theorem step_answers (hbase : s.tree.isDir base = true) (h : Listed entries s)
    {r : State ν × Option Outcome} (hr : step host base entries limits s pass = r) :
    (∀ o, r.2 = some o →
        (Answered host base entries r.1.tree o ↔ Answerable host base entries limits (s, pass))) ∧
      (r.2 = none → Answerable host base entries limits (s, pass) ∧
        r.1.tree.isDir base = true ∧ Listed entries r.1) := by
  cases hacc : acceptedFrame entries limits s pass with
  | some fe =>
    obtain ⟨frame, entry⟩ := fe
    obtain ⟨hstep, hentry, -⟩ := step_of_accepted host base hacc
    have hreads : ¬ EndsWhole entries s pass := by
      rintro ⟨⟨f, hline, hend⟩, -⟩
      simp [acceptedFrame, hline, hend] at hacc
    have hiff : Answerable host base entries limits (s, pass) ↔
        (host.mkdirSync s.tree base frame.pathText).2 = .ok () := by
      rw [mkdirSync_ok_iff hbase]
      constructor
      · exact fun ha => ha.opens frame entry hacc
      · refine fun ho => ⟨fun f e hfe => ?_, fun hw => absurd hw hreads⟩
        obtain ⟨rfl, rfl⟩ := Prod.mk.inj (Option.some.inj (hacc.symm.trans hfe))
        exact ho
    rw [hiff, ← hr, hstep]
    rcases extractFrame_keeps entries limits entry pass hbase with
      ⟨hok, ⟨reason, hrefused⟩ | ⟨hgo, hseen, hdir⟩⟩ | ⟨hfails, e, hthrew⟩
    · refine ⟨fun o ho => ?_, fun hnone => absurd (hrefused.symm.trans hnone) nofun⟩
      obtain rfl := Option.some.inj (hrefused.symm.trans ho)
      exact iff_of_true trivial hok
    · exact ⟨fun o ho => absurd (hgo.symm.trans ho) nofun,
        fun _ => ⟨hok, hdir, h.seen (acceptedFrame_fresh hacc) hentry hseen⟩⟩
    · refine ⟨fun o ho => ?_, fun hnone => absurd (hthrew.symm.trans hnone) nofun⟩
      obtain rfl := Option.some.inj (hthrew.symm.trans ho)
      exact iff_of_false id hfails
  | none =>
    have hiff : Answerable host base entries limits (s, pass) ↔
        (EndsWhole entries s pass → ReadsBack host base s.tree) :=
      ⟨fun ha => ha.reads, fun hreads =>
        ⟨fun f e hfe => absurd (hacc.symm.trans hfe) nofun, hreads⟩⟩
    rw [hiff]
    obtain ⟨o, hstep, ho⟩ := step_of_not_accepted host base hacc
    rw [← hr, hstep]
    refine ⟨fun o' ho' => ?_, nofun⟩
    obtain rfl := Option.some.inj ho'
    rcases ho with ⟨reason, rfl⟩ | ⟨frame, hline, hend, rfl⟩
    · refine iff_of_true trivial fun hw => ?_
      obtain ⟨⟨frame, hline, hend⟩, hlen, hafter, hcorrupt, hmissing⟩ := hw
      simp [step, hline, hend, finish, hlen, hafter, hcorrupt, hmissing] at hstep
    · exact finish_answered_iff h ⟨hline, hend⟩

/-- **The run lemma.**  The loop has answered just where each of its turns could be answered. -/
theorem loop_answered_iff (hbase : s.tree.isDir base = true) (h : Listed entries s)
    (passes : List Pass) :
    Answered host base entries (loop host base entries limits s passes).1.tree
        (loop host base entries limits s passes).2 ↔
      ∀ turn ∈ turns host base entries limits s passes,
        Answerable host base entries limits turn := by
  induction passes generalizing s with
  | nil => simp [turns, loop, Answered]
  | cons pass rest ih =>
    generalize hr : step host base entries limits s pass = r
    obtain ⟨hends, hgoes⟩ := step_answers hbase h hr
    obtain ⟨s', o⟩ := r
    unfold loop turns
    rw [hr]
    cases o with
    | some o => simpa using hends o rfl
    | none =>
      obtain ⟨hans, hbase', h'⟩ := hgoes rfl
      dsimp only
      rw [List.forall_mem_cons, ih hbase' h']
      exact ⟨fun ht => ⟨hans, ht⟩, fun ht => ht.2⟩

end Turns

/-! ### The extraction -/

section Extraction

variable {ν : Type} [DecidableEq ν]

/-- **`extractFrames` answers just when each of its turns can be answered**: every frame it takes
up finds its directory there or can make it, and what a whole stream has left can be read
back. -/
theorem extractFrames_answers_iff (host : Host ν) (base : List ν) (limits : Limits)
    (hashOf : List Entry → JsString) (m : HeaderManifest) (t : Tree ν) (passes : List Pass) :
    AlwaysAnswers host base limits hashOf m t passes ↔
      ∀ entries, m.validate hashOf = .ok entries →
        ∀ turn ∈ extractionTurns host base entries limits t passes,
          Answerable host base entries limits turn := by
  unfold AlwaysAnswers extractionTurns extractFrames
  refine forall_congr' fun entries => imp_congr_right fun _ => ?_
  cases hmk : makeDest host base t with
  | error e =>
    constructor
    · exact fun _ turn hturn => absurd hturn List.not_mem_nil
    · rintro - ⟨t', ht'⟩
      cases ht'
  | ok t' =>
    have hbuilt : Built host base entries t { tree := t' } := built_makeDest hmk
    have hlisted : Listed entries ({ tree := t' } : State ν) := ⟨List.nodup_nil, nofun⟩
    have hiff := @loop_answered_iff ν _ host base entries limits { tree := t' }
      (FileTree.isDir_iff.2 hbuilt.dest) hlisted passes
    exact ⟨fun ha => hiff.1 (ha ⟨t', rfl⟩), fun ha _ => hiff.2 ha⟩

/-- An entry of a file of one byte. -/
def byteEntry (p : String) : Entry where
  path := .str (js p)
  type := .str (js "file")
  size := .num 1

/-- The frame of a `byteEntry`, and its body. -/
def bytePass (p : String) : Pass where
  line := .line (some { path := .str (js p), type := .str (js "file"), size := .num 1 })
  body := .bytes [0x78]

/-- A manifest of the file `a` and the file `a/b`. -/
def nestedManifest (hashOf : List Entry → JsString) : HeaderManifest where
  entries := [some (byteEntry "a"), some (byteEntry "a/b")]
  manifestHash := .str (hashOf [byteEntry "a", byteEntry "a/b"])

/-- **A file below a file makes the extraction throw**: the directory of `a/b` is the file `a`. -/
theorem extractFrames_throws_below_a_file :
    ¬ AlwaysAnswers plainHost [js "work", js "dest"] {} (fun _ => js "0")
      (nestedManifest fun _ => js "0") (lonePath [js "work"]) [bytePass "a", bytePass "a/b"] := by
  intro h
  have hfile : (extractFrames plainHost [js "work", js "dest"] [byteEntry "a", byteEntry "a/b"] {}
      (lonePath [js "work"]) [bytePass "a", bytePass "a/b"]).2.isThrow = true := by
    decide +kernel
  have hans := h [byteEntry "a", byteEntry "a/b"] rfl ⟨_, rfl⟩
  rw [Answered.not_throw hans] at hfile
  cases hfile

end Extraction

end Stream
end LaneBroker
