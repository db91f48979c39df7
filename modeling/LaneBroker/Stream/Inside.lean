/-
# What an extraction can reach

An extraction stays in its directory as long as no frame it takes up lies below a link it has
made.  The checks are to see to that, but they know a link by the `symlink` type of its entry
and by the string of its path, and the loop makes one for every entry that is no file, at the
names the host reads in the path.  `Built` is the invariant of the loop until then: the links
in the tree are those of the frames seen so far, and nothing outside has changed.
-/

import LaneBroker.Stream.Extract

namespace LaneBroker
namespace Stream

open LaneBroker.Basis

/-- A frame of this path makes a link: its entry is no file. -/
def linksAt (entries : List Entry) (p : JsString) : Bool :=
  (expectedByPath entries p).any fun e => e.type ≠ .str (js "file")

variable {ν : Type} [DecidableEq ν]

/-! ### What one file operation does, on a path without links -/

/-- Something new stands at a location, and nothing else is changed. -/
def Puts (t t' : Tree ν) (loc : List ν) (x : Node ν Body) : Prop :=
  t.node loc = none ∧ ∀ q, t'.node q = if q = loc then some x else t.node q

section Files

variable {host : Host ν} {t t' : Tree ν} {base loc : List ν} {p : JsString}

omit [DecidableEq ν] in
theorem namesOf_eq_of_getLast {seg : JsString} (h : p.segments.getLast? = some seg) :
    host.namesOf p = host.dirsOf p ++ [host.nameOf seg] := by
  have hne : p.segments ≠ [] := by
    intro hnil
    simp [hnil] at h
  rw [List.getLast?_eq_some_getLast hne] at h
  rw [Host.namesOf, Host.dirsOf, ← Option.some.inj h]
  conv_lhs => rw [← List.dropLast_append_getLast hne]
  simp

omit [DecidableEq ν] in
theorem namesOf_eq (host : Host ν) (p : JsString) :
    ∃ n, host.namesOf p = host.dirsOf p ++ [n] := by
  have hne : p.segments ≠ [] := List.splitOn_ne_nil _ _
  exact ⟨_, namesOf_eq_of_getLast (List.getLast?_eq_some_getLast hne)⟩

/-- On a path without links the directories are made on the path, also where a call fails. -/
theorem mkdirSync_widens (hplain : ¬ t.Crosses base (host.dirsOf p)) :
    FileTree.Widens t (host.mkdirSync t base p).1 base (host.dirsOf p) := by
  unfold Host.mkdirSync
  split_ifs
  · exact FileTree.Widens.refl t base _
  · exact FileTree.mkdirs_widens _ _ hplain

theorem mkdirSync_ok (hdir : t.node base = some .dir)
    (hplain : ¬ t.Crosses base (host.dirsOf p)) (h : (host.mkdirSync t base p).2 = .ok ()) :
    ∀ q, q <+: host.dirsOf p → (host.mkdirSync t base p).1.node (base ++ q) = some .dir := by
  unfold Host.mkdirSync at h ⊢
  split_ifs at h ⊢
  exact FileTree.mkdirs_ok _ _ hdir hplain h

theorem createAt_puts {x : Node ν Body}
    (hdirs : ∀ q, q <+: host.dirsOf p → t.node (base ++ q) = some .dir)
    (h : host.createAt t base p x = .ok (t', loc)) :
    loc = base ++ host.namesOf p ∧ Puts t t' loc x := by
  unfold Host.createAt at h
  rw [FileTree.walk_down hdirs] at h
  split_ifs at h
  dsimp only at h
  split at h
  · cases h
  · rename_i seg hseg
    split at h
    · cases h
    · rename_i u hc
      obtain ⟨hnone, hu⟩ := FileTree.create_ok hc
      obtain ⟨rfl, rfl⟩ := Prod.mk.inj (Except.ok.inj h)
      refine ⟨by rw [namesOf_eq_of_getLast hseg, List.append_assoc], hnone, hu⟩

theorem symlinkSync_puts {target : JsString}
    (hdirs : ∀ q, q <+: host.dirsOf p → t.node (base ++ q) = some .dir)
    (h : host.symlinkSync t base target p = .ok t') :
    Puts t t' (base ++ host.namesOf p) (.link (host.targetOf target)) := by
  unfold Host.symlinkSync at h
  split_ifs at h
  split at h
  · cases h
  · rename_i u loc hc
    obtain ⟨rfl, hputs⟩ := createAt_puts hdirs hc
    obtain rfl := Except.ok.inj h
    exact hputs

/-- A file put somewhere and amended there is still a file put there. -/
theorem Puts.amend {u : Tree ν} {x : Node ν Body} {f : Body → Bool → Body × Bool}
    (h : Puts t u loc x) (hu : u.amend loc f = .ok t') :
    ∃ body exec, Puts t t' loc (.file body exec) := by
  obtain ⟨body, exec, hnode⟩ := FileTree.amend_ok hu
  refine ⟨body, exec, h.1, fun q => ?_⟩
  rw [hnode q, h.2 q]
  split_ifs <;> rfl

/-- `chmodSync` walks the whole path of a file just put there, and finds that file. -/
theorem chmodSync_puts {u : Tree ν} {body : Body} {mode exec : Bool}
    (hdirs : ∀ q, q <+: host.dirsOf p → t.node (base ++ q) = some .dir)
    (hputs : Puts t u (base ++ host.namesOf p) (.file body mode))
    (h : host.chmodSync u base p exec = .ok t') :
    ∃ body mode, Puts t t' (base ++ host.namesOf p) (.file body mode) := by
  obtain ⟨n, hn⟩ := namesOf_eq host p
  have hloc : base ++ host.namesOf p = base ++ host.dirsOf p ++ [n] := by
    rw [hn, List.append_assoc]
  have hfile : u.node (base ++ host.dirsOf p ++ [n]) = some (.file body mode) := by
    rw [hputs.2, hloc, if_pos rfl]
  have hdirs' : ∀ q, q <+: host.dirsOf p → u.node (base ++ q) = some .dir := by
    intro q hq
    rw [hputs.2, if_neg, hdirs q hq]
    intro he
    have hnone := hputs.1
    rw [← he, hdirs q hq] at hnone
    cases hnone
  have hlink : u.isLink (base ++ host.dirsOf p ++ [n]) = false := by
    unfold FileTree.isLink
    rw [hfile]
  unfold Host.chmodSync at h
  split_ifs at h
  rw [hn, FileTree.walk_last hdirs' (by rw [hfile]; simp) hlink, ← hloc] at h
  exact hputs.amend h

theorem writeNew_puts {bytes : Body} {exec : Bool} {r : Except FsError Unit}
    (hdirs : ∀ q, q <+: host.dirsOf p → t.node (base ++ q) = some .dir)
    (h : host.writeNew t base p bytes exec = .ok (t', r)) :
    ∃ body mode, Puts t t' (base ++ host.namesOf p) (.file body mode) := by
  unfold Host.writeNew at h
  split at h
  · cases h
  · rename_i opened loc hopen
    obtain ⟨rfl, hopened⟩ := createAt_puts hdirs hopen
    split at h
    · obtain ⟨rfl, -⟩ := Prod.mk.inj (Except.ok.inj h)
      exact ⟨[], false, hopened⟩
    · rename_i written hwrite
      obtain ⟨body, mode, hwritten⟩ := hopened.amend hwrite
      split at h
      · obtain ⟨rfl, -⟩ := Prod.mk.inj (Except.ok.inj h)
        exact ⟨body, mode, hwritten⟩
      · rename_i changed hchmod
        obtain ⟨rfl, -⟩ := Prod.mk.inj (Except.ok.inj h)
        exact chmodSync_puts hdirs hwritten hchmod

end Files

/-! ### What one frame does -/

section Frames

variable {host : Host ν} {base : List ν} {entries : List Entry} {limits : Limits} {s : State ν}
  {frame : Frame} {entry : Entry} {pass : Pass}

/-- **What a frame leaves of a tree in which its directory is made**: nothing new (as a file it
may be missing from the blob store, or the extraction ends), a file or a link. -/
def Leaves (host : Host ν) (base : List ν) (frame : Frame) (t : Tree ν)
    (r : State ν × Option Outcome) : Prop :=
  (r.1.tree = t ∧ (r.2 = none → frame.type = .str (js "file"))) ∨
    (frame.type = .str (js "file") ∧
      ∃ body exec, Puts t r.1.tree (base ++ host.namesOf frame.pathText) (.file body exec)) ∨
    (frame.type ≠ .str (js "file") ∧
      ∃ target, Puts t r.1.tree (base ++ host.namesOf frame.pathText) (.link target))

theorem extractCached_leaves
    (hdirs : ∀ q, q <+: host.dirsOf frame.pathText → s.tree.node (base ++ q) = some .dir)
    (hfile : frame.type = .str (js "file")) :
    (extractCached host base s frame entry pass).1.seen = s.seen ∧
      Leaves host base frame s.tree (extractCached host base s frame entry pass) := by
  unfold extractCached
  dsimp only
  split
  · exact ⟨rfl, .inl ⟨rfl, fun _ => hfile⟩⟩
  · exact ⟨rfl, .inl ⟨rfl, fun _ => hfile⟩⟩
  · split
    · exact ⟨rfl, .inl ⟨rfl, fun _ => hfile⟩⟩
    · rename_i t e hw
      exact ⟨rfl, .inr (.inl ⟨hfile, writeNew_puts hdirs hw⟩)⟩
    · rename_i t hw
      exact ⟨rfl, .inr (.inl ⟨hfile, writeNew_puts hdirs hw⟩)⟩

theorem extractBody_leaves
    (hdirs : ∀ q, q <+: host.dirsOf frame.pathText → s.tree.node (base ++ q) = some .dir)
    (hfile : frame.type = .str (js "file")) :
    (extractBody host base limits s frame pass).1.seen = s.seen ∧
      Leaves host base frame s.tree (extractBody host base limits s frame pass) := by
  unfold extractBody
  dsimp only
  split
  · exact ⟨rfl, .inl ⟨rfl, fun _ => hfile⟩⟩
  · exact ⟨rfl, .inl ⟨rfl, fun _ => hfile⟩⟩
  · split
    · exact ⟨rfl, .inl ⟨rfl, fun _ => hfile⟩⟩
    · rename_i t e hw
      exact ⟨rfl, .inr (.inl ⟨hfile, writeNew_puts hdirs hw⟩)⟩
    · rename_i t hw
      exact ⟨rfl, .inr (.inl ⟨hfile, writeNew_puts hdirs hw⟩)⟩

theorem extractLink_leaves
    (hdirs : ∀ q, q <+: host.dirsOf frame.pathText → s.tree.node (base ++ q) = some .dir)
    (hlink : frame.type ≠ .str (js "file")) :
    (extractLink host base entries s frame).1.seen = s.seen ∧
      Leaves host base frame s.tree (extractLink host base entries s frame) := by
  unfold extractLink
  dsimp only
  split
  · exact ⟨rfl, .inl ⟨rfl, nofun⟩⟩
  · split
    · exact ⟨rfl, .inl ⟨rfl, nofun⟩⟩
    · rename_i t hw
      exact ⟨rfl, .inr (.inr ⟨hlink, _, symlinkSync_puts hdirs hw⟩)⟩

/-- The tree after the frame's directory is made. -/
abbrev withDirs (host : Host ν) (base : List ν) (s : State ν) (frame : Frame) : Tree ν :=
  (host.mkdirSync s.tree base frame.pathText).1

/-- **A frame on whose path no link stands** leaves one thing at its path, or nothing. -/
theorem extractFrame_leaves (entries : List Entry) (limits : Limits) (entry : Entry) (pass : Pass)
    (hdest : s.tree.node base = some .dir)
    (hplain : ¬ s.tree.Crosses base (host.dirsOf frame.pathText)) :
    (extractFrame host base entries limits s frame entry pass).1.seen =
        s.seen ++ [frame.pathText] ∧
      Leaves host base frame (withDirs host base s frame)
        (extractFrame host base entries limits s frame entry pass) := by
  have hok := mkdirSync_ok hdest hplain
  unfold extractFrame withDirs
  dsimp only
  generalize hmk : host.mkdirSync s.tree base frame.pathText = made at hok ⊢
  obtain ⟨t, r⟩ := made
  cases r with
  | error e => exact ⟨rfl, .inl ⟨rfl, nofun⟩⟩
  | ok u =>
    dsimp only
    have hdirs := hok rfl
    split_ifs with hcached hfile
    · exact extractCached_leaves hdirs hcached.1
    · exact extractBody_leaves hdirs hfile
    · exact extractLink_leaves hdirs hfile

theorem validateFrame_ok {seen : List JsString} {remaining : Option Int}
    (h : validateFrame entries limits seen remaining frame = .ok ()) :
    ∃ entry, expectedByPath entries frame.pathText = some entry ∧ frame.type = entry.type := by
  unfold validateFrame at h
  split at h
  · rename_i p hp
    have htext : frame.pathText = p := by simp [Frame.pathText, hp]
    rw [htext]
    cases hentry : expectedByPath entries p with
    | none =>
      simp only [hentry] at h
      split_ifs at h
    | some entry =>
      simp only [hentry] at h
      refine ⟨entry, rfl, ?_⟩
      split_ifs at h with _ _ _ _ htype
      all_goals
        have := JsVal.strictEq_eq_true.1 (by simpa using htype)
        exact this.2
  · cases h

/-- A pass whose frame is taken up: the loop extracts it. -/
theorem step_of_accepted (host : Host ν) (base : List ν)
    (h : acceptedFrame entries limits s pass = some (frame, entry)) :
    step host base entries limits s pass =
        extractFrame host base entries limits s frame entry pass ∧
      expectedByPath entries frame.pathText = some entry ∧ frame.type = entry.type := by
  unfold acceptedFrame at h
  split at h
  · rename_i f hline
    split_ifs at h with hend
    split at h
    · cases h
    · rename_i hval
      obtain ⟨entry', hentry, htype⟩ := validateFrame_ok hval
      rw [hentry] at h
      obtain ⟨rfl, rfl⟩ := Prod.mk.inj (Option.some.inj h)
      refine ⟨?_, hentry, htype⟩
      unfold step
      rw [hline]
      dsimp only
      rw [if_neg hend, hval]
      dsimp only
      rw [hentry]
  · cases h

/-- The frame is one of those taken up. -/
theorem mem_accepted (host : Host ν) (base : List ν) (passes : List Pass)
    (h : acceptedFrame entries limits s pass = some (frame, entry)) :
    (s, frame.pathText) ∈ accepted host base entries limits s (pass :: passes) := by
  unfold accepted
  simp only [h]
  split <;> simp

/-- A pass of which no frame is taken up ends the loop, and changes nothing: it is refused, or it
is the terminator. -/
theorem step_of_not_accepted (host : Host ν) (base : List ν)
    (h : acceptedFrame entries limits s pass = none) :
    ∃ o, step host base entries limits s pass = (s, some o) ∧
      ((∃ reason, o = .refused reason) ∨
        ∃ frame, pass.line = .line (some frame) ∧ frame.ending.isTrue = true ∧
          o = finish entries s pass) := by
  unfold step
  split
  · exact ⟨_, rfl, .inl ⟨_, rfl⟩⟩
  · exact ⟨_, rfl, .inl ⟨_, rfl⟩⟩
  · exact ⟨_, rfl, .inl ⟨_, rfl⟩⟩
  · rename_i f hline
    split_ifs with hend
    · exact ⟨_, rfl, .inr ⟨f, hline, hend, rfl⟩⟩
    · split
      · exact ⟨_, rfl, .inl ⟨_, rfl⟩⟩
      · rename_i hval
        obtain ⟨entry', hentry, -⟩ := validateFrame_ok hval
        unfold acceptedFrame at h
        simp [hline, hend, hval, hentry] at h

end Frames

/-! ### The invariant -/

section Invariant

variable {host : Host ν} {base : List ν} {entries : List Entry} {limits : Limits}
  {t₀ : Tree ν} {s : State ν} {frame : Frame} {entry : Entry} {pass : Pass}

/-- **What has been built** on a tree `t₀`: nothing outside the destination has changed, and the
links below it are those of the frames seen. -/
structure Built (host : Host ν) (base : List ν) (entries : List Entry) (t₀ : Tree ν)
    (s : State ν) : Prop where
  outside : ∀ loc, ¬ base <+: loc → s.tree.node loc = t₀.node loc
  dest : s.tree.node base = some .dir
  linkOf : ∀ names target, s.tree.node (base ++ names) = some (.link target) →
    ∃ q ∈ s.seen, linksAt entries q = true ∧ host.namesOf q = names
  linkAt : ∀ q ∈ s.seen, linksAt entries q = true →
    ∃ target, s.tree.node (base ++ host.namesOf q) = some (.link target)

/-- **A frame of a path lies below no link made before**, as the host reads the paths. -/
def BelowNoLink (host : Host ν) (entries : List Entry) (taken : State ν × JsString) : Prop :=
  ∀ q ∈ taken.1.seen, linksAt entries q = true → ¬ host.namesOf q <+: host.dirsOf taken.2

omit [DecidableEq ν] in
/-- **Until a frame lies below a link the rule about paths is the fact about the tree.** -/
theorem Built.crosses_iff (h : Built host base entries t₀ s) (p : JsString) :
    s.tree.Crosses base (host.dirsOf p) ↔ ¬ BelowNoLink host entries (s, p) := by
  constructor
  · rintro ⟨names, hpre, hlink⟩ hbelow
    obtain ⟨target, hnode⟩ := FileTree.isLink_iff.1 hlink
    obtain ⟨q, hq, hlinks, rfl⟩ := h.linkOf names target hnode
    exact hbelow q hq hlinks hpre
  · intro hbelow
    unfold BelowNoLink at hbelow
    push Not at hbelow
    obtain ⟨q, hq, hlinks, hpre⟩ := hbelow
    exact ⟨host.namesOf q, hpre, FileTree.isLink_iff.2 (h.linkAt q hq hlinks)⟩

theorem linksAt_iff (hentry : expectedByPath entries frame.pathText = some entry)
    (htype : frame.type = entry.type) :
    linksAt entries frame.pathText = true ↔ frame.type ≠ .str (js "file") := by
  simp [linksAt, hentry, htype]

/-- Directories made along the path of a frame change neither the outside nor the links. -/
theorem Built.withDirs (h : Built host base entries t₀ s)
    (hplain : ¬ s.tree.Crosses base (host.dirsOf frame.pathText)) :
    Built host base entries t₀ { s with tree := withDirs host base s frame } := by
  have hwid : FileTree.Widens s.tree (Stream.withDirs host base s frame) base _ :=
    mkdirSync_widens hplain
  refine ⟨fun loc hloc => ?_, hwid.dir h.dest, fun names target hnode => ?_, fun q hq hl => ?_⟩
  · rcases hwid loc with he | ⟨-, -, q, -, rfl⟩
    · exact he.trans (h.outside loc hloc)
    · exact absurd (List.prefix_append base q) hloc
  · rcases hwid (base ++ names) with he | ⟨-, hd, -⟩
    · exact h.linkOf names target (he.symm.trans hnode)
    · cases hnode.symm.trans hd
  · obtain ⟨target, hnode⟩ := h.linkAt q hq hl
    rcases hwid (base ++ host.namesOf q) with he | ⟨hnone, -, -⟩
    · exact ⟨target, he.trans hnode⟩
    · cases hnode.symm.trans hnone

/-- What is put below the destination is not outside. -/
theorem Built.outside_puts {t : Tree ν} {names : List ν} {x : Node ν Body}
    (h : Built host base entries t₀ s) (hputs : Puts s.tree t (base ++ names) x) :
    ∀ loc, ¬ base <+: loc → t.node loc = t₀.node loc := by
  intro loc hloc
  rw [hputs.2, if_neg, h.outside loc hloc]
  rintro rfl
  exact hloc (List.prefix_append base names)

omit [DecidableEq ν] in
/-- A frame seen that makes no link, and left the tree as it was. -/
theorem Built.seen {s' : State ν} {p : JsString} (h : Built host base entries t₀ s)
    (htree : s'.tree = s.tree) (hseen : s'.seen = s.seen ++ [p])
    (hlinks : linksAt entries p ≠ true) : Built host base entries t₀ s' := by
  refine ⟨by rw [htree]; exact h.outside, by rw [htree]; exact h.dest, ?_, ?_⟩
  · intro names target hnode
    rw [htree] at hnode
    obtain ⟨q, hq, hrest⟩ := h.linkOf names target hnode
    exact ⟨q, by rw [hseen]; exact List.mem_append_left _ hq, hrest⟩
  · intro q hq hl
    rw [hseen, List.mem_append, List.mem_singleton] at hq
    rw [htree]
    rcases hq with hq | rfl
    · exact h.linkAt q hq hl
    · exact absurd hl hlinks

/-- A frame seen that put something at its path: a link just where its entry makes one. -/
theorem Built.put {s' : State ν} {p : JsString} {x : Node ν Body}
    (h : Built host base entries t₀ s)
    (hputs : Puts s.tree s'.tree (base ++ host.namesOf p) x)
    (hseen : s'.seen = s.seen ++ [p])
    (hlinks : linksAt entries p = true ↔ ∃ target, x = .link target) :
    Built host base entries t₀ s' := by
  have hne : ∀ {names : List ν} {y : Node ν Body}, s.tree.node (base ++ names) = some y →
      base ++ names ≠ base ++ host.namesOf p := by
    intro names y hy he
    rw [he, hputs.1] at hy
    cases hy
  refine ⟨h.outside_puts hputs, ?_, ?_, ?_⟩
  · have hdest : s.tree.node (base ++ []) = some .dir := by rw [List.append_nil, h.dest]
    have := hne hdest
    rw [List.append_nil] at this
    rw [hputs.2, if_neg this, h.dest]
  · intro names target hnode
    rw [hputs.2] at hnode
    split_ifs at hnode with he
    · obtain rfl := Option.some.inj hnode
      refine ⟨p, by rw [hseen]; simp, hlinks.2 ⟨target, rfl⟩, ?_⟩
      exact (List.append_cancel_left he).symm
    · obtain ⟨q, hq, hrest⟩ := h.linkOf names target hnode
      exact ⟨q, by rw [hseen]; exact List.mem_append_left _ hq, hrest⟩
  · intro q hq hl
    rw [hseen, List.mem_append, List.mem_singleton] at hq
    rcases hq with hq | rfl
    · obtain ⟨target, hnode⟩ := h.linkAt q hq hl
      exact ⟨target, by rw [hputs.2, if_neg (hne hnode), hnode]⟩
    · obtain ⟨target, rfl⟩ := hlinks.1 hl
      exact ⟨target, by rw [hputs.2, if_pos rfl]⟩

/-- **The step lemma.**  A frame on whose path no link stands changes nothing outside, and if
the loop goes on the links are again those of the frames seen. -/
theorem Built.step (h : Built host base entries t₀ s)
    (hplain : ¬ s.tree.Crosses base (host.dirsOf frame.pathText))
    (hlinks : linksAt entries frame.pathText = true ↔ frame.type ≠ .str (js "file"))
    {r : State ν × Option Outcome}
    (hr : extractFrame host base entries limits s frame entry pass = r) :
    (∀ loc, ¬ base <+: loc → r.1.tree.node loc = t₀.node loc) ∧
      (r.2 = none → Built host base entries t₀ r.1) := by
  have hmade := h.withDirs hplain
  obtain ⟨hseen, hleaves⟩ := extractFrame_leaves entries limits entry pass h.dest hplain
  rw [hr] at hseen hleaves
  rcases hleaves with ⟨htree, hgo⟩ | ⟨hfile, body, exec, hputs⟩ | ⟨hlink, target, hputs⟩
  · refine ⟨by rw [htree]; exact hmade.outside, fun hnone => ?_⟩
    exact hmade.seen htree hseen fun hl => hlinks.1 hl (hgo hnone)
  · refine ⟨hmade.outside_puts hputs, fun _ => hmade.put hputs hseen ?_⟩
    rw [hlinks]
    simp [hfile]
  · refine ⟨hmade.outside_puts hputs, fun _ => hmade.put hputs hseen ?_⟩
    rw [hlinks]
    simp [hlink]

/-- **The run lemma.**  Along the loop no frame's path crosses a link and nothing outside
changes, just when every frame taken up lies below no link made before. -/
theorem Built.loop (h : Built host base entries t₀ s) (passes : List Pass) :
    ((∀ taken ∈ accepted host base entries limits s passes,
        ¬ taken.1.tree.Crosses base (host.dirsOf taken.2)) ∧
      ∀ loc, ¬ base <+: loc →
        (Stream.loop host base entries limits s passes).1.tree.node loc = t₀.node loc) ↔
      ∀ taken ∈ accepted host base entries limits s passes, BelowNoLink host entries taken := by
  induction passes generalizing s with
  | nil => simpa [accepted, Stream.loop] using h.outside
  | cons pass rest ih =>
    cases hacc : acceptedFrame entries limits s pass with
    | none =>
      obtain ⟨o, hstep, -⟩ := step_of_not_accepted host base hacc
      simpa [accepted, Stream.loop, hacc, hstep] using h.outside
    | some fe =>
      obtain ⟨frame, entry⟩ := fe
      obtain ⟨hstep, hentry, htype⟩ := step_of_accepted host base hacc
      have hcross := h.crosses_iff frame.pathText
      by_cases hbelow : BelowNoLink host entries (s, frame.pathText)
      · have hplain : ¬ s.tree.Crosses base (host.dirsOf frame.pathText) :=
          fun hc => hcross.1 hc hbelow
        generalize hr : extractFrame host base entries limits s frame entry pass = r at hstep
        obtain ⟨hout, hgo⟩ := h.step hplain (linksAt_iff hentry htype) hr
        obtain ⟨s', o⟩ := r
        cases o with
        | some o => simpa [accepted, Stream.loop, hacc, hstep, hplain, hbelow] using hout
        | none =>
          have := ih (hgo rfl)
          simpa [accepted, Stream.loop, hacc, hstep, hplain, hbelow] using this
      · -- the path crosses a link already, so both sides fail at this frame
        have hin := mem_accepted host base rest hacc
        exact ⟨fun hall => absurd (hcross.2 hbelow) (hall.1 _ hin),
          fun hall => absurd (hall _ hin) hbelow⟩

end Invariant

/-! ### The extraction -/

section Extraction

variable {host : Host ν} {base : List ν} {entries : List Entry} {limits : Limits}

/-- **The extraction stays inside**: no link stands on the path of a frame it takes up, when it
takes it up, and nothing outside the destination is changed. -/
def StaysInside (host : Host ν) (base : List ν) (entries : List Entry) (limits : Limits)
    (t : Tree ν) (passes : List Pass) : Prop :=
  (∀ taken ∈ framesTaken host base entries limits t passes,
      ¬ taken.1.tree.Crosses base (host.dirsOf taken.2)) ∧
    ∀ loc, ¬ base <+: loc →
      (extractFrames host base entries limits t passes).1.node loc = t.node loc

/-- The destination is new. -/
theorem makeDest_ok {t t' : Tree ν} (h : makeDest host base t = .ok t') :
    t.node base = none ∧ ∀ loc, t'.node loc = if loc = base then some .dir else t.node loc := by
  unfold makeDest at h
  split at h
  · cases h
  · rename_i n hn
    have hne : base ≠ [] := by
      rintro rfl
      simp at hn
    have hbase : base.dropLast ++ [n] = base := by
      rw [List.getLast?_eq_some_getLast hne] at hn
      rw [← Option.some.inj hn, List.dropLast_append_getLast]
    have hcreated := FileTree.create_ok h
    rwa [hbase] at hcreated

/-- A destination just made is empty. -/
theorem makeDest_empty {t t' : Tree ν} (h : makeDest host base t = .ok t') {names : List ν}
    (hne : names ≠ []) : t'.node (base ++ names) = none := by
  obtain ⟨hnone, hnode⟩ := makeDest_ok h
  rw [hnode, if_neg (by simpa using hne)]
  by_contra hthere
  rw [FileTree.dir_above hne hthere] at hnone
  cases hnone

theorem built_makeDest {t t' : Tree ν} (h : makeDest host base t = .ok t') :
    Built host base entries t { tree := t' } := by
  obtain ⟨-, hnode⟩ := makeDest_ok h
  refine ⟨fun loc hloc => ?_, by simp [hnode], fun names target hlink => ?_, nofun⟩
  · change t'.node loc = t.node loc
    rw [hnode, if_neg]
    rintro rfl
    exact hloc List.prefix_rfl
  · change t'.node (base ++ names) = _ at hlink
    by_cases hnil : names = []
    · subst hnil
      simp [hnode] at hlink
    · rw [makeDest_empty h hnil] at hlink
      cases hlink

/-- **An extraction stays inside its destination just when every frame it takes up lies below no
link it has made.** -/
theorem staysInside_iff (host : Host ν) (base : List ν) (entries : List Entry)
    (limits : Limits) (t : Tree ν) (passes : List Pass) :
    StaysInside host base entries limits t passes ↔
      ∀ taken ∈ framesTaken host base entries limits t passes,
        BelowNoLink host entries taken := by
  unfold StaysInside framesTaken extractFrames
  cases hmk : makeDest host base t with
  | error e => cases e <;> simp
  | ok t' => exact (built_makeDest hmk).loop passes

/-- **A volume that stores every name as it is written.** -/
def plainHost : Host JsString where
  volume := { fits := fun _ => true, links := 40 }
  nameOf := id

/-- The tree with one directory, and those above it. -/
def lonePath (path : List ν) : Tree ν where
  node := fun p => if p <+: path then some .dir else none
  root_dir := by simp
  parent_dir := by
    intro loc n h
    have hpre : (loc ++ [n]) <+: path := by
      by_contra hc
      simp [hc] at h
    simp [(List.prefix_append loc [n]).trans hpre]

end Extraction

end Stream
end LaneBroker
