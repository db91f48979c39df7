/-
# What is missing of an install

What `findMissingInstalled` of `deps-cache.js` is for: the entries of a lockfile that apply to
the platform and are absent, less the least set of optional ones that everything that needs
them is without, where what an entry needs is found as node finds it, in the `node_modules` of
the nearest directory (`nodeResolve`).

The source looks where a package of the lockfile may stand: at the entry, and at what comes
before each `/node_modules/` of its path.  Node looks in every directory on the way up.  The
two find the same unless the nearest place of all is one that only one of them looks at
(`resolveLockPath_iff`), as it may be where one workspace stands within another.  Where that
does not happen, the result is what it is for (`findMissingInstalled_exact`), and it never
depends on the order of the entries (`findMissingInstalled_perm`).
-/

import LaneBroker.Basis.Nearest
import LaneBroker.Caches.LocalDeps

namespace LaneBroker
namespace Caches
namespace MissingDeps

open LaneBroker.Basis LaneBroker.Caches.LockPaths LaneBroker.Caches.LocalDeps

/-! ### Where a name is looked for -/

/-- `node_modules`. -/
def modules : JsString := js "node_modules"

/-- A name in the `node_modules` of a directory. -/
def within (name dir : JsString) : JsString :=
  (if dir = [] then [] else dir ++ [JsString.slash]) ++ underModules ++ name

/-- It is in the lockfile. -/
def holds (packages : Packages) (name dir : JsString) : Bool :=
  (packages.get (within name dir)).isSome

/-- **The directories from a path up to the root**, but for those that are called `node_modules`. -/
def directories (path : JsString) : List JsString :=
  (path.segments.inits.reverse.filter fun segs => segs.getLast? ≠ some modules).map
    JsString.joinSegments

/-- **Where node finds a name**: in the `node_modules` of the nearest directory. -/
def nodeResolve (packages : Packages) (path name : JsString) : Option JsString :=
  ((directories path).find? (holds packages name)).map (within name)

/-- The directories that the loop of `resolveLockPath` looks at, up to a number of steps. -/
def basesWithin : ℕ → JsString → List JsString
  | 0, _ => []
  | fuel + 1, base =>
    base :: if base = [] then []
      else
        match lastNested base with
        | none => basesWithin fuel []
        | some (before, _) => basesWithin fuel before

/-- All of them. -/
def bases (path : JsString) : List JsString := basesWithin (path.length + 1) path

theorem resolveWithin_eq (packages : Packages) (name : JsString) (fuel : ℕ) (base : JsString) :
    resolveWithin packages name fuel base =
      ((basesWithin fuel base).find? (holds packages name)).map (within name) := by
  induction fuel generalizing base with
  | zero => rfl
  | succ fuel ih =>
    rw [resolveWithin, basesWithin]
    by_cases hheld : holds packages name base = true
    · rw [List.find?_cons_of_pos hheld]
      exact if_pos hheld
    · rw [List.find?_cons_of_neg hheld]
      have hmiss : ¬(packages.get (within name base)).isSome := hheld
      rw [within] at hmiss
      rw [if_neg hmiss]
      by_cases hroot : base = []
      · rw [if_pos hroot, if_pos hroot]
        rfl
      · rw [if_neg hroot, if_neg hroot]
        cases hnested : lastNested base with
        | none => exact ih []
        | some found => exact ih found.1

theorem resolveLockPath_eq (packages : Packages) (path name : JsString) :
    resolveLockPath packages path name =
      ((bases path).find? (holds packages name)).map (within name) :=
  resolveWithin_eq packages name (path.length + 1) path

theorem within_injective (name : JsString) : Function.Injective (within name) := by
  intro dir dir' h
  have hlen := congrArg List.length h
  have hfront := List.append_cancel_right (List.append_cancel_right h)
  by_cases hdir : dir = []
  · by_cases hdir' : dir' = []
    · rw [hdir, hdir']
    · rw [if_pos hdir, if_neg hdir'] at hfront
      simp at hfront
  · by_cases hdir' : dir' = []
    · rw [if_neg hdir, if_pos hdir'] at hfront
      simp at hfront
    · rw [if_neg hdir, if_neg hdir'] at hfront
      exact List.append_cancel_right hfront

/-! ### Both go up -/

theorem basesWithin_descends (fuel : ℕ) (base : JsString) :
    (∀ dir ∈ basesWithin fuel base, dir <+: base) ∧
      (basesWithin fuel base).Pairwise fun a b => b.length ≤ a.length := by
  induction fuel generalizing base with
  | zero => exact ⟨by simp [basesWithin], .nil⟩
  | succ fuel ih =>
    rw [basesWithin]
    by_cases hroot : base = []
    · rw [if_pos hroot]
      exact ⟨by simp, List.pairwise_singleton _ _⟩
    · rw [if_neg hroot]
      have hrest : ∀ before, before <+: base →
          (∀ dir ∈ base :: basesWithin fuel before, dir <+: base) ∧
            (base :: basesWithin fuel before).Pairwise fun a b => b.length ≤ a.length := by
        intro before hbefore
        obtain ⟨hinside, hsorted⟩ := ih before
        have hall : ∀ dir ∈ basesWithin fuel before, dir <+: base := fun dir hdir =>
          (hinside dir hdir).trans hbefore
        refine ⟨List.forall_mem_cons.2 ⟨List.prefix_rfl, hall⟩, ?_⟩
        exact List.pairwise_cons.2 ⟨fun dir hdir => (hall dir hdir).length_le, hsorted⟩
      cases hnested : lastNested base with
      | none => exact hrest [] (List.nil_prefix)
      | some found =>
        obtain ⟨before, after⟩ := found
        exact hrest before ⟨_, (lastNested_eq_some hnested).symm⟩

theorem bases_descends (path : JsString) : Nearest.Descends path (bases path) :=
  ⟨(basesWithin_descends _ path).1, (basesWithin_descends _ path).2⟩

theorem joinSegments_begins {segs segs' : List JsString} (h : segs <+: segs') :
    JsString.joinSegments segs <+: JsString.joinSegments segs' := by
  obtain ⟨rest, rfl⟩ := h
  unfold JsString.joinSegments
  induction segs with
  | nil => exact List.nil_prefix
  | cons seg segs ih =>
    by_cases hsegs : segs = []
    · subst hsegs
      by_cases hrest : rest = []
      · simp [hrest]
      · rw [List.cons_append, List.nil_append, List.intercalate_cons_of_ne_nil hrest,
          List.intercalate_singleton, List.append_assoc]
        exact List.prefix_append seg _
    · rw [List.cons_append, List.intercalate_cons_of_ne_nil hsegs,
        List.intercalate_cons_of_ne_nil (by simp [hsegs]), List.append_assoc, List.append_assoc]
      exact (List.prefix_append_right_inj seg).2 ((List.prefix_append_right_inj _).2 ih)

theorem directories_descends (path : JsString) : Nearest.Descends path (directories path) where
  inside := by
    intro dir hdir
    obtain ⟨segs, hsegs, rfl⟩ := List.mem_map.1 hdir
    have hinits := List.mem_reverse.1 (List.mem_filter.1 hsegs).1
    have hjoin : JsString.joinSegments path.segments = path := List.intercalate_splitOn ..
    have hbegins := joinSegments_begins ((List.mem_inits _ _).1 hinits)
    rwa [hjoin] at hbegins
  sorted := by
    have hinits : ∀ segs : List JsString, segs.inits.Pairwise (· <+: ·) := by
      intro segs
      induction segs with
      | nil => exact List.pairwise_singleton _ _
      | cons seg segs ih =>
        rw [List.inits_cons, List.pairwise_cons]
        refine ⟨fun _ _ => List.nil_prefix, List.pairwise_map.2 (ih.imp fun h => ?_)⟩
        exact (List.prefix_cons_inj seg).2 h
    rw [directories, List.pairwise_map]
    refine List.Pairwise.filter _ (List.pairwise_reverse.2 ((hinits _).imp fun h => ?_))
    exact (joinSegments_begins h).length_le

/-- **A name is looked for in the wrong place**: of all directories that node or the source looks
at, the nearest that holds it is one that only one of them looks at. -/
def Misread (packages : Packages) (path name : JsString) : Prop :=
  ∃ dir, holds packages name dir = true ∧ (dir ∈ directories path ↔ dir ∉ bases path) ∧
    ∀ other, other ∈ directories path ∨ other ∈ bases path → holds packages name other = true →
      other.length ≤ dir.length

/-- **`resolveLockPath` finds what node finds, unless it looks in the wrong place.** -/
theorem resolveLockPath_iff {packages : Packages} {path name : JsString} :
    resolveLockPath packages path name = nodeResolve packages path name ↔
      ¬Misread packages path name := by
  rw [resolveLockPath_eq, nodeResolve, (Option.map_injective (within_injective name)).eq_iff,
    eq_comm, Nearest.find?_eq_find?_iff (directories_descends path) (bases_descends path)]
  rfl

/-! ### What the result is for -/

/-- The entries that need an entry, as node finds it. -/
def nodeDependentsOf (packages : Packages) (target : JsString) : List JsString :=
  (packages.entries.filter fun e =>
    match e.2 with
    | none => false
    | some entry =>
      (requestedNames e.1 entry).any fun name => nodeResolve packages e.1 name = some target).map
    Prod.fst

section Missing

variable (system : Platform) (packages installed : Packages)

/-- An entry that is not for the platform. -/
def Skipped (name : JsString) : Prop :=
  name ≠ [] ∧ ∃ entry, (name, some entry) ∈ packages.entries ∧
    platformSkips system entry = some true

/-- An entry that applies, and is absent. -/
def Absent (name : JsString) : Prop :=
  name ≠ [] ∧ installed.get name = none ∧ ∃ entry, (name, some entry) ∈ packages.entries ∧
    platformSkips system entry = some false

/-- A set that holds each absent optional entry that something needs, where all that needs it is
not for the platform or in the set. -/
def Closed (S : JsString → Prop) : Prop :=
  ∀ name entry, Absent system packages installed name → (name, some entry) ∈ packages.entries →
    entry.optional = true → nodeDependentsOf packages name ≠ [] →
      (∀ d ∈ nodeDependentsOf packages name, Skipped system packages d ∨ S d) → S name

/-- **The least such set.** -/
def Excused (name : JsString) : Prop := ∀ S, Closed system packages installed S → S name

/-- **What is missing**, as it is reported: without the first `node_modules/`, in order. -/
def IsMissing (missing : List JsString) : Prop :=
  ∃ names : List JsString, names.Nodup ∧
    (∀ name, name ∈ names ↔ Absent system packages installed name ∧
      ¬Excused system packages installed name) ∧
    missing = (names.map (List.drop underModules.length)).mergeSort inOrder

/-- **A lockfile that is read right**: no list of platforms makes it throw, no entry is taken for
installed as every object inherits its name, and no name is looked for in the wrong place. -/
structure ReadRight : Prop where
  platforms : ∀ name entry, name ≠ [] → (name, some entry) ∈ packages.entries →
    (platformSkips system entry).isSome
  own : ∀ name entry, name ≠ [] → (name, some entry) ∈ packages.entries →
    platformSkips system entry = some false → isIn installed name = (installed.get name).isSome
  places : ∀ path entry, (path, some entry) ∈ packages.entries →
    ∀ name ∈ requestedNames path entry, ¬Misread packages path name

end Missing

section Exact

variable {system : Platform} {packages installed : Packages}

theorem closed_excused : Closed system packages installed (Excused system packages installed) := by
  intro name entry habsent hmem hoptional hne hall S hS
  exact hS name entry habsent hmem hoptional hne fun d hd => (hall d hd).imp_right fun h => h S hS

theorem mem_nodeDependentsOf {d target : JsString} :
    d ∈ nodeDependentsOf packages target ↔ ∃ entry, (d, some entry) ∈ packages.entries ∧
      ∃ name ∈ requestedNames d entry, nodeResolve packages d name = some target := by
  simp only [nodeDependentsOf, List.mem_map, List.mem_filter]
  constructor
  · rintro ⟨⟨path, value⟩, ⟨hmem, hneeds⟩, rfl⟩
    cases value with
    | none => cases hneeds
    | some entry => exact ⟨entry, hmem, by simpa using hneeds⟩
  · rintro ⟨entry, hmem, hneeds⟩
    exact ⟨(d, some entry), ⟨hmem, by simpa using hneeds⟩, rfl⟩

theorem mem_dependentsOf {d target : JsString} :
    d ∈ dependentsOf packages target ↔ ∃ entry, (d, some entry) ∈ packages.entries ∧
      ∃ name ∈ requestedNames d entry, resolveLockPath packages d name = some target := by
  have hvalues : ∀ ps : List (JsString × JsString),
      ((OrderedMap.groups ps).get target).getD [] = OrderedMap.valuesOf target ps := by
    intro ps
    rw [OrderedMap.groups, OrderedMap.get_foldl_gather]
    have hempty : (OrderedMap.empty : OrderedMap JsString (List JsString)).get target = none := rfl
    split_ifs with hnil
    · rw [hempty, hnil]
      rfl
    · rw [hempty]
      rfl
  rw [dependentsOf, dependentsByPath, hvalues, OrderedMap.mem_valuesOf_iff, List.mem_flatMap]
  constructor
  · rintro ⟨⟨path, value⟩, hmem, hneeds⟩
    cases value with
    | none => cases hneeds
    | some entry =>
      obtain ⟨name, hname, hfound⟩ := List.mem_filterMap.1 hneeds
      obtain ⟨found, hresolve, heq⟩ := Option.map_eq_some_iff.1 hfound
      obtain ⟨rfl, rfl⟩ := Prod.mk.inj heq
      exact ⟨entry, hmem, name, hname, hresolve⟩
  · rintro ⟨entry, hmem, name, hname, hresolve⟩
    exact ⟨(d, some entry), hmem, List.mem_filterMap.2 ⟨name, hname, by rw [hresolve]; rfl⟩⟩

/-- **Where no name is looked for in the wrong place** an entry is needed by what needs it in
node. -/
theorem mem_dependentsOf_iff (h : ∀ path entry, (path, some entry) ∈ packages.entries →
      ∀ name ∈ requestedNames path entry, ¬Misread packages path name) (target d : JsString) :
    d ∈ dependentsOf packages target ↔ d ∈ nodeDependentsOf packages target := by
  rw [mem_dependentsOf, mem_nodeDependentsOf]
  constructor
  · rintro ⟨entry, hmem, name, hname, hresolve⟩
    rw [resolveLockPath_iff.2 (h d entry hmem name hname)] at hresolve
    exact ⟨entry, hmem, name, hname, hresolve⟩
  · rintro ⟨entry, hmem, name, hname, hresolve⟩
    rw [← resolveLockPath_iff.2 (h d entry hmem name hname)] at hresolve
    exact ⟨entry, hmem, name, hname, hresolve⟩

theorem ne_nil_of_same {l l' : List JsString} (h : ∀ d, d ∈ l ↔ d ∈ l') (hne : l ≠ []) :
    l' ≠ [] := by
  obtain ⟨d, hd⟩ := List.exists_mem_of_ne_nil l hne
  exact List.ne_nil_of_mem ((h d).1 hd)

theorem get_none_of_isIn {name : JsString} (h : isIn installed name = false) :
    installed.get name = none := by
  rw [isIn, Bool.or_eq_false_iff] at h
  simpa using h.1

/-- **What is left out is what is not for the platform, and what is excused.** -/
theorem ReadRight.leftOut_iff (h : ReadRight system packages installed) {name : JsString} :
    LeftOut (dependentsOf packages) system packages (fun name => isIn installed name = false)
        name ↔
      Skipped system packages name ∨ Excused system packages installed name := by
  have hsame : ∀ {target} d, d ∈ dependentsOf packages target ↔
      d ∈ nodeDependentsOf packages target := mem_dependentsOf_iff h.places _
  constructor
  · intro hleft
    induction hleft with
    | skipped hne hmem hskips => exact .inl ⟨hne, _, hmem, hskips⟩
    | @orphaned name entry hne hmem hoptional habsent hdependents _ ih =>
      obtain ⟨skips, hskips⟩ := Option.isSome_iff_exists.1 (h.platforms name entry hne hmem)
      cases skips with
      | true => exact .inl ⟨hne, entry, hmem, hskips⟩
      | false =>
        have hnone := get_none_of_isIn habsent
        exact .inr (closed_excused name entry ⟨hne, hnone, entry, hmem, hskips⟩ hmem hoptional
          (ne_nil_of_same hsame hdependents) fun d hd => ih d ((hsame d).2 hd))
  · rintro (⟨hne, entry, hmem, hskips⟩ | hexcused)
    · exact .skipped hne hmem hskips
    · refine hexcused _ fun name entry habsent hmem hoptional hdependents hall => ?_
      obtain ⟨hne, hnone, entry', hmem', hskips⟩ := habsent
      have habsent : isIn installed name = false := by
        rw [h.own name entry' hne hmem' hskips, hnone]
        rfl
      refine .orphaned hne hmem hoptional habsent
        (ne_nil_of_same (fun d => (hsame d).symm) hdependents) fun d hd => ?_
      obtain ⟨hd, entry, hmem, hskips⟩ | hd := hall d ((hsame d).1 hd)
      · exact .skipped hd hmem hskips
      · exact hd

theorem sortOut_isSome {es : List (JsString × Option InstallEntry)} :
    (sortOut system installed es).isSome ↔ ∀ name entry, name ≠ [] → (name, some entry) ∈ es →
      (platformSkips system entry).isSome := by
  induction es with
  | nil => simp [sortOut]
  | cons e es ih =>
    obtain ⟨name, value⟩ := e
    cases value with
    | none => simpa [sortOut] using ih
    | some entry =>
      rw [sortOut]
      by_cases hroot : name = []
      · rw [if_pos hroot, ih]
        constructor
        · intro h name' entry' hne hmem
          obtain heq | hmem := List.mem_cons.1 hmem
          · exact absurd ((Prod.mk.inj heq).1.trans hroot) hne
          · exact h name' entry' hne hmem
        · exact fun h name' entry' hne hmem => h name' entry' hne (List.mem_cons_of_mem _ hmem)
      · rw [if_neg hroot]
        constructor
        · intro h name' entry' hne hmem
          split at h
          · next skips found hskips hrest =>
            obtain heq | hmem := List.mem_cons.1 hmem
            · obtain ⟨rfl, hentry⟩ := Prod.mk.inj heq
              rw [Option.some.inj hentry, hskips]
              rfl
            · exact ih.1 (by rw [hrest]; rfl) name' entry' hne hmem
          · cases h
        · intro h
          obtain ⟨skips, hskips⟩ := Option.isSome_iff_exists.1
            (h name entry hroot List.mem_cons_self)
          obtain ⟨found, hrest⟩ := Option.isSome_iff_exists.1
            (ih.2 fun name' entry' hne hmem => h name' entry' hne (List.mem_cons_of_mem _ hmem))
          rw [hskips, hrest]
          rfl

/-- What is found absent is in the order of the lockfile. -/
theorem sublist_of_sortOut {es : List (JsString × Option InstallEntry)} {gone away : List JsString}
    (h : sortOut system installed es = some (gone, away)) : away.Sublist (es.map Prod.fst) := by
  induction es generalizing gone away with
  | nil =>
    obtain ⟨rfl, rfl⟩ := Prod.mk.inj (Option.some.inj h)
    exact .slnil
  | cons e es ih =>
    obtain ⟨name, value⟩ := e
    cases value with
    | none => exact (ih h).cons name
    | some entry =>
      rw [sortOut] at h
      by_cases hroot : name = []
      · rw [if_pos hroot] at h
        exact (ih h).cons name
      · rw [if_neg hroot] at h
        split at h
        · next skips gone' away' _ hrest =>
          have hsub := ih hrest
          rw [Option.some.injEq] at h
          split at h
          · obtain ⟨rfl, rfl⟩ := Prod.mk.inj h
            exact hsub.cons name
          · split at h
            · obtain ⟨rfl, rfl⟩ := Prod.mk.inj h
              exact hsub.cons name
            · obtain ⟨rfl, rfl⟩ := Prod.mk.inj h
              exact hsub.cons_cons name
        · cases h

theorem findMissingInstalled_of_sortOut {gone away : List JsString}
    (h : sortOut system installed packages.entries = some (gone, away)) :
    findMissingInstalled system packages installed =
      some (((away.filter (· ∉ growGone packages gone away)).map
        (List.drop underModules.length)).mergeSort inOrder) := by
  simp only [findMissingInstalled, h, Option.bind_eq_bind, Option.bind_some, Option.pure_def]

theorem findMissingInstalled_of_throws
    (h : sortOut system installed packages.entries = none) :
    findMissingInstalled system packages installed = none := by
  simp only [findMissingInstalled, h, Option.bind_eq_bind, Option.bind_none]

/-- **Of a lockfile that is read right `findMissingInstalled` returns what is missing.** -/
theorem findMissingInstalled_exact (h : ReadRight system packages installed) :
    ∃ missing, findMissingInstalled system packages installed = some missing ∧
      IsMissing system packages installed missing := by
  obtain ⟨⟨gone, away⟩, hsort⟩ := Option.isSome_iff_exists.1 (sortOut_isSome.2 h.platforms)
  obtain ⟨-, haway⟩ := sortOut_eq_some hsort
  have hgone : ∀ name, name ∈ growGone packages gone away ↔
      Skipped system packages name ∨ Excused system packages installed name := fun name =>
    (mem_growGone_iff hsort).trans h.leftOut_iff
  refine ⟨_, findMissingInstalled_of_sortOut hsort,
    away.filter (· ∉ growGone packages gone away),
    ((sublist_of_sortOut hsort).nodup packages.nodup).filter _, fun name => ?_, rfl⟩
  rw [List.mem_filter, decide_eq_true_eq, hgone, not_or]
  constructor
  · rintro ⟨hmem, -, hexcused⟩
    obtain ⟨hne, habsent, hentry⟩ := (haway name).1 hmem
    exact ⟨⟨hne, get_none_of_isIn habsent, hentry⟩, hexcused⟩
  · rintro ⟨⟨hne, hnone, entry, hmem, hskips⟩, hexcused⟩
    have habsent : isIn installed name = false := by
      rw [h.own name entry hne hmem hskips, hnone]
      rfl
    refine ⟨(haway name).2 ⟨hne, habsent, entry, hmem, hskips⟩, ?_, hexcused⟩
    rintro ⟨-, entry', hmem', hskips'⟩
    obtain rfl := Option.some.inj (OrderedMap.eq_of_mem hmem hmem')
    rw [hskips] at hskips'
    cases hskips'

end Exact

/-! ### The order of the entries -/

theorem mergeSort_inOrder_eq {names names' : List JsString} (h : names.Perm names') :
    names.mergeSort inOrder = names'.mergeSort inOrder := by
  have htrans : ∀ a b c, inOrder a b = true → inOrder b c = true → inOrder a c = true := by
    intro a b c hab hbc
    rw [inOrder, decide_eq_true_eq] at *
    exact List.le_trans hab hbc
  have htotal : ∀ a b, (inOrder a b || inOrder b a) = true := by
    intro a b
    rw [inOrder, inOrder, Bool.or_eq_true, decide_eq_true_eq, decide_eq_true_eq]
    exact List.le_total a b
  have hperm := ((List.mergeSort_perm names inOrder).trans h).trans
    (List.mergeSort_perm names' inOrder).symm
  refine hperm.eq_of_pairwise (fun a b _ _ hab hba => ?_)
    (List.pairwise_mergeSort htrans htotal names) (List.pairwise_mergeSort htrans htotal names')
  rw [inOrder, decide_eq_true_eq] at hab hba
  exact List.le_antisymm hab hba

section Order

variable {system : Platform} {packages packages' installed : Packages}

theorem get_eq_of_perm (h : packages.entries.Perm packages'.entries) (name : JsString) :
    packages.get name = packages'.get name := by
  refine Option.ext fun value => ?_
  rw [OrderedMap.get_eq_some_iff, OrderedMap.get_eq_some_iff, h.mem_iff]

theorem resolveLockPath_eq_of_perm (h : packages.entries.Perm packages'.entries)
    (path name : JsString) :
    resolveLockPath packages path name = resolveLockPath packages' path name := by
  have hsame : holds packages name = holds packages' name := by
    funext dir
    rw [holds, holds, get_eq_of_perm h]
  rw [resolveLockPath_eq, resolveLockPath_eq, hsame]

theorem mem_dependentsOf_of_perm (h : packages.entries.Perm packages'.entries)
    {d target : JsString} :
    d ∈ dependentsOf packages target ↔ d ∈ dependentsOf packages' target := by
  simp only [mem_dependentsOf, h.mem_iff, resolveLockPath_eq_of_perm h]

theorem leftOut_of_perm {absent : JsString → Prop} (h : packages.entries.Perm packages'.entries)
    {name : JsString} (hleft : LeftOut (dependentsOf packages) system packages absent name) :
    LeftOut (dependentsOf packages') system packages' absent name :=
  hleft.of_same (fun _ hmem => h.mem_iff.1 hmem) fun _ _ => mem_dependentsOf_of_perm h

theorem mem_missing_iff {gone away : List JsString}
    (h : sortOut system installed packages.entries = some (gone, away)) (name : JsString) :
    name ∈ away.filter (· ∉ growGone packages gone away) ↔
      (name ≠ [] ∧ isIn installed name = false ∧ ∃ entry, (name, some entry) ∈ packages.entries ∧
        platformSkips system entry = some false) ∧
      ¬LeftOut (dependentsOf packages) system packages
        (fun name => isIn installed name = false) name := by
  rw [List.mem_filter, decide_eq_true_eq, mem_growGone_iff h, (sortOut_eq_some h).2]

/-- **The order of the entries makes no difference.** -/
theorem findMissingInstalled_perm (h : packages.entries.Perm packages'.entries) :
    findMissingInstalled system packages installed =
      findMissingInstalled system packages' installed := by
  have hsome : (sortOut system installed packages.entries).isSome ↔
      (sortOut system installed packages'.entries).isSome := by
    rw [sortOut_isSome, sortOut_isSome]
    simp only [h.mem_iff]
  cases hsort : sortOut system installed packages.entries with
  | none =>
    have hsort' : sortOut system installed packages'.entries = none := by
      rw [← Option.not_isSome_iff_eq_none, ← hsome, hsort]
      exact Bool.false_ne_true
    rw [findMissingInstalled_of_throws hsort, findMissingInstalled_of_throws hsort']
  | some found =>
    obtain ⟨⟨gone', away'⟩, hsort'⟩ := Option.isSome_iff_exists.1 (hsome.1 (by rw [hsort]; rfl))
    obtain ⟨gone, away⟩ := found
    have hnodup := (sublist_of_sortOut hsort).nodup packages.nodup
    have hnodup' := (sublist_of_sortOut hsort').nodup packages'.nodup
    have hnames : (away.filter (· ∉ growGone packages gone away)).Perm
        (away'.filter (· ∉ growGone packages' gone' away')) := by
      refine (List.perm_ext_iff_of_nodup (hnodup.filter _) (hnodup'.filter _)).2 fun name => ?_
      rw [mem_missing_iff hsort, mem_missing_iff hsort']
      simp only [h.mem_iff]
      refine and_congr_right fun _ => not_congr ?_
      exact ⟨leftOut_of_perm h, leftOut_of_perm h.symm⟩
    rw [findMissingInstalled_of_sortOut hsort, findMissingInstalled_of_sortOut hsort',
      mergeSort_inOrder_eq (hnames.map (List.drop underModules.length))]

end Order

/-- **Where the dependents of each entry are found as in node, the result is just what is missing**:
the source finds what node finds, unless it looks in the wrong place, a lockfile that is read right
gives what is missing, and no lockfile gives anything else in another order. -/
theorem findMissingInstalled_spec (system : Platform) (packages installed : Packages) :
    (∀ path name, resolveLockPath packages path name = nodeResolve packages path name ↔
      ¬Misread packages path name) ∧
    (ReadRight system packages installed →
      ∃ missing, findMissingInstalled system packages installed = some missing ∧
        IsMissing system packages installed missing) ∧
    ∀ packages' : Packages, packages.entries.Perm packages'.entries →
      findMissingInstalled system packages installed =
        findMissingInstalled system packages' installed :=
  ⟨fun _ _ => resolveLockPath_iff, findMissingInstalled_exact,
    fun _ h => findMissingInstalled_perm h⟩

def linux : Platform where
  platform := js "linux"
  arch := js "x64"
  libc := none

/-- A package for another platform. -/
def windowsOnly : InstallEntry where
  optional := true
  os := some [.str (js "win32")]
  dependencies := [js "x"]

/-- A package for another platform, and what only it needs. -/
def windowsAndItsOwn : Packages where
  entries :=
    [([], some { optionalDependencies := [js "w"] }),
      (js "node_modules/w", some windowsOnly),
      (js "node_modules/x", some { optional := true })]
  nodup := by decide +kernel

/-- Nothing is installed. -/
def nothingInstalled : Packages := ⟨[], List.nodup_nil⟩

theorem readRight_windowsAndItsOwn : ReadRight linux windowsAndItsOwn nothingInstalled where
  platforms name entry hne hmem := by
    have hall : ∀ e ∈ windowsAndItsOwn.entries, ∀ entry ∈ e.2,
        (platformSkips linux entry).isSome := by
      decide +kernel
    exact hall _ hmem entry rfl
  own name entry hne hmem _ := by
    have hall : ∀ e ∈ windowsAndItsOwn.entries,
        isIn nothingInstalled e.1 = (nothingInstalled.get e.1).isSome := by
      decide +kernel
    exact hall _ hmem
  places path entry hmem name hname := by
    have hall : ∀ e ∈ windowsAndItsOwn.entries, ∀ entry ∈ e.2, ∀ name ∈ requestedNames e.1 entry,
        resolveLockPath windowsAndItsOwn e.1 name = nodeResolve windowsAndItsOwn e.1 name := by
      decide +kernel
    exact resolveLockPath_iff.1 (hall _ hmem entry rfl name hname)

theorem findMissingInstalled_spec_windows :
    ∃ missing, findMissingInstalled linux windowsAndItsOwn nothingInstalled = some missing ∧
      IsMissing linux windowsAndItsOwn nothingInstalled missing :=
  (findMissingInstalled_spec linux windowsAndItsOwn nothingInstalled).2.1
    readRight_windowsAndItsOwn

/-- A workspace in a workspace, which takes `x` from the outer one, and a package for another
platform, which takes it from the root. -/
def nestedWorkspaces : Packages where
  entries :=
    [([], some { optionalDependencies := [js "w"] }),
      (js "a", some {}),
      (js "a/b", some { dependencies := [js "x"] }),
      (js "a/node_modules/x", some {}),
      (js "node_modules/a", some {}),
      (js "node_modules/b", some {}),
      (js "node_modules/w", some windowsOnly),
      (js "node_modules/x", some { optional := true })]
  nodup := by decide +kernel

/-- What npm installs of it on Linux. -/
def nestedInstalled : Packages where
  entries :=
    [(js "a", some {}),
      (js "a/b", some { dependencies := [js "x"] }),
      (js "a/node_modules/x", some {}),
      (js "node_modules/a", some {}),
      (js "node_modules/b", some {})]
  nodup := by decide +kernel

theorem findMissingInstalled_nested :
    findMissingInstalled linux nestedWorkspaces nestedInstalled = some [js "x"] := by
  have hsort : sortOut linux nestedInstalled nestedWorkspaces.entries =
      some ([js "node_modules/w"], [js "node_modules/x"]) := by
    decide +kernel
  have hgrow : growGone nestedWorkspaces [js "node_modules/w"] [js "node_modules/x"] =
      [js "node_modules/w"] := by
    decide +kernel
  rw [findMissingInstalled_of_sortOut hsort, hgrow]
  decide +kernel

/-- **What is excused is reported**: nothing is missing, and `x` is named, as the inner workspace is
taken for one that needs the `x` of the root. -/
theorem nested_workspaces_reported :
    findMissingInstalled linux nestedWorkspaces nestedInstalled = some [js "x"] ∧
      ¬IsMissing linux nestedWorkspaces nestedInstalled [js "x"] := by
  refine ⟨findMissingInstalled_nested, ?_⟩
  rintro ⟨names, -, hnames, hreported⟩
  have hone : ∃ name, name ∈ names := by
    refine List.exists_mem_of_ne_nil names ?_
    rintro rfl
    have hlen := congrArg List.length hreported
    rw [List.length_mergeSort] at hlen
    cases hlen
  obtain ⟨name, hname⟩ := hone
  obtain ⟨habsent, hexcused⟩ := (hnames name).1 hname
  have honly : ∀ e ∈ nestedWorkspaces.entries, e.1 ≠ [] → nestedInstalled.get e.1 = none →
      (e.2.bind (platformSkips linux)) = some false → e.1 = js "node_modules/x" := by
    decide +kernel
  have habsent' := habsent
  obtain ⟨hne, hnone, entry, hmem, hskips⟩ := habsent'
  obtain rfl := honly _ hmem hne hnone hskips
  refine hexcused fun S hS => ?_
  have hdependents : nodeDependentsOf nestedWorkspaces (js "node_modules/x") =
      [js "node_modules/w"] := by
    decide +kernel
  refine hS _ { optional := true } habsent (by decide +kernel) rfl ?_ ?_
  · rw [hdependents]
    exact List.cons_ne_nil _ _
  · intro d hd
    rw [hdependents, List.mem_singleton] at hd
    subst hd
    exact .inl ⟨by decide, windowsOnly, by decide +kernel, by decide +kernel⟩

end MissingDeps
end Caches
end LaneBroker
