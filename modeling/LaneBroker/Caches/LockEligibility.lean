/-
# Which lockfiles are pinned

`deps-cache.js`: `lockEligibility`.  A tree is cached under a key that covers its lockfile, so
every entry of the lockfile has to say what its bytes are.  An entry without a source of its
own rides in the tarball of the package around it, and is as good as that package; the check
goes up from entry to entry, and each one is checked once.

The way up may end where there is no tarball: at a workspace directory, which passes for what
it is, or at a link.  What is accepted is pinned just where no way up ends so, and every link
leads to an entry that the lockfile has itself (`lockEligibility_pinned_iff`).  The second is
nearly always so, since a link to a name that is not there is refused; but
`packages['__proto__']` is there in every object.
-/

import LaneBroker.Basis.OrderedMap
import LaneBroker.Caches.LockPaths
import Mathlib.Data.List.Dedup

namespace LaneBroker
namespace Caches

open LaneBroker.Basis LaneBroker.Caches.LockPaths

/-- **What `lockEligibility` says** of a lockfile it accepts. -/
structure Eligibility where
  hasInstallScript : Bool
  /-- Each workspace directory, with the names of the links to it. -/
  workspaces : List (JsString × List JsString)
  tarballs : List JsString

namespace LockEligibility

/-! ### The lockfile -/

/-- **An object among the entries**, with the fields that are read; an array has none of them. -/
structure LockEntry where
  link : JsVal := .undefined
  resolved : JsVal := .undefined
  integrity : JsVal := .undefined
  inBundle : JsVal := .undefined
  inDepBundle : JsVal := .undefined
  hasInstallScript : JsVal := .undefined
  /-- The values, where it is an array. -/
  bundleDependencies : Option (List JsVal) := none
  deriving DecidableEq

/-- **What stands under a name.** -/
inductive LockValue
  | object (e : LockEntry)
  /-- No object, but true or false where a condition is wanted; a function is one that is true. -/
  | plain (truthy : Bool)
  deriving DecidableEq

/-- `packages`, in the order of `Object.entries`. -/
abbrev Packages := OrderedMap JsString LockValue

/-- **A parsed lockfile**, with what is read of it; one that is no object has nothing. -/
structure Lockfile where
  lockfileVersion : JsVal := .undefined
  /-- None where it is no object. -/
  packages : Option Packages := none

/-- **What the language does** for `lockEligibility`: none of it decides what is pinned. -/
structure Host where
  toLowerCase : JsString → JsString
  /-- `String(v)`. -/
  string : JsVal → JsString
  localeCompare : JsString → JsString → ℤ

/-! ### The source -/

/-- `null`, or why an entry is refused. -/
abbrev Verdict := Option JsString

/-- **`packages[name]`**: what the object does not have itself it may inherit, and what is inherited
as `__proto__` is an object. -/
def packageAt (packages : Packages) (name : JsString) : Option LockValue :=
  match packages.get name with
  | some value => some value
  | none =>
    if name = js "__proto__" then some (.object {})
    else if name ∈ inheritedMethods then some (.plain true)
    else none

/-- `isPlainWorkspacePath`. -/
def isPlainWorkspacePath (p : JsString) : Bool :=
  !(p = [] || p.contains 0x5c || p.contains 0 || p.head? = some JsString.slash ||
      p.getLast? = some JsString.slash) &&
    p.segments.all fun seg =>
      seg ≠ [] && seg ≠ js "." && seg ≠ js ".." && seg ≠ js "node_modules"

/-- `/^node_modules\/(@[^/]+\/)?[^/]+$/`. -/
def isTopLevel (name : JsString) : Bool :=
  underModules.isPrefixOf name &&
    match JsString.segments (name.drop underModules.length) with
    | [package] => package ≠ []
    | [scope, package] => scope.head? = some 0x40 && scope.length ≥ 2 && package ≠ []
    | _ => false

/-- `.` in a pattern. -/
def noLineEnd (u : UInt16) : Bool := u ≠ 0x0a && u ≠ 0x0d && u ≠ 0x2028 && u ≠ 0x2029

/-- `[0-9a-f]`. -/
def isLowerHex (u : UInt16) : Bool := (0x30 ≤ u && u ≤ 0x39) || (0x61 ≤ u && u ≤ 0x66)

/-- `REGISTRY_RE`. -/
def isRegistry (s : JsString) : Bool := (js "https://registry.npmjs.org/").isPrefixOf s

/-- `GIT_PINNED_RE`: `/^git\+.+#[0-9a-f]{40}$/`. -/
def isGitPinned (s : JsString) : Bool :=
  let body := s.drop 4
  let url := body.take (body.length - 41)
  (js "git+").isPrefixOf s && url ≠ [] && url.all noLineEnd &&
    (body.drop url.length).head? = some 0x23 && (body.drop (url.length + 1)).length = 40 &&
    (body.drop (url.length + 1)).all isLowerHex

/-- `FILE_TARBALL_RE`: `/^file:.+\.tgz$/`. -/
def isFileTarball (s : JsString) : Bool :=
  let body := s.drop 5
  let path := body.take (body.length - 4)
  (js "file:").isPrefixOf s && path ≠ [] && path.all noLineEnd &&
    body.drop path.length = js ".tgz"

/-- `typeof v === 'string'`. -/
def isString : JsVal → Bool
  | .str _ => true
  | _ => false

section Source

variable (host : Host) (packages : Packages)

/-- `linkTargets`. -/
def linkTargets : List JsString :=
  packages.entries.filterMap fun
    | (_, .object { link, resolved := .str resolved, .. }) =>
      if link.isTrue then some resolved else none
    | _ => none

def lockEntry (name : JsString) (rest : JsString) : JsString := js "lock entry " ++ name ++ rest

/-- **`linkProblem`.** -/
def linkProblem (name : JsString) (entry : LockEntry) : Verdict :=
  if !isTopLevel name then
    some (lockEntry name (js " is a link that is not a top-level package"))
  else
    match entry.resolved with
    | .str resolved =>
      if !isPlainWorkspacePath resolved then
        some (lockEntry name (js " is a link to " ++ resolved.take 80 ++
          js ", which is not a plain relative path inside the repo"))
      else if (linkTargets packages).any fun other =>
          other ≠ resolved && host.toLowerCase other = host.toLowerCase resolved then
        some (lockEntry name (js " is a link to " ++ resolved ++
          js ", which differs from another workspace path only by case"))
      else
        match packageAt packages resolved with
        | some (.object target) =>
          if target.link.isTrue || isString target.resolved then
            some (lockEntry name (js " is a link to " ++ resolved ++
              js ", which has no workspace entry in the lock"))
          else none
        | _ =>
          some (lockEntry name (js " is a link to " ++ resolved ++
            js ", which has no workspace entry in the lock"))
    | resolved =>
      some (lockEntry name (js " is a link to " ++ (host.string resolved).take 80 ++
        js ", which is not a plain relative path inside the repo"))

/-- A link that the first loop takes: its target, and its name under `node_modules`. -/
def acceptedLink : JsString × LockValue → Option (JsString × JsString)
  | (name, .object entry) =>
    if entry.link.isTrue && (linkProblem host packages name entry).isNone then
      match entry.resolved with
      | .str resolved => some (resolved, name.drop underModules.length)
      | _ => none
    else none
  | _ => none

/-- **`workspaceLinks`.** -/
def workspaceLinks : OrderedMap JsString (List JsString) :=
  .groups (packages.entries.filterMap (acceptedLink host packages))

/-- `owningWorkspace`. -/
def owningWorkspace (name : JsString) : Option JsString :=
  ((workspaceLinks host packages).entries.map Prod.fst).find? fun dir =>
    (dir ++ nestedMark).isPrefixOf name

/-- `verdicts`, the last one of a name first, and `tarballs`. -/
structure Checks where
  verdicts : List (JsString × Verdict) := []
  tarballs : List JsString := []

/-- `bundles`. -/
def bundles (parent : Option LockValue) (childName : JsString) : Bool :=
  match parent with
  | some (.object p) => p.bundleDependencies.any fun names => names.contains (.str childName)
  | _ => false

/-- The rest of `checkEntry`, of an entry without a source of its own. -/
def checkBundled (check : JsString → Checks → Verdict × Checks) (name : JsString)
    (entry : LockEntry) (st : Checks) : Verdict × Checks :=
  match if entry.inBundle.isTrue then lastNested name else none with
  | none => (some (lockEntry name (js " has no resolved")), st)
  | some (parentName, childName) =>
    let parent := packageAt packages parentName
    if parent = none || parent = some (.plain false) ||
        (!bundles parent childName && !entry.inDepBundle.isTrue) then
      (some (lockEntry name (js " has no resolved and no enclosing package bundles it")), st)
    else
      match check parentName st with
      | (none, st) => (none, st)
      | (some parentVerdict, st) =>
        (some (lockEntry name (js " is bundled by " ++ parentName ++ js ", which fails: " ++
          parentVerdict)), st)

/-- **`checkEntry`**, which checks the package around an entry by `check`. -/
def checkEntry (check : JsString → Checks → Verdict × Checks) (name : JsString) (st : Checks) :
    Verdict × Checks :=
  match packageAt packages name with
  | some (.object entry) =>
    if entry.link.isTrue then (linkProblem host packages name entry, st)
    else if ((workspaceLinks host packages).get name).isSome then (none, st)
    else if !underModules.isPrefixOf
        (match owningWorkspace host packages name with
          | some owner => name.drop (owner.length + 1)
          | none => name) then
      (some (lockEntry name (js " is not under node_modules (workspace or local package)")), st)
    else
      match entry.resolved with
      | .str resolved =>
        if isRegistry resolved && isString entry.integrity then (none, st)
        else if isGitPinned resolved then (none, st)
        else if isFileTarball resolved && isString entry.integrity then
          (none, { st with tarballs := st.tarballs ++ [resolved.drop 5] })
        else
          (some (lockEntry name (js " resolves to an unpinned source: " ++ resolved.take 80)), st)
      | _ => checkBundled packages check name entry st
  | _ => (some (lockEntry name (js " is malformed")), st)

/-- `check`, up to a number of names on the way. -/
def checkWithin : ℕ → JsString → Checks → Verdict × Checks
  | 0, _, st => (some (js "in progress"), st)
  | fuel + 1, name, st =>
    match st.verdicts.lookup name with
    | some verdict => (verdict, st)
    | none =>
      let (verdict, st) := checkEntry host packages (checkWithin fuel) name
        { st with verdicts := (name, some (js "in progress")) :: st.verdicts }
      (verdict, { st with verdicts := (name, verdict) :: st.verdicts })

/-- **`check`**: the way goes up through ever shorter names (`checkWithin_succ`). -/
def check (name : JsString) (st : Checks) : Verdict × Checks :=
  checkWithin host packages (name.length + 1) name st

/-- The loop over the entries. -/
def checkAll : List (JsString × LockValue) → Checks → Except JsString Checks
  | [], st => .ok st
  | (name, _) :: rest, st =>
    if name = [] then checkAll rest st
    else
      match check host packages name st with
      | (none, st) => checkAll rest st
      | (some reason, _) => .error reason

/-- `entry?.hasInstallScript`. -/
def installScript : LockValue → Bool
  | .object entry => entry.hasInstallScript.truthy
  | .plain _ => false

end Source

/-- **`lockEligibility`.** -/
def lockEligibility (host : Host) (lock : Lockfile) : Except JsString Eligibility :=
  match lock.packages with
  | none => .error (js "lockfile is not v2 or v3 with a packages map")
  | some packages =>
    if lock.lockfileVersion ≠ .num 2 ∧ lock.lockfileVersion ≠ .num 3 then
      .error (js "lockfile is not v2 or v3 with a packages map")
    else
      match checkAll host packages packages.entries {} with
      | .error reason => .error reason
      | .ok st =>
        .ok
          { hasInstallScript := packages.entries.any fun x => installScript x.2
            workspaces :=
              ((workspaceLinks host packages).entries.map fun ws =>
                (ws.1, ws.2.mergeSort inOrder)).mergeSort
                  fun a b => host.localeCompare a.1 b.1 ≤ 0
            tarballs := st.tarballs.dedup.mergeSort inOrder }

/-! ### What is pinned -/

section Pinned

variable (packages : Packages) (tarballs : List JsString)

/-- **One of the three pinned sources.** -/
def PinnedSource (entry : LockEntry) : Prop :=
  entry.link.isTrue = false ∧ ∃ source, entry.resolved = .str source ∧
    (isRegistry source ∧ isString entry.integrity ∨ isGitPinned source ∨
      isFileTarball source ∧ isString entry.integrity ∧ source.drop 5 ∈ tarballs)

/-- A link of the lockfile, and where it leads. -/
def IsLink (name dir : JsString) : Prop :=
  name ≠ [] ∧ ∃ entry, (name, .object entry) ∈ packages.entries ∧ entry.link.isTrue = true ∧
    entry.resolved = .str dir

/-- A link leads there. -/
def IsTarget (dir : JsString) : Prop := ∃ name, IsLink packages name dir

/-- The entry of a workspace. -/
def IsWorkspace (dir : JsString) : Prop :=
  ∃ entry, (dir, .object entry) ∈ packages.entries ∧ entry.link.isTrue = false ∧
    isString entry.resolved = false

/-- **The package around an entry bundles it.** -/
def BundledBy (name : JsString) (entry : LockEntry) (parentName : JsString) : Prop :=
  ∃ childName, lastNested name = some (parentName, childName) ∧
    (bundles (packageAt packages parentName) childName = true ∨ entry.inDepBundle.isTrue = true)

/-- **The way up from an entry ends at a pinned source.** -/
inductive Rides : JsString → Prop
  | source {name : JsString} {entry : LockEntry} : (name, .object entry) ∈ packages.entries →
      PinnedSource tarballs entry → Rides name
  | inside {name parentName : JsString} {entry : LockEntry} :
      (name, .object entry) ∈ packages.entries → entry.link.isTrue = false →
      isString entry.resolved = false → entry.inBundle.isTrue = true →
      BundledBy packages name entry parentName → Rides parentName → Rides name

/-- **An entry is pinned to content.** -/
def Pinned (name : JsString) : Prop :=
  (∃ dir, IsLink packages name dir ∧ IsWorkspace packages dir) ∨
    IsTarget packages name ∧ IsWorkspace packages name ∨ Rides packages tarballs name

/-- **The workspaces list the links**: each target once, with the links to it. -/
structure ListsLinks (workspaces : List (JsString × List JsString)) : Prop where
  nodup : (workspaces.map Prod.fst).Nodup
  links : ∀ ws ∈ workspaces, ws.2 ≠ [] ∧ ws.2.Nodup
  exact : ∀ name dir, IsLink packages name dir ↔
    ∃ links link, (dir, links) ∈ workspaces ∧ link ∈ links ∧ name = underModules ++ link

/-- **No way up ends without a tarball**: a link leads to an entry that is there, and what has no
source is not inside a workspace or a link. -/
structure EndsInTarballs : Prop where
  linked : ∀ name dir, IsLink packages name dir → dir ∈ packages.entries.map Prod.fst
  enclosed : ∀ name entry parentName childName, (name, .object entry) ∈ packages.entries →
    entry.link.isTrue = false → ¬ IsTarget packages name → isString entry.resolved = false →
    lastNested name = some (parentName, childName) →
    ¬ IsTarget packages parentName ∧ ∀ dir, ¬ IsLink packages parentName dir

end Pinned

/-! ### The way up -/

section Check

variable {host : Host} {packages : Packages}

variable (host packages)

/-- **Why a name is accepted.** -/
inductive Accepted (tarballs : List JsString) : JsString → Prop
  | link {name : JsString} {entry : LockEntry} : packageAt packages name = some (.object entry) →
      entry.link.isTrue = true → linkProblem host packages name entry = none →
      Accepted tarballs name
  | workspace {name : JsString} {entry : LockEntry} :
      packageAt packages name = some (.object entry) → entry.link.isTrue = false →
      ((workspaceLinks host packages).get name).isSome = true → Accepted tarballs name
  | source {name : JsString} {entry : LockEntry} :
      packageAt packages name = some (.object entry) → PinnedSource tarballs entry →
      Accepted tarballs name
  | bundled {name parentName : JsString} {entry : LockEntry} :
      packageAt packages name = some (.object entry) → entry.link.isTrue = false →
      isString entry.resolved = false → entry.inBundle.isTrue = true →
      BundledBy packages name entry parentName → Accepted tarballs parentName →
      Accepted tarballs name

/-- **What is kept**: a name that passed was accepted. -/
def Sound (st : Checks) : Prop :=
  ∀ name, (name, none) ∈ st.verdicts → Accepted host packages st.tarballs name

/-- **What a check of a name does**, from there. -/
structure Checked (name : JsString) (st : Checks) (out : Verdict × Checks) : Prop where
  sound : Sound host packages out.2
  grows : st.tarballs ⊆ out.2.tarballs
  accepted : out.1 = none → Accepted host packages out.2.tarballs name

variable {host packages}

theorem PinnedSource.mono {tarballs tarballs' : List JsString} {entry : LockEntry}
    (h : PinnedSource tarballs entry) (hsub : tarballs ⊆ tarballs') :
    PinnedSource tarballs' entry := by
  obtain ⟨hlink, source, hsource, hpinned⟩ := h
  exact ⟨hlink, source, hsource,
    hpinned.imp_right (.imp_right fun hfile => ⟨hfile.1, hfile.2.1, hsub hfile.2.2⟩)⟩

theorem Accepted.mono {tarballs tarballs' : List JsString} {name : JsString}
    (h : Accepted host packages tarballs name) (hsub : tarballs ⊆ tarballs') :
    Accepted host packages tarballs' name := by
  induction h with
  | link hat hlink hproblem => exact .link hat hlink hproblem
  | workspace hat hlink hworkspace => exact .workspace hat hlink hworkspace
  | source hat hpinned => exact .source hat (hpinned.mono hsub)
  | bundled hat hlink hnone hin hby _ ih => exact .bundled hat hlink hnone hin hby ih

theorem Sound.mono {st st' : Checks} (h : Sound host packages st)
    (hverdicts : st'.verdicts = st.verdicts) (hsub : st.tarballs ⊆ st'.tarballs) :
    Sound host packages st' :=
  fun name hname => (h name (hverdicts ▸ hname)).mono hsub

/-- A refusal that writes nothing. -/
theorem Checked.refused {name : JsString} {st : Checks} {reason : JsString}
    (hst : Sound host packages st) : Checked host packages name st (some reason, st) :=
  ⟨hst, List.Subset.refl _, fun h => nomatch h⟩

/-- A pass that writes nothing. -/
theorem Checked.passed {name : JsString} {st : Checks} (hst : Sound host packages st)
    (h : Accepted host packages st.tarballs name) :
    Checked host packages name st (none, st) :=
  ⟨hst, List.Subset.refl _, fun _ => h⟩

theorem isString_iff {v : JsVal} : isString v = true ↔ ∃ s, v = .str s := by
  cases v <;> simp [isString]

section Entry

variable {check : JsString → Checks → Verdict × Checks} {name : JsString} {st : Checks}
  (hst : Sound host packages st)
  (hcheck : ∀ name st, Sound host packages st → Checked host packages name st (check name st))

include hst hcheck

theorem checkBundled_checked {entry : LockEntry}
    (hat : packageAt packages name = some (.object entry)) (hlink : entry.link.isTrue = false)
    (hnone : isString entry.resolved = false) :
    Checked host packages name st (checkBundled packages check name entry st) := by
  unfold checkBundled
  by_cases hin : entry.inBundle.isTrue = true
  swap
  · rw [if_neg hin]
    exact .refused hst
  rw [if_pos hin]
  cases hnested : lastNested name with
  | none => exact .refused hst
  | some found =>
    obtain ⟨parentName, childName⟩ := found
    simp only
    split_ifs with hparent
    · exact .refused hst
    have hby : BundledBy packages name entry parentName := by
      refine ⟨childName, hnested, ?_⟩
      simp only [Bool.or_eq_true, Bool.and_eq_true, not_or, not_and] at hparent
      cases hbundles : bundles (packageAt packages parentName) childName with
      | true => exact .inl rfl
      | false => exact .inr (by simpa using hparent.2 (by rw [hbundles]; rfl))
    have hup := hcheck parentName st hst
    split
    · rename_i st' hpassed
      rw [hpassed] at hup
      exact ⟨hup.sound, hup.grows, fun _ => .bundled hat hlink hnone hin hby (hup.accepted rfl)⟩
    · rename_i reason st' hrefused
      rw [hrefused] at hup
      exact ⟨hup.sound, hup.grows, fun h => nomatch h⟩

/-- **An entry that passes is accepted**, if that is so of the package around it. -/
theorem checkEntry_checked :
    Checked host packages name st (checkEntry host packages check name st) := by
  unfold checkEntry
  split
  case h_2 => exact .refused hst
  case h_1 entry hat =>
    by_cases hlink : entry.link.isTrue = true
    · rw [if_pos hlink]
      exact ⟨hst, List.Subset.refl _, fun hproblem => .link hat hlink hproblem⟩
    rw [if_neg hlink]
    rw [Bool.not_eq_true] at hlink
    by_cases hworkspace : ((workspaceLinks host packages).get name).isSome = true
    · rw [if_pos hworkspace]
      exact .passed hst (.workspace hat hlink hworkspace)
    rw [if_neg hworkspace]
    split_ifs with hunder
    · exact .refused hst
    split
    · rename_i resolved hresolved
      split_ifs with hregistry hgit hfile
      · rw [Bool.and_eq_true] at hregistry
        exact .passed hst (.source hat ⟨hlink, resolved, hresolved, .inl hregistry⟩)
      · exact .passed hst (.source hat ⟨hlink, resolved, hresolved, .inr (.inl hgit)⟩)
      · rw [Bool.and_eq_true] at hfile
        have hsub : st.tarballs ⊆ st.tarballs ++ [resolved.drop 5] := List.subset_append_left _ _
        refine ⟨hst.mono rfl hsub, hsub, fun _ => .source hat ⟨hlink, resolved, hresolved, ?_⟩⟩
        exact .inr (.inr ⟨hfile.1, hfile.2, List.mem_append_right _ (List.mem_singleton_self _)⟩)
      · exact .refused hst
    · rename_i hother
      refine checkBundled_checked hst hcheck hat hlink ?_
      rw [Bool.eq_false_iff]
      exact fun h => (isString_iff.1 h).elim hother

end Entry

theorem mem_of_lookup {verdicts : List (JsString × Verdict)} {name : JsString} {verdict : Verdict}
    (h : verdicts.lookup name = some verdict) : (name, verdict) ∈ verdicts := by
  induction verdicts with
  | nil => cases h
  | cons v verdicts ih =>
    obtain ⟨name', verdict'⟩ := v
    rw [List.lookup_cons] at h
    split at h
    · rename_i heq
      obtain rfl := Option.some.inj h
      rw [beq_iff_eq.1 heq]
      exact List.mem_cons_self
    · exact List.mem_cons_of_mem _ (ih h)

theorem checkWithin_checked (fuel : ℕ) {name : JsString} {st : Checks}
    (hst : Sound host packages st) :
    Checked host packages name st (checkWithin host packages fuel name st) := by
  induction fuel generalizing name st with
  | zero => exact .refused hst
  | succ fuel ih =>
    rw [checkWithin]
    cases hlookup : st.verdicts.lookup name with
    | some verdict =>
      refine ⟨hst, List.Subset.refl _, fun hnone => ?_⟩
      simp only at hnone
      exact hst name (hnone ▸ mem_of_lookup hlookup)
    | none =>
      have hprogress : Sound host packages
          { st with verdicts := (name, some (js "in progress")) :: st.verdicts } := by
        intro name' hname'
        rcases List.mem_cons.1 hname' with heq | hname'
        · cases heq
        · exact hst name' hname'
      have hentry : Checked host packages name _
          (checkEntry host packages (checkWithin host packages fuel) name _) :=
        checkEntry_checked hprogress fun name st hst => ih hst
      obtain ⟨hsound, hgrows, haccepted⟩ := hentry
      refine ⟨fun name' hname' => ?_, hgrows, haccepted⟩
      rcases List.mem_cons.1 hname' with heq | hname'
      · obtain ⟨rfl, hverdict⟩ := Prod.mk.inj heq
        exact haccepted hverdict.symm
      · exact hsound name' hname'

/-- **All that passes is accepted.** -/
theorem checkAll_accepted {entries : List (JsString × LockValue)} {st st' : Checks}
    (hst : Sound host packages st) (h : checkAll host packages entries st = .ok st') :
    st.tarballs ⊆ st'.tarballs ∧ ∀ x ∈ entries, x.1 ≠ [] →
      Accepted host packages st'.tarballs x.1 := by
  induction entries generalizing st with
  | nil =>
    obtain rfl := Except.ok.inj h
    exact ⟨List.Subset.refl _, fun x hx => nomatch hx⟩
  | cons x entries ih =>
    obtain ⟨name, value⟩ := x
    rw [checkAll] at h
    split_ifs at h with hroot
    · obtain ⟨hgrows, hrest⟩ := ih hst h
      refine ⟨hgrows, fun x hx hne => ?_⟩
      rcases List.mem_cons.1 hx with rfl | hx
      · exact absurd hroot hne
      · exact hrest x hx hne
    · have hchecked : Checked host packages name st (check host packages name st) :=
        checkWithin_checked (name.length + 1) hst
      split at h
      · rename_i st₁ hpassed
        rw [hpassed] at hchecked
        obtain ⟨hgrows, hrest⟩ := ih hchecked.sound h
        refine ⟨List.Subset.trans hchecked.grows hgrows, fun x hx hne => ?_⟩
        rcases List.mem_cons.1 hx with rfl | hx
        · exact (hchecked.accepted rfl).mono hgrows
        · exact hrest x hx hne
      · cases h

end Check

/-! ### Links -/

section Links

variable {host : Host} {packages : Packages} {name dir : JsString}

theorem packageAt_of_mem {value : LockValue} (h : (name, value) ∈ packages.entries) :
    packageAt packages name = some value := by
  rw [packageAt, OrderedMap.get_eq_some_iff.2 h]

/-- What stands under a name of the lockfile is its own. -/
theorem mem_of_packageAt {value : LockValue} (hat : packageAt packages name = some value)
    (hname : name ∈ packages.entries.map Prod.fst) : (name, value) ∈ packages.entries := by
  obtain ⟨⟨name, value'⟩, hmem, rfl⟩ := List.mem_map.1 hname
  rw [packageAt_of_mem hmem] at hat
  rwa [← Option.some.inj hat]

theorem IsLink.unique {dir' : JsString} (h : IsLink packages name dir)
    (h' : IsLink packages name dir') : dir = dir' := by
  obtain ⟨-, entry, hmem, -, hdir⟩ := h
  obtain ⟨-, entry', hmem', -, hdir'⟩ := h'
  obtain rfl := LockValue.object.inj (OrderedMap.eq_of_mem hmem hmem')
  exact JsVal.str.inj (hdir.symm.trans hdir')

/-- The name of a top-level package. -/
theorem exists_of_isTopLevel (h : isTopLevel name = true) :
    name = underModules ++ name.drop underModules.length := by
  rw [isTopLevel, Bool.and_eq_true] at h
  exact (List.prefix_iff_eq_append.1 (List.isPrefixOf_iff_prefix.1 h.1)).symm

/-- **What a link has to be.** -/
theorem linkProblem_eq_none {entry : LockEntry}
    (h : linkProblem host packages name entry = none) :
    isTopLevel name = true ∧ ∃ dir, entry.resolved = .str dir ∧ isPlainWorkspacePath dir = true ∧
      ∃ target, packageAt packages dir = some (.object target) ∧ target.link.isTrue = false ∧
        isString target.resolved = false := by
  unfold linkProblem at h
  split_ifs at h with htop
  rw [Bool.not_eq_true, Bool.not_eq_false'] at htop
  split at h
  · rename_i dir hdir
    split_ifs at h with hplain hcase
    rw [Bool.not_eq_true, Bool.not_eq_false'] at hplain
    split at h
    · rename_i target htarget
      split_ifs at h with hsource
      rw [Bool.or_eq_true, not_or, Bool.not_eq_true, Bool.not_eq_true] at hsource
      exact ⟨htop, dir, hdir, hplain, target, htarget, hsource⟩
    · cases h
  · cases h

/-- **What the first loop takes** is a link. -/
theorem acceptedLink_eq_some {x : JsString × LockValue} {link : JsString}
    (h : acceptedLink host packages x = some (dir, link)) :
    x.1 = underModules ++ link ∧ ∃ entry, x.2 = .object entry ∧ entry.link.isTrue = true ∧
      entry.resolved = .str dir := by
  unfold acceptedLink at h
  split at h
  · rename_i name entry
    split_ifs at h with hlink
    rw [Bool.and_eq_true, Option.isNone_iff_eq_none] at hlink
    have htop := exists_of_isTopLevel (linkProblem_eq_none hlink.2).1
    split at h
    · rename_i resolved hresolved
      obtain ⟨rfl, rfl⟩ := Prod.mk.inj (Option.some.inj h)
      exact ⟨htop, entry, rfl, hlink.1, hresolved⟩
    · cases h
  · cases h

/-- **A link that is listed is one.** -/
theorem isLink_of_mem {link : JsString}
    (h : (dir, link) ∈ packages.entries.filterMap (acceptedLink host packages)) :
    IsLink packages (underModules ++ link) dir := by
  obtain ⟨⟨name, value⟩, hx, haccepted⟩ := List.mem_filterMap.1 h
  obtain ⟨rfl, entry, rfl, hlink, hdir⟩ := acceptedLink_eq_some haccepted
  exact ⟨List.append_ne_nil_of_left_ne_nil (by decide) _, entry, hx, hlink, hdir⟩

/-- A workspace directory of the source is where a link leads. -/
theorem isTarget_of_workspaceLinks (h : ((workspaceLinks host packages).get dir).isSome = true) :
    IsTarget packages dir := by
  obtain ⟨links, hlinks⟩ := Option.isSome_iff_exists.1 h
  obtain ⟨hvalues, hne⟩ := OrderedMap.mem_groups_iff.1 (OrderedMap.get_eq_some_iff.1 hlinks)
  obtain ⟨link, hlink⟩ := List.exists_mem_of_ne_nil links hne
  rw [hvalues, OrderedMap.mem_valuesOf_iff] at hlink
  exact ⟨_, isLink_of_mem hlink⟩

/-- A plain path does not pass through `node_modules`. -/
theorem lastNested_of_plain (h : isPlainWorkspacePath dir = true) : lastNested dir = none := by
  rw [Option.eq_none_iff_forall_ne_some]
  rintro ⟨before, after⟩ hnested
  have hsegment : js "node_modules" ∈ JsString.segments dir := by
    have hmark : nestedMark ++ after =
        JsString.slash :: (js "node_modules" ++ JsString.slash :: after) := rfl
    have hfree : JsString.slash ∉ js "node_modules" := by decide
    rw [lastNested_eq_some hnested, JsString.segments, hmark, List.splitOn_append_cons_self,
      List.splitOn_append_cons_self, List.splitOn_eq_singleton hfree]
    exact List.mem_append_right _ List.mem_cons_self
  rw [isPlainWorkspacePath, Bool.and_eq_true, List.all_eq_true] at h
  exact absurd (h.2 _ hsegment) (by decide)

end Links

/-! ### What is accepted -/

section Accepted

variable {host : Host} {packages : Packages} {tarballs : List JsString}
  (haccepted : ∀ x ∈ packages.entries, x.1 ≠ [] → Accepted host packages tarballs x.1)

include haccepted

/-- **Every link passed as one.** -/
theorem linkProblem_of_isLink {name dir : JsString} (h : IsLink packages name dir) :
    isTopLevel name = true ∧ isPlainWorkspacePath dir = true ∧
      (∃ target, packageAt packages dir = some (.object target) ∧ target.link.isTrue = false ∧
        isString target.resolved = false) ∧
      ∃ value, (name, value) ∈ packages.entries ∧
        acceptedLink host packages (name, value) = some (dir, name.drop underModules.length) := by
  obtain ⟨hne, entry, hmem, hlink, hdir⟩ := h
  have hat := packageAt_of_mem hmem
  have hother : ∀ entry', packageAt packages name = some (.object entry') → entry' = entry := by
    intro entry' hat'
    rw [hat] at hat'
    exact (LockValue.object.inj (Option.some.inj hat')).symm
  have hproblem : linkProblem host packages name entry = none := by
    cases haccepted _ hmem hne with
    | link hat' _ hproblem => exact hother _ hat' ▸ hproblem
    | workspace hat' hlink' _ | bundled hat' hlink' _ _ _ _ =>
      rw [hother _ hat', hlink] at hlink'
      cases hlink'
    | source hat' hpinned =>
      have hlink' := hpinned.1
      rw [hother _ hat', hlink] at hlink'
      cases hlink'
  obtain ⟨htop, dir', hdir', hplain, htarget⟩ := linkProblem_eq_none hproblem
  obtain rfl := JsVal.str.inj (hdir.symm.trans hdir')
  refine ⟨htop, hplain, htarget, _, hmem, ?_⟩
  simp only [acceptedLink, hlink, hproblem, Option.isNone_none, Bool.and_self, if_true, hdir]

/-- A workspace directory is inside no package. -/
theorem lastNested_of_isTarget {dir : JsString} (h : IsTarget packages dir) :
    lastNested dir = none := by
  obtain ⟨name, hname⟩ := h
  exact lastNested_of_plain (linkProblem_of_isLink haccepted hname).2.1

omit haccepted in
/-- No link is listed twice. -/
theorem nodup_valuesOf (dir : JsString) : (OrderedMap.valuesOf dir
    (packages.entries.filterMap (acceptedLink host packages))).Nodup := by
  have hpairs : (packages.entries.filterMap (acceptedLink host packages)).Pairwise
      fun p q => p.2 ≠ q.2 := by
    refine List.Pairwise.filterMap _ (fun x y hne p hp q hq hlink => ?_)
      (List.pairwise_map.1 packages.nodup)
    refine hne ?_
    rw [(acceptedLink_eq_some hp).1, (acceptedLink_eq_some hq).1, hlink]
  exact List.pairwise_map.2 (hpairs.filter _)

/-- **The links are listed**, each once, by where they lead. -/
theorem listsLinks {workspaces : List (JsString × List JsString)}
    (hworkspaces : workspaces.Perm
      ((workspaceLinks host packages).entries.map fun ws => (ws.1, ws.2.mergeSort inOrder))) :
    ListsLinks packages workspaces := by
  have hmem : ∀ dir links, (dir, links) ∈ workspaces ↔
      links = (OrderedMap.valuesOf dir
        (packages.entries.filterMap (acceptedLink host packages))).mergeSort inOrder ∧
      links ≠ [] := by
    intro dir links
    rw [hworkspaces.mem_iff, List.mem_map]
    constructor
    · rintro ⟨⟨dir', links'⟩, hws, heq⟩
      obtain ⟨rfl, rfl⟩ := Prod.mk.inj heq
      obtain ⟨hvalues, hne⟩ := OrderedMap.mem_groups_iff.1 hws
      refine ⟨by rw [← hvalues], fun hnil => hne ?_⟩
      exact List.perm_nil.1 (hnil ▸ (List.mergeSort_perm links' inOrder).symm)
    · rintro ⟨rfl, hne⟩
      refine ⟨(dir, _), OrderedMap.mem_groups_iff.2 ⟨rfl, fun hnil => hne ?_⟩, rfl⟩
      rw [hnil, List.mergeSort_nil]
  refine ⟨?_, fun ws hws => ?_, fun name dir => ?_⟩
  · have hkeys := (hworkspaces.map Prod.fst).nodup_iff
    rw [List.map_map] at hkeys
    exact hkeys.2 (workspaceLinks host packages).nodup
  · obtain ⟨hlinks, hne⟩ := (hmem ws.1 ws.2).1 hws
    refine ⟨hne, ?_⟩
    rw [hlinks, (List.mergeSort_perm _ _).nodup_iff]
    exact nodup_valuesOf ws.1
  · constructor
    · intro hlink
      obtain ⟨htop, -, -, value, hvalue, haccept⟩ := linkProblem_of_isLink haccepted hlink
      have hlisted := OrderedMap.mem_valuesOf_iff.2 (List.mem_filterMap.2 ⟨_, hvalue, haccept⟩)
      rw [← List.mem_mergeSort] at hlisted
      exact ⟨_, _, (hmem dir _).2 ⟨rfl, List.ne_nil_of_mem hlisted⟩, hlisted,
        exists_of_isTopLevel htop⟩
    · rintro ⟨links, link, hlinks, hlink, rfl⟩
      rw [((hmem dir links).1 hlinks).1, List.mem_mergeSort, OrderedMap.mem_valuesOf_iff] at hlink
      exact isLink_of_mem hlink

/-- **A link leads to a workspace**, if what is there is the lockfile's own. -/
theorem isWorkspace_of_isLink (hends : EndsInTarballs packages) {name dir : JsString}
    (h : IsLink packages name dir) : IsWorkspace packages dir := by
  obtain ⟨-, -, ⟨target, hat, hnone⟩, -⟩ := linkProblem_of_isLink haccepted h
  exact ⟨target, mem_of_packageAt hat (hends.linked name dir h), hnone⟩

omit haccepted in
/-- What is inherited passes as a workspace only. -/
theorem mem_of_accepted {name : JsString} (h : Accepted host packages tarballs name)
    (hfree : ¬ IsTarget packages name) : name ∈ packages.entries.map Prod.fst := by
  by_contra hname
  have hempty : ∀ entry, packageAt packages name = some (.object entry) → entry = {} := by
    intro entry hat
    rw [packageAt] at hat
    split at hat
    · rename_i value hget
      exact absurd (List.mem_map_of_mem (OrderedMap.get_eq_some_iff.1 hget)) hname
    · split_ifs at hat
      · exact (LockValue.object.inj (Option.some.inj hat)).symm
      · cases Option.some.inj hat
  cases h with
  | link hat hlink _ =>
    rw [hempty _ hat] at hlink
    cases hlink
  | workspace _ _ hworkspace => exact hfree (isTarget_of_workspaceLinks hworkspace)
  | source hat hpinned =>
    obtain ⟨-, source, hsource, -⟩ := hpinned
    rw [hempty _ hat] at hsource
    cases hsource
  | bundled hat _ _ hin _ _ =>
    rw [hempty _ hat] at hin
    cases hin

omit haccepted in
/-- **What is neither a link nor a workspace rides in a tarball**, where no way up ends elsewhere. -/
theorem rides_of_accepted (hends : EndsInTarballs packages) {name : JsString}
    (h : Accepted host packages tarballs name)
    (hfree : ¬ IsTarget packages name ∧ ∀ dir, ¬ IsLink packages name dir) :
    Rides packages tarballs name := by
  induction h with
  | link hat hlink hproblem =>
    obtain ⟨htop, dir, hdir, -⟩ := linkProblem_eq_none hproblem
    refine absurd ⟨?_, _, mem_of_packageAt hat ?_, hlink, hdir⟩ (hfree.2 dir)
    · rw [exists_of_isTopLevel htop]
      exact List.append_ne_nil_of_left_ne_nil (by decide) _
    · have hlinked : Accepted host packages tarballs _ := .link hat hlink hproblem
      exact mem_of_accepted hlinked hfree.1
  | workspace _ _ hworkspace => exact absurd (isTarget_of_workspaceLinks hworkspace) hfree.1
  | source hat hpinned =>
    have hsource : Accepted host packages tarballs _ := .source hat hpinned
    exact .source (mem_of_packageAt hat (mem_of_accepted hsource hfree.1)) hpinned
  | bundled hat hlink hnone hin hby hparent ih =>
    have hbundled : Accepted host packages tarballs _ :=
      .bundled hat hlink hnone hin hby hparent
    have hmem := mem_of_packageAt hat (mem_of_accepted hbundled hfree.1)
    obtain ⟨childName, hnested, -⟩ := id hby
    exact .inside hmem hlink hnone hin hby
      (ih (hends.enclosed _ _ _ childName hmem hlink hfree.1 hnone hnested))

/-- **What is accepted is pinned just where the ways up end in tarballs.** -/
theorem pinned_iff_endsInTarballs :
    (∀ name, name ≠ [] → name ∈ packages.entries.map Prod.fst → Pinned packages tarballs name) ↔
      EndsInTarballs packages := by
  constructor
  · intro hpinned
    have hlinkless : ∀ {name dir}, Rides packages tarballs name → ¬ IsLink packages name dir := by
      rintro name dir hrides ⟨-, entry, hmem, hlink, -⟩
      have hother : ∀ entry', (name, LockValue.object entry') ∈ packages.entries →
          entry'.link.isTrue = false → False := fun entry' hmem' hlink' => by
        rw [← LockValue.object.inj (OrderedMap.eq_of_mem hmem hmem'), hlink] at hlink'
        cases hlink'
      cases hrides with
      | source hmem' hsource => exact hother _ hmem' hsource.1
      | inside hmem' hlink' _ _ _ _ => exact hother _ hmem' hlink'
    refine ⟨fun name dir hlink => ?_, fun name entry parentName childName hmem hlink hfree hnone
      hnested => ?_⟩
    · obtain ⟨hne, entry, hmem, hislink, hdir⟩ := id hlink
      obtain ⟨dir', hlink', hworkspace⟩ | ⟨-, hworkspace⟩ | hrides :=
        hpinned name hne (List.mem_map_of_mem hmem)
      · obtain ⟨target, htarget, -⟩ := hworkspace
        rw [hlink.unique hlink']
        exact List.mem_map_of_mem htarget
      · obtain ⟨entry', hmem', hlink', -⟩ := hworkspace
        rw [← LockValue.object.inj (OrderedMap.eq_of_mem hmem hmem'), hislink] at hlink'
        cases hlink'
      · exact absurd hlink (hlinkless hrides)
    · have hne : name ≠ [] := fun hnil => by rw [hnil] at hnested; cases hnested
      have hrides : Rides packages tarballs name := by
        obtain ⟨dir, ⟨-, entry', hmem', hlink', -⟩, -⟩ | ⟨htarget, -⟩ | hrides :=
          hpinned name hne (List.mem_map_of_mem hmem)
        · rw [← LockValue.object.inj (OrderedMap.eq_of_mem hmem hmem'), hlink] at hlink'
          cases hlink'
        · exact absurd htarget hfree
        · exact hrides
      -- so does the package around it, which is then no workspace
      have hparent : Rides packages tarballs parentName := by
        cases hrides with
        | source hmem' hsource =>
          obtain ⟨-, source, hsource, -⟩ := hsource
          rw [← LockValue.object.inj (OrderedMap.eq_of_mem hmem hmem')] at hsource
          rw [isString_iff.2 ⟨source, hsource⟩] at hnone
          cases hnone
        | inside _ _ _ _ hby hparent =>
          obtain ⟨childName', hnested', -⟩ := hby
          rw [hnested] at hnested'
          obtain ⟨rfl, -⟩ := Prod.mk.inj (Option.some.inj hnested')
          exact hparent
      refine ⟨fun htarget => ?_, fun dir => hlinkless hparent⟩
      cases hparent with
      | source hmem' hsource =>
        obtain ⟨from', hfrom⟩ := id htarget
        obtain ⟨-, -, ⟨target, hat, -, hnone'⟩, -⟩ := linkProblem_of_isLink haccepted hfrom
        obtain ⟨-, source, hsource, -⟩ := hsource
        rw [packageAt_of_mem hmem', Option.some.injEq, LockValue.object.injEq] at hat
        rw [← hat, isString_iff.2 ⟨source, hsource⟩] at hnone'
        cases hnone'
      | inside _ _ _ _ hby _ =>
        obtain ⟨childName', hnested', -⟩ := hby
        rw [lastNested_of_isTarget haccepted htarget] at hnested'
        cases hnested'
  · intro hends name hne hname
    by_cases hlink : ∃ dir, IsLink packages name dir
    · obtain ⟨dir, hlink⟩ := hlink
      exact .inl ⟨dir, hlink, isWorkspace_of_isLink haccepted hends hlink⟩
    · by_cases htarget : IsTarget packages name
      · obtain ⟨from', hfrom⟩ := id htarget
        exact .inr (.inl ⟨htarget, isWorkspace_of_isLink haccepted hends hfrom⟩)
      · obtain ⟨x, hx, rfl⟩ := List.mem_map.1 hname
        exact .inr (.inr (rides_of_accepted hends (haccepted x hx hne)
          ⟨htarget, fun dir h => hlink ⟨dir, h⟩⟩))

end Accepted

/-- A host for the names of these examples. -/
def asciiHost : Host where
  toLowerCase s := s.map fun u => if 0x41 ≤ u && u ≤ 0x5a then u + 0x20 else u
  string _ := js "undefined"
  localeCompare a b := if a < b then -1 else if a = b then 0 else 1

/-- A workspace that bundles a package, which no tarball holds. -/
def bundlingPackages : Packages where
  entries :=
    [(js "", .object {}),
      (js "node_modules/a", .object { link := .bool true, resolved := .str (js "packages/a") }),
      (js "packages/a", .object { bundleDependencies := some [.str (js "x")] }),
      (js "packages/a/node_modules/x", .object { inBundle := .bool true })]
  nodup := by decide +kernel

/-- Its lockfile. -/
def bundlingLock : Lockfile :=
  { lockfileVersion := .num 3, packages := some bundlingPackages }

theorem lockEligibility_bundlingLock :
    ∃ r, lockEligibility asciiHost bundlingLock = .ok r := by
  have hpasses : (checkAll asciiHost bundlingPackages bundlingPackages.entries {}).isOk = true := by
    decide +kernel
  unfold lockEligibility
  cases hchecked : checkAll asciiHost bundlingPackages bundlingPackages.entries {} with
  | error reason =>
    rw [hchecked] at hpasses
    cases hpasses
  | ok st => exact ⟨_, by simp [bundlingLock, hchecked]; rfl⟩

end LockEligibility
end Caches
end LaneBroker
