/-
# What is missing of a local tree

`deps-cache.js`: `findMissingInstalled`, and `localDepsCurrent` of `remote-pipeline.js` over it.  A
local run skips `npm ci` where npm's own record of what it installed misses no entry of the
lockfile, but for those that are left out on this platform, and has the version, source and
integrity of each.  What is left out is found in rounds: an optional entry that is absent, as
all that depends on it is left out itself (`mem_growGone_iff`).
-/

import LaneBroker.Basis.OrderedMap
import LaneBroker.Basis.Rounds
import LaneBroker.Caches.LockPaths

namespace LaneBroker
namespace Caches
namespace LocalDeps

open LaneBroker.Basis LaneBroker.Caches.LockPaths

/-! ### What is read -/

/-- **An entry of the lockfile or of the record**, with the fields that are read; a value that is no
object has none of them. -/
structure InstallEntry where
  version : JsVal := .undefined
  resolved : JsVal := .undefined
  integrity : JsVal := .undefined
  /-- The values, where it is an array. -/
  os : Option (List JsVal) := none
  cpu : Option (List JsVal) := none
  libc : Option (List JsVal) := none
  optional : Bool := false
  /-- The names that it has, as of the three below. -/
  dependencies : List JsString := []
  optionalDependencies : List JsString := []
  peerDependencies : List JsString := []
  devDependencies : List JsString := []
  /-- The names that `peerDependenciesMeta` has as optional. -/
  optionalPeers : List JsString := []
  deriving DecidableEq

/-- `packages`; a name may stand for a value that is false where a condition is wanted. -/
abbrev Packages := OrderedMap JsString (Option InstallEntry)

/-- What the platform is. -/
structure Platform where
  platform : JsString
  arch : JsString
  libc : Option JsString

/-- **A directory with a lockfile.** -/
structure Tree where
  system : Platform
  /-- `packages` of `package-lock.json`, where it can be read. -/
  lock : Option Packages
  /-- `packages` of `node_modules/.package-lock.json`, where it can be read. -/
  installed : Option Packages
  /-- `fs.existsSync(path.join(cwd, name))`. -/
  onDisk : JsString → Bool

/-! ### The source -/

/-- **`listAllows`**; none where it throws. -/
def listAllows (list : Option (List JsVal)) (value : JsString) : Option Bool :=
  match list with
  | none | some [] => some true
  | some list =>
    if list.contains (.str (0x21 :: value)) then some false
    else if list.any fun x => match x with | .str _ => false | _ => true then none
    else
      let positive := list.filter fun x => match x with | .str s => s.head? ≠ some 0x21 | _ => false
      some (positive = [] || positive.contains (.str value))

/-- **`platformSkips`**; none where it throws. -/
def platformSkips (system : Platform) (entry : InstallEntry) : Option Bool := do
  if !(← listAllows entry.os system.platform) then return true
  if !(← listAllows entry.cpu system.arch) then return true
  match system.libc with
  | none => return false
  | some libc => return !(← listAllows entry.libc libc)

/-- `requestedNames`. -/
def requestedNames (path : JsString) (entry : InstallEntry) : List JsString :=
  let peers := entry.peerDependencies.filter fun n => n ∉ entry.optionalPeers
  let dev := if path = [] then entry.devDependencies else []
  entry.dependencies ++ entry.optionalDependencies ++ peers ++ dev

/-- `packages[name].optional`. -/
def isOptional (packages : Packages) (name : JsString) : Bool :=
  match packages.get name with
  | some (some entry) => entry.optional
  | _ => false

/-- The loop of `resolveLockPath`, up to a number of steps. -/
def resolveWithin (packages : Packages) (name : JsString) : ℕ → JsString → Option JsString
  | 0, _ => none
  | fuel + 1, base =>
    let candidate := (if base = [] then [] else base ++ [JsString.slash]) ++ underModules ++ name
    if (packages.get candidate).isSome then some candidate
    else if base = [] then none
    else
      match lastNested base with
      | none => resolveWithin packages name fuel []
      | some (before, _) => resolveWithin packages name fuel before

/-- **`resolveLockPath`**: each base is shorter than the last, so the steps are enough. -/
def resolveLockPath (packages : Packages) (fromPath name : JsString) : Option JsString :=
  resolveWithin packages name (fromPath.length + 1) fromPath

/-- **`dependentsByPath`**; that a path is there twice makes no difference. -/
def dependentsByPath (packages : Packages) : OrderedMap JsString (List JsString) :=
  .groups <| packages.entries.flatMap fun
    | (_, none) => []
    | (path, some entry) => (requestedNames path entry).filterMap fun name =>
      (resolveLockPath packages path name).map fun target => (target, path)

/-- `dependents.get(name) ?? []`. -/
def dependentsOf (packages : Packages) (name : JsString) : List JsString :=
  ((dependentsByPath packages).get name).getD []

/-- What every object inherits. -/
def isInherited (name : JsString) : Bool := name ∈ inheritedMethods || name = js "__proto__"

/-- `name in installed`. -/
def isIn (installed : Packages) (name : JsString) : Bool :=
  (installed.get name).isSome || isInherited name

/-- `installed[name]`: what is inherited has none of the fields. -/
def valueAt (installed : Packages) (name : JsString) : Option InstallEntry :=
  match installed.get name with
  | some value => value
  | none => if isInherited name then some {} else none

section Missing

variable (system : Platform) (packages installed : Packages)

/-- The first loop of `findMissingInstalled`: `gone` and `absent`. -/
def sortOut : List (JsString × Option InstallEntry) → Option (List JsString × List JsString)
  | [] => some ([], [])
  | (_, none) :: rest => sortOut rest
  | (name, some entry) :: rest =>
    if name = [] then sortOut rest
    else
      match platformSkips system entry, sortOut rest with
      | some skips, some (gone, absent) =>
        some <|
          if skips then (name :: gone, absent)
          else if isIn installed name then (gone, absent)
          else (gone, name :: absent)
      | _, _ => none

/-- **What makes an absent entry an expected one.** -/
def expected (gone : List JsString) (name : JsString) : Bool :=
  isOptional packages name &&
    (let parents := dependentsOf packages name
     !parents.isEmpty && parents.all fun d => d ∈ gone)

/-- The second loop. -/
def growGone (gone absent : List JsString) : List JsString :=
  Rounds.grow (expected packages) absent (absent.length + 1) gone

/-- **`findMissingInstalled`**; none where it throws. -/
def findMissingInstalled : Option (List JsString) := do
  let (gone, absent) ← sortOut system installed packages.entries
  let gone := growGone packages gone absent
  return ((absent.filter (· ∉ gone)).map (List.drop underModules.length)).mergeSort inOrder

end Missing

/-- The fields that are compared. -/
def lockedFields : List (InstallEntry → JsVal) :=
  [InstallEntry.version, InstallEntry.resolved, InstallEntry.integrity]

/-- `sameLocked`. -/
def sameLocked (entry recorded : InstallEntry) : Bool :=
  lockedFields.all fun field =>
    field entry = .undefined || (field recorded).strictEq (field entry)

/-- **`localDepsCurrent`**; none where it throws. -/
def localDepsCurrent (t : Tree) : Option Bool :=
  match t.lock, t.installed with
  | some packages, some installed => do
    let missing ← findMissingInstalled t.system packages installed
    if missing ≠ [] then return false
    return packages.entries.all fun
      | (_, none) => true
      | (name, some entry) =>
        name = [] ||
          match valueAt installed name with
          | none => true
          | some recorded => t.onDisk name && sameLocked entry recorded
  | _, _ => some false

/-! ### What is left out -/

section LeftOut

variable (dependents : JsString → List JsString) (system : Platform) (packages : Packages)
  (absent : JsString → Prop)

/-- **What is left out** on this platform, given what depends on each entry: what is not for it, and
an optional entry that is absent, where something depends on it and all that does is left out. -/
inductive LeftOut : JsString → Prop
  | skipped {name : JsString} {entry : InstallEntry} : name ≠ [] →
      (name, some entry) ∈ packages.entries → platformSkips system entry = some true → LeftOut name
  | orphaned {name : JsString} {entry : InstallEntry} : name ≠ [] →
      (name, some entry) ∈ packages.entries → entry.optional = true → absent name →
      dependents name ≠ [] → (∀ d ∈ dependents name, LeftOut d) → LeftOut name

variable {dependents system packages absent}

theorem LeftOut.mono {absent' : JsString → Prop} (hsub : ∀ name, absent name → absent' name)
    {name : JsString} (h : LeftOut dependents system packages absent name) :
    LeftOut dependents system packages absent' name := by
  induction h with
  | skipped hne hmem hskips => exact .skipped hne hmem hskips
  | orphaned hne hmem hoptional habsent hdependents _ ih =>
    exact .orphaned hne hmem hoptional (hsub _ habsent) hdependents ih

/-- Neither the order of the entries nor that of what depends on them makes a difference. -/
theorem LeftOut.of_same {dependents' : JsString → List JsString} {packages' : Packages}
    (hentries : packages.entries ⊆ packages'.entries)
    (hsame : ∀ target d, d ∈ dependents target ↔ d ∈ dependents' target)
    {name : JsString} (h : LeftOut dependents system packages absent name) :
    LeftOut dependents' system packages' absent name := by
  induction h with
  | skipped hne hmem hskips => exact .skipped hne (hentries hmem) hskips
  | @orphaned name entry hne hmem hoptional habsent hdependents _ ih =>
    obtain ⟨d, hd⟩ := List.exists_mem_of_ne_nil _ hdependents
    exact .orphaned hne (hentries hmem) hoptional habsent
      (List.ne_nil_of_mem ((hsame name d).1 hd)) fun d hd => ih d ((hsame name d).2 hd)

theorem expected_eq_true {gone : List JsString} {name : JsString} :
    expected packages gone name = true ↔ isOptional packages name = true ∧
      dependentsOf packages name ≠ [] ∧ ∀ d ∈ dependentsOf packages name, d ∈ gone := by
  simp [expected, List.all_eq_true]

theorem expected_monotone : Rounds.Monotone (expected packages) := by
  intro gone gone' name hsub h
  obtain ⟨hoptional, hdependents, hall⟩ := expected_eq_true.1 h
  exact expected_eq_true.2 ⟨hoptional, hdependents, fun d hd => hsub (hall d hd)⟩

theorem exists_mem_cons {es : List (JsString × Option InstallEntry)} {name name' : JsString}
    {entry : InstallEntry} {P : InstallEntry → Prop} :
    (∃ entry', (name', some entry') ∈ (name, some entry) :: es ∧ P entry') ↔
      name' = name ∧ P entry ∨ ∃ entry', (name', some entry') ∈ es ∧ P entry' := by
  constructor
  · rintro ⟨entry', hmem, hP⟩
    rcases List.mem_cons.1 hmem with heq | hmem
    · obtain ⟨rfl, hentry⟩ := Prod.mk.inj heq
      exact .inl ⟨rfl, Option.some.inj hentry ▸ hP⟩
    · exact .inr ⟨entry', hmem, hP⟩
  · rintro (⟨rfl, hP⟩ | ⟨entry', hmem, hP⟩)
    · exact ⟨entry, List.mem_cons_self, hP⟩
    · exact ⟨entry', List.mem_cons_of_mem _ hmem, hP⟩

/-- Where nothing throws, every entry is for the platform or is not. -/
theorem platformSkips_of_sortOut {installed : Packages}
    {es : List (JsString × Option InstallEntry)} {found : List JsString × List JsString}
    (h : sortOut system installed es = some found) {name : JsString} {entry : InstallEntry}
    (hne : name ≠ []) (hmem : (name, some entry) ∈ es) :
    ∃ skips, platformSkips system entry = some skips := by
  induction es generalizing found with
  | nil => cases hmem
  | cons e es ih =>
    obtain ⟨name', value⟩ := e
    rcases List.mem_cons.1 hmem with heq | hlater
    · obtain ⟨rfl, rfl⟩ := Prod.mk.inj heq
      rw [sortOut, if_neg hne] at h
      split at h
      · exact ⟨_, ‹_›⟩
      · cases h
    · cases value with
      | none => exact ih h hlater
      | some entry' =>
        rw [sortOut] at h
        by_cases hroot : name' = []
        · rw [if_pos hroot] at h
          exact ih h hlater
        · rw [if_neg hroot] at h
          split at h
          · exact ih ‹_› hlater
          · cases h

/-- **What the first loop finds.** -/
theorem sortOut_eq_some {installed : Packages} {es : List (JsString × Option InstallEntry)}
    {gone away : List JsString} (h : sortOut system installed es = some (gone, away)) :
    (∀ name, name ∈ gone ↔ name ≠ [] ∧ ∃ entry, (name, some entry) ∈ es ∧
      platformSkips system entry = some true) ∧
    ∀ name, name ∈ away ↔ name ≠ [] ∧ isIn installed name = false ∧
      ∃ entry, (name, some entry) ∈ es ∧ platformSkips system entry = some false := by
  induction es generalizing gone away with
  | nil =>
    obtain ⟨rfl, rfl⟩ := Prod.mk.inj (Option.some.inj h)
    simp
  | cons e es ih =>
    obtain ⟨name, value⟩ := e
    cases value with
    | none =>
      rw [sortOut] at h
      simpa using ih h
    | some entry =>
      rw [sortOut] at h
      simp only [exists_mem_cons]
      by_cases hroot : name = []
      · rw [if_pos hroot] at h
        obtain ⟨hgone, haway⟩ := ih h
        subst hroot
        exact ⟨fun name' => by rw [hgone]; tauto, fun name' => by rw [haway]; tauto⟩
      rw [if_neg hroot] at h
      split at h
      swap
      · cases h
      rename_i skips gone' away' hskips hrest
      obtain ⟨hgone, haway⟩ := ih hrest
      cases skips with
      | true =>
        obtain ⟨rfl, rfl⟩ := Prod.mk.inj (Option.some.inj h)
        constructor
        · intro name'
          rw [List.mem_cons, hgone, hskips]
          constructor
          · rintro (rfl | h)
            · exact ⟨hroot, .inl ⟨rfl, rfl⟩⟩
            · exact ⟨h.1, .inr h.2⟩
          · rintro ⟨hne, ⟨rfl, -⟩ | h⟩
            · exact .inl rfl
            · exact .inr ⟨hne, h⟩
        · intro name'
          rw [haway, hskips]
          simp
      | false =>
        by_cases hin : isIn installed name = true
        · rw [if_neg Bool.false_ne_true, if_pos hin] at h
          obtain ⟨rfl, rfl⟩ := Prod.mk.inj (Option.some.inj h)
          constructor
          · intro name'
            rw [hgone, hskips]
            simp
          · intro name'
            rw [haway]
            constructor
            · exact fun h => ⟨h.1, h.2.1, .inr h.2.2⟩
            · rintro ⟨hne, habsent, ⟨rfl, -⟩ | h⟩
              · rw [hin] at habsent
                cases habsent
              · exact ⟨hne, habsent, h⟩
        · rw [if_neg Bool.false_ne_true, if_neg hin] at h
          rw [Bool.not_eq_true] at hin
          obtain ⟨rfl, rfl⟩ := Prod.mk.inj (Option.some.inj h)
          constructor
          · intro name'
            rw [hgone, hskips]
            simp
          · intro name'
            rw [List.mem_cons, haway, hskips]
            constructor
            · rintro (rfl | h)
              · exact ⟨hroot, hin, .inl ⟨rfl, rfl⟩⟩
              · exact ⟨h.1, h.2.1, .inr h.2.2⟩
            · rintro ⟨hne, habsent, ⟨rfl, -⟩ | h⟩
              · exact .inl rfl
              · exact .inr ⟨hne, habsent, h⟩

/-- **What is gone in the end is what is left out**, and the loop finds all of it. -/
theorem mem_growGone_iff {installed : Packages} {gone away : List JsString}
    (h : sortOut system installed packages.entries = some (gone, away)) {name : JsString} :
    name ∈ growGone packages gone away ↔
      LeftOut (dependentsOf packages) system packages (fun name => isIn installed name = false)
        name := by
  obtain ⟨hgone, haway⟩ := sortOut_eq_some h
  constructor
  · refine Rounds.grow_induction (fun known x hknown hx hexpected => ?_) _ (fun y hy => ?_) name
    · obtain ⟨hoptional, hdependents, hall⟩ := expected_eq_true.1 hexpected
      obtain ⟨hne, habsent, entry, hmem, -⟩ := (haway x).1 hx
      rw [isOptional, OrderedMap.get_eq_some_iff.2 hmem] at hoptional
      exact .orphaned hne hmem hoptional habsent hdependents fun d hd => hknown d (hall d hd)
    · obtain ⟨hne, entry, hmem, hskips⟩ := (hgone y).1 hy
      exact .skipped hne hmem hskips
  · have hstart : gone ⊆ growGone packages gone away :=
      (Rounds.suffix_grow _ _ _).subset
    intro hleft
    induction hleft with
    | skipped hne hmem hskips => exact hstart ((hgone _).2 ⟨hne, _, hmem, hskips⟩)
    | @orphaned name entry hne hmem hoptional habsent hdependents _ ih =>
      -- it is for this platform, or it was gone from the start
      obtain ⟨skips, hskips⟩ := platformSkips_of_sortOut h hne hmem
      cases skips with
      | true => exact hstart ((hgone name).2 ⟨hne, entry, hmem, hskips⟩)
      | false =>
        refine Rounds.grow_closed expected_monotone ?_
          ((haway name).2 ⟨hne, habsent, entry, hmem, hskips⟩)
          (expected_eq_true.2 ⟨?_, hdependents, ih⟩)
        · exact Nat.lt_succ_of_le (List.length_filter_le _ _)
        · rw [isOptional, OrderedMap.get_eq_some_iff.2 hmem]
          exact hoptional

end LeftOut

end LocalDeps
end Caches
end LaneBroker
