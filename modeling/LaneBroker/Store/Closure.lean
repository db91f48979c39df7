/-
# No manifest before its blobs

Every prefix of the journal that has a manifest has its blobs: at the record of a manifest,
every blob it references is put (`PrefixClosed`).  A path has been put when no deletion of it
stands behind its last put record (`HasPut`); the records of an intent and of its cancellation
say nothing of whether there is such a record.

`Serving` is the invariant of a process between two operations, `Resting` is what it leaves
wherever it dies, and `Running` is what holds inside an operation.  The steps of an operation
are a record more in the journal (`Running.appended`) and fewer files (`Running.of_fewer`).
-/

import Mathlib.Data.List.Induction
import LaneBroker.Store.Frames

namespace LaneBroker
namespace Store

open LaneBroker.Basis Fallible

variable {σ ι : Type} [DecidableEq σ] [DecidableEq ι] (C : Contents σ) (cfg : Config)

/-! ### What the journal says -/

omit [DecidableEq σ] [DecidableEq ι] in
/-- **A path has been put**, and not deleted since. -/
def HasPut (js : List (Fields σ ι)) (path : Path σ ι) : Prop :=
  ∃ before content size after, js = before ++ .put path content size :: after ∧
    .delete path ∉ after

/-- Every blob of a manifest is put. -/
def BlobsPut (js : List (Fields σ ι)) (content : σ) : Prop :=
  ∀ d, C.parseManifestDoc content = some d → ∀ sha ∈ d.blobs,
    HasPut js (.blob sha) ∧ objectState js (.blob sha) = some .put

/-- **At the record of a manifest, every blob of it is put.** -/
def PrefixClosed (js : List (Fields σ ι)) : Prop :=
  ∀ before job content size after, js = before ++ .put (.manifest job) content size :: after →
    BlobsPut C before content

/-- **A record that may be next**: a manifest comes behind its blobs, what is deleted is gone, and
what is kept has been put. -/
structure Follows (s : ObjectStore σ ι) (js : List (Fields σ ι)) (f : Fields σ ι) : Prop where
  manifest : ∀ job content size, f = .put (.manifest job) content size → BlobsPut C js content
  gone : ∀ path, f = .delete path → s.has path = false
  known : ∀ path, f = .deleteCancel path → HasPut js path

section Journal

variable {C} {js : List (Fields σ ι)} {f : Fields σ ι} {path : Path σ ι}

/-- A record names no state of a path, or it is an object record of the path. -/
theorem objectState_concat_cases (js : List (Fields σ ι)) (f : Fields σ ι) (path : Path σ ι) :
    objectState (js ++ [f]) path = objectState js path ∨
      ∃ st, f.object = some (path, st) ∧ objectState (js ++ [f]) path = some st := by
  rw [objectState_concat]
  unfold Fields.stateOf
  cases f.object with
  | none => exact .inl rfl
  | some o =>
    obtain ⟨q, st⟩ := o
    by_cases heq : q = path
    · exact .inr ⟨st, by rw [heq], by simp [heq]⟩
    · exact .inl (by simp [heq])

omit [DecidableEq σ] [DecidableEq ι] in
/-- The records that name a state. -/
theorem object_cases {st : ObjState} (h : f.object = some (path, st)) :
    (st = .put ∧ ((∃ content size, f = .put path content size) ∨ f = .deleteCancel path)) ∨
      (st = .intent ∧ f = .deleteIntent path) ∨ (st = .delete ∧ f = .delete path) := by
  cases f <;> simp_all [Fields.object]

omit [DecidableEq σ] [DecidableEq ι] in
theorem hasPut_concat_put (js : List (Fields σ ι)) (path : Path σ ι) (content : σ) (size : Nat) :
    HasPut (js ++ [.put path content size]) path :=
  ⟨js, content, size, [], rfl, by simp⟩

omit [DecidableEq σ] [DecidableEq ι] in
/-- What has been put stays put, unless it is deleted. -/
theorem HasPut.concat (h : HasPut js path) (hf : f ≠ .delete path) : HasPut (js ++ [f]) path := by
  obtain ⟨before, content, size, after, rfl, hafter⟩ := h
  refine ⟨before, content, size, after ++ [f], by simp, ?_⟩
  rw [List.mem_append, List.mem_singleton, not_or]
  exact ⟨hafter, hf.symm⟩

/-- **What has been put is put, or about to be deleted.** -/
theorem HasPut.state (h : HasPut js path) :
    objectState js path = some .put ∨ objectState js path = some .intent := by
  obtain ⟨before, content, size, after, rfl, hafter⟩ := h
  induction after using List.reverseRecOn with
  | nil =>
    refine .inl ?_
    rw [objectState_concat]
    simp [Fields.stateOf, Fields.object]
  | append_singleton after f ih =>
    rw [List.mem_append, List.mem_singleton, not_or] at hafter
    rw [← List.cons_append, ← List.append_assoc]
    rcases objectState_concat_cases (before ++ .put path content size :: after) f path with
      heq | ⟨st, hst, heq⟩
    · rw [heq]
      exact ih hafter.1
    · rcases object_cases hst with ⟨rfl, -⟩ | ⟨rfl, -⟩ | ⟨-, rfl⟩
      · exact .inl heq
      · exact .inr heq
      · exact absurd rfl hafter.2

theorem BlobsPut.concat {content : σ} (h : BlobsPut C js content)
    (hf : ∀ d, C.parseManifestDoc content = some d → ∀ sha ∈ d.blobs,
      f ≠ .deleteIntent (.blob sha) ∧ f ≠ .delete (.blob sha)) :
    BlobsPut C (js ++ [f]) content := by
  intro d hd sha hsha
  obtain ⟨hput, hstate⟩ := h d hd sha hsha
  obtain ⟨hintent, hdelete⟩ := hf d hd sha hsha
  refine ⟨hput.concat hdelete, ?_⟩
  rcases objectState_concat_cases js f (.blob sha) with heq | ⟨st, hst, heq⟩
  · rw [heq, hstate]
  · rcases object_cases hst with ⟨rfl, -⟩ | ⟨-, rfl⟩ | ⟨-, rfl⟩
    · exact heq
    · exact absurd rfl hintent
    · exact absurd rfl hdelete

/-- A journal without records is closed. -/
theorem prefixClosed_nil : PrefixClosed C ([] : List (Fields σ ι)) := by
  intro before job content size after h
  cases before <;> cases h

/-- **One record more.** -/
theorem PrefixClosed.concat (h : PrefixClosed C js)
    (hf : ∀ job content size, f = .put (.manifest job) content size → BlobsPut C js content) :
    PrefixClosed C (js ++ [f]) := by
  intro before job content size after heq
  rcases List.eq_nil_or_concat after with rfl | ⟨init, last, rfl⟩
  · obtain ⟨rfl, hlast⟩ := List.append_inj' heq rfl
    exact hf job content size (List.cons.inj hlast).1
  · rw [List.concat_eq_append, ← List.cons_append, ← List.append_assoc] at heq
    obtain ⟨rfl, -⟩ := List.append_inj' heq rfl
    exact h before job content size init rfl

/-- Every path that a record names is among the journaled paths. -/
theorem mem_journaledPaths (h : objectState js path ≠ none) : path ∈ journaledPaths js := by
  induction js using List.reverseRecOn with
  | nil => exact absurd rfl h
  | append_singleton js f ih =>
    have hfold : journaledPaths (js ++ [f]) =
        f.object.elim (journaledPaths js) fun o => addTo (journaledPaths js) o.1 := by
      unfold journaledPaths
      rw [List.foldl_append, List.foldl_cons, List.foldl_nil]
      cases f.object with
      | none => rfl
      | some o => rfl
    have hadd : ∀ {l : List (Path σ ι)} {a b : Path σ ι}, a ∈ l → a ∈ addTo l b := by
      intro l a b ha
      unfold addTo
      split_ifs
      · exact ha
      · exact List.mem_append_left _ ha
    rw [hfold]
    rcases objectState_concat_cases js f path with heq | ⟨st, hst, -⟩
    · rw [heq] at h
      cases f.object with
      | none => exact ih h
      | some o => exact hadd (ih h)
    · rw [hst, Option.elim_some]
      unfold addTo
      split_ifs with hin
      · exact hin
      · simp

end Journal

/-! ### The invariants -/

/-- The blobs on disk are what their names say. -/
def BlobsIntact (s : ObjectStore σ ι) : Prop :=
  ∀ sha f, s.blobs.read sha = some f → f.content = sha

/-- **A journal that fits the disk**, though a manifest may wait to be journaled. -/
structure Fits (acked : List (Path σ ι)) (s : ObjectStore σ ι) (js : List (Fields σ ι)) : Prop where
  closed : PrefixClosed C js
  manifests : ∀ job content, s.manifests.read job = some content →
    HasPut js (.manifest job) ∨ BlobsPut C js content
  acknowledged : ∀ path ∈ acked, s.has path = true → HasPut js path
  puts : ∀ path, objectState js path = some .put → HasPut js path
  intended : ∀ path, s.has path = true → objectState js path = some .intent → HasPut js path

/-- **What a process leaves where it dies**: with or without the stray record, the journal fits the
disk. -/
structure Resting (acked : List (Path σ ι)) (s : ObjectStore σ ι) : Prop where
  intact : BlobsIntact s
  fits : Fits C acked s s.journal
  stray : ∀ f, s.stray = some f → Fits C acked s (s.journal ++ [f])

/-- **Inside an operation.** -/
structure Running (acked : List (Path σ ι)) (s : ObjectStore σ ι) : Prop where
  intact : BlobsIntact s
  closed : PrefixClosed C s.journal
  manifests : ∀ job content, s.manifests.read job = some content →
    HasPut s.journal (.manifest job)
  acknowledged : ∀ path ∈ acked, s.has path = true → HasPut s.journal path
  puts : ∀ path, objectState s.journal path = some .put → HasPut s.journal path
  intended : ∀ path, objectState s.journal path = some .intent →
    HasPut s.journal path ∨ path ∈ s.pendingDeletes
  stray_none : s.broken = false → s.stray = none
  stray_follows : ∀ f, s.stray = some f → Follows C s s.journal f
  stray_known : ∀ path, s.stray = some (.deleteIntent path) → HasPut s.journal path
  stray_pending : ∀ path, s.stray = some (.delete path) → path ∈ s.pendingDeletes
  intents : ∀ sha, objectState s.journal (.blob sha) = some .intent → .blob sha ∈ s.intents
  pending : ∀ path ∈ s.pendingDeletes, s.has path = false
  nodup : s.pendingDeletes.Nodup

/-- **Between two operations**: a blob on disk has been put, or the process knows that it has not,
or it is the one that is being put. -/
structure Serving (acked : List (Path σ ι)) (out : Option σ) (s : ObjectStore σ ι) : Prop extends
    Running C acked s where
  blobs : ∀ sha, s.has (.blob sha) = true →
    out = some sha ∨ sha ∈ s.unjournaled ∨ HasPut s.journal (.blob sha)

section Invariants

variable {C} {acked : List (Path σ ι)} {out : Option σ} {s t : ObjectStore σ ι} {f : Fields σ ι}

theorem has_of_read {job : ι} {content : σ} (h : s.manifests.read job = some content) :
    s.has (.manifest job) = true := by
  simp [ObjectStore.has, h]

theorem has_congr (hb : t.blobs = s.blobs) (hm : t.manifests = s.manifests) (path : Path σ ι) :
    t.has path = s.has path := by
  cases path with
  | blob sha => simp [ObjectStore.has, hb]
  | manifest job => simp [ObjectStore.has, hm]

theorem Fits.of_eq {js : List (Fields σ ι)} (h : Fits C acked s js) (hb : t.blobs = s.blobs)
    (hm : t.manifests = s.manifests) : Fits C acked t js :=
  ⟨h.closed, fun job content hread => h.manifests job content (hm ▸ hread),
    fun path hp hhas => h.acknowledged path hp (has_congr hb hm path ▸ hhas), h.puts,
    fun path hhas => h.intended path (has_congr hb hm path ▸ hhas)⟩

/-- What is on disk and put, or about to be deleted, has been put. -/
theorem Running.on_disk (h : Running C acked s) {path : Path σ ι} (hhas : s.has path = true)
    (hstate : objectState s.journal path = some .put ∨ objectState s.journal path = some .intent) :
    HasPut s.journal path := by
  rcases hstate with hstate | hstate
  · exact h.puts path hstate
  · rcases h.intended path hstate with hput | hpend
    · exact hput
    · rw [h.pending path hpend] at hhas
      cases hhas

theorem Running.fits (h : Running C acked s) : Fits C acked s s.journal :=
  ⟨h.closed, fun job content hread => .inl (h.manifests job content hread), h.acknowledged, h.puts,
    fun _ hhas hstate => h.on_disk hhas (.inr hstate)⟩

/-- **One record more, for the disk.** -/
theorem Fits.concat {js : List (Fields σ ι)} (h : Fits C acked s js) (hf : Follows C s js f)
    (hknown : ∀ path, f = .deleteIntent path → HasPut js path ∨ s.has path = false)
    (hmanifests : ∀ job content, s.manifests.read job = some content →
      HasPut (js ++ [f]) (.manifest job) ∨ BlobsPut C (js ++ [f]) content) :
    Fits C acked s (js ++ [f]) := by
  have hkept : ∀ path, s.has path = true → HasPut js path → HasPut (js ++ [f]) path := by
    intro path hhas hput
    refine hput.concat ?_
    rintro rfl
    rw [hf.gone path rfl] at hhas
    cases hhas
  refine ⟨h.closed.concat hf.manifest, hmanifests,
    fun path hp hhas => hkept path hhas (h.acknowledged path hp hhas), fun path hput => ?_,
    fun path hhas hint => ?_⟩
  · rcases objectState_concat_cases js f path with heq | ⟨st, hst, heq⟩
    · refine (h.puts path (heq ▸ hput)).concat ?_
      rintro rfl
      rw [objectState_concat] at hput
      simp [Fields.stateOf, Fields.object] at hput
    · rcases object_cases hst with ⟨-, ⟨content, size, rfl⟩ | rfl⟩ | ⟨rfl, -⟩ | ⟨rfl, -⟩
      · exact hasPut_concat_put ..
      · exact (hf.known path rfl).concat nofun
      · rw [heq] at hput
        cases hput
      · rw [heq] at hput
        cases hput
  · rcases objectState_concat_cases js f path with heq | ⟨st, hst, heq⟩
    · exact hkept path hhas (h.intended path hhas (heq ▸ hint))
    · rcases object_cases hst with ⟨rfl, -⟩ | ⟨-, rfl⟩ | ⟨rfl, -⟩
      · rw [heq] at hint
        cases hint
      · rcases hknown path rfl with hput | hgone
        · exact hput.concat nofun
        · exact absurd (hhas.symm.trans hgone) (by simp)
      · rw [heq] at hint
        cases hint

theorem Running.manifests_concat (h : Running C acked s) (hf : Follows C s s.journal f) (job : ι)
    (content : σ) (hread : s.manifests.read job = some content) :
    HasPut (s.journal ++ [f]) (.manifest job) := by
  refine (h.manifests job content hread).concat ?_
  rintro rfl
  have hgone := hf.gone _ rfl
  exact absurd ((has_of_read hread).symm.trans hgone) (by simp)

/-- **Wherever a process dies between its calls, it rests.** -/
theorem Running.resting (h : Running C acked s) : Resting C acked s :=
  ⟨h.intact, h.fits, fun f hf => h.fits.concat (h.stray_follows f hf)
    (fun path heq => .inl (h.stray_known path (heq ▸ hf))) fun job content hread =>
      .inl (h.manifests_concat (h.stray_follows f hf) job content hread)⟩

/-- **Fewer files**, and more that the process knows of them. -/
theorem Running.of_fewer (h : Running C acked s)
    (hblobs : ∀ sha f, t.blobs.read sha = some f → f.content = sha ∧ s.has (.blob sha) = true)
    (hmanifests : ∀ job c, t.manifests.read job = some c → s.manifests.read job = some c)
    (hjournal : t.journal = s.journal) (hstray : t.stray = s.stray) (hbroken : t.broken = s.broken)
    (hintents : ∀ path ∈ s.intents, path ∈ t.intents)
    (hpending : ∀ path ∈ s.pendingDeletes, path ∈ t.pendingDeletes)
    (hgone : ∀ path ∈ t.pendingDeletes, t.has path = false) (hnodup : t.pendingDeletes.Nodup) :
    Running C acked t := by
  have hhas : ∀ path, t.has path = true → s.has path = true := by
    rintro (sha | job) hpath
    · obtain ⟨f, hf⟩ := Option.isSome_iff_exists.1 hpath
      exact (hblobs sha f hf).2
    · obtain ⟨c, hc⟩ := Option.isSome_iff_exists.1 hpath
      exact has_of_read (hmanifests job c hc)
  constructor
  · exact fun sha f hf => (hblobs sha f hf).1
  · exact hjournal ▸ h.closed
  · exact fun job c hc => hjournal ▸ h.manifests job c (hmanifests job c hc)
  · exact fun path hp hpath => hjournal ▸ h.acknowledged path hp (hhas path hpath)
  · exact hjournal ▸ h.puts
  · exact fun path hpath => hjournal ▸ (h.intended path (hjournal ▸ hpath)).imp_right (hpending path)
  · exact fun hb => hstray ▸ h.stray_none (hbroken ▸ hb)
  · intro f hf
    have hfollows := h.stray_follows f (hstray ▸ hf)
    refine ⟨hjournal ▸ hfollows.manifest, fun path heq => ?_, hjournal ▸ hfollows.known⟩
    have hpath := hfollows.gone path heq
    rw [Bool.eq_false_iff] at hpath ⊢
    exact fun hpath' => hpath (hhas path hpath')
  · exact fun path hpath => hjournal ▸ h.stray_known path (hstray ▸ hpath)
  · exact fun path hpath => hpending path (h.stray_pending path (hstray ▸ hpath))
  · exact fun sha hsha => hintents _ (h.intents sha (hjournal ▸ hsha))
  · exact hgone
  · exact hnodup

/-- Memory that the invariant does not speak of. -/
theorem Running.of_eq (h : Running C acked s) (hb : t.blobs = s.blobs)
    (hm : t.manifests = s.manifests) (hj : t.journal = s.journal) (hs : t.stray = s.stray)
    (hbr : t.broken = s.broken) (hi : t.intents = s.intents)
    (hp : t.pendingDeletes = s.pendingDeletes) : Running C acked t := by
  have hhas := has_congr hb hm
  refine h.of_fewer (fun sha f hf => ⟨h.intact sha f (hb ▸ hf), ?_⟩) (fun job c hc => hm ▸ hc) hj hs
    hbr (fun path hpath => hi ▸ hpath) (fun path hpath => hp ▸ hpath) (fun path hpath => ?_)
    (hp ▸ h.nodup)
  · rw [← hhas]
    simp [ObjectStore.has, hf]
  · rw [hhas]
    exact h.pending path (hp ▸ hpath)

/-- **One record more, for the process.** -/
theorem Running.appended (h : Running C acked s) (hf : Follows C s s.journal f)
    (hbroken : s.broken = false) {ints pend : List (Path σ ι)}
    (hknown : ∀ path, f = .deleteIntent path → HasPut s.journal path ∨ path ∈ pend)
    (hints : ∀ sha, objectState (s.journal ++ [f]) (.blob sha) = some .intent → .blob sha ∈ ints)
    (hpend : ∀ path ∈ s.pendingDeletes, path ∈ pend ∨ f = .delete path)
    (hgone : ∀ path ∈ pend, s.has path = false) (hnodup : pend.Nodup) :
    Running C acked
      { s with journal := s.journal ++ [f], intents := ints, pendingDeletes := pend } := by
  have hfits := h.fits.concat hf (fun path heq => (hknown path heq).imp_right (hgone path))
    fun job content hread => .inl (h.manifests_concat hf job content hread)
  have hstray := h.stray_none hbroken
  constructor
  · exact h.intact
  · exact hfits.closed
  · exact h.manifests_concat hf
  · exact hfits.acknowledged
  · exact hfits.puts
  · intro path hint
    rcases objectState_concat_cases s.journal f path with heq | ⟨st, hst, heq⟩
    · rcases h.intended path (heq ▸ hint) with hput | hpath
      · by_cases hdel : f = .delete path
        · rw [hdel, objectState_concat] at hint
          simp [Fields.stateOf, Fields.object] at hint
        · exact .inl (hput.concat hdel)
      · rcases hpend path hpath with hpath | hdel
        · exact .inr hpath
        · rw [hdel, objectState_concat] at hint
          simp [Fields.stateOf, Fields.object] at hint
    · rcases object_cases hst with ⟨rfl, -⟩ | ⟨-, rfl⟩ | ⟨rfl, -⟩
      · exact absurd (heq.symm.trans hint) (by simp)
      · exact (hknown path rfl).imp_left fun hput => hput.concat nofun
      · exact absurd (heq.symm.trans hint) (by simp)
  · exact h.stray_none
  · exact fun g hg => absurd (hstray.symm.trans hg) (by simp)
  · exact fun path hpath => absurd (hstray.symm.trans hpath) (by simp)
  · exact fun path hpath => absurd (hstray.symm.trans hpath) (by simp)
  · exact hints
  · exact hgone
  · exact hnodup

/-- A record that announces no deletion adds no intent. -/
theorem Running.intents_concat (h : Running C acked s)
    (hf : ∀ sha, f ≠ .deleteIntent (.blob sha)) (sha : σ)
    (hsha : objectState (s.journal ++ [f]) (.blob sha) = some .intent) :
    .blob sha ∈ s.intents := by
  rcases objectState_concat_cases s.journal f (.blob sha) with heq | ⟨st, hst, heq⟩
  · exact h.intents sha (heq ▸ hsha)
  · rcases object_cases hst with ⟨rfl, -⟩ | ⟨-, rfl⟩ | ⟨rfl, -⟩
    · exact absurd (heq.symm.trans hsha) (by simp)
    · exact absurd rfl (hf sha)
    · exact absurd (heq.symm.trans hsha) (by simp)

/-- A journal that is broken from here on, by this record. -/
theorem Running.astray (h : Running C acked s) (hf : Follows C s s.journal f)
    (hknown : ∀ path, f = .deleteIntent path → HasPut s.journal path)
    (hpending : ∀ path, f = .delete path → path ∈ s.pendingDeletes) :
    Running C acked { s with broken := true, stray := some f } :=
  ⟨h.intact, h.closed, h.manifests, h.acknowledged, h.puts, h.intended, nofun,
    fun _ hg => Option.some.inj hg ▸ ⟨hf.manifest,
      fun path heq => (has_congr rfl rfl path).trans (hf.gone path heq), hf.known⟩,
    fun path hg => hknown path (Option.some.inj hg),
    fun path hg => hpending path (Option.some.inj hg), h.intents,
    fun path hpath => (has_congr rfl rfl path).trans (h.pending path hpath), h.nodup⟩

theorem Running.dies (h : Running C acked s) (hf : Follows C s s.journal f)
    (hknown : ∀ path, f = .deleteIntent path → HasPut s.journal path) :
    Resting C acked { s with stray := some f } := by
  have hfits : Fits C acked s (s.journal ++ [f]) :=
    h.fits.concat hf (fun path heq => .inl (hknown path heq)) fun job content hread =>
      .inl (h.manifests_concat hf job content hread)
  refine ⟨h.intact, h.fits.of_eq rfl rfl, fun g hg => ?_⟩
  obtain rfl := Option.some.inj hg
  exact hfits.of_eq rfl rfl

theorem Running.serving {out : Option σ} (h : Running C acked s)
    (hblobs : ∀ sha, s.has (.blob sha) = true →
      out = some sha ∨ sha ∈ s.unjournaled ∨ HasPut s.journal (.blob sha)) :
    Serving C acked out s :=
  { h with blobs := hblobs }

theorem Serving.of_fewer (h : Serving C acked out s) (ht : Running C acked t)
    (hhas : ∀ sha, t.has (.blob sha) = true → s.has (.blob sha) = true)
    (hj : t.journal = s.journal) (hu : ∀ sha ∈ s.unjournaled, sha ∈ t.unjournaled) :
    Serving C acked out t :=
  { ht with blobs := fun sha hsha => hj ▸ (h.blobs sha (hhas sha hsha)).imp_right (·.imp_left (hu sha)) }

theorem Serving.of_eq (h : Serving C acked out s) (hb : t.blobs = s.blobs)
    (hm : t.manifests = s.manifests) (hj : t.journal = s.journal) (hs : t.stray = s.stray)
    (hbr : t.broken = s.broken) (hi : t.intents = s.intents)
    (hp : t.pendingDeletes = s.pendingDeletes) (hu : t.unjournaled = s.unjournaled) :
    Serving C acked out t :=
  h.of_fewer (h.toRunning.of_eq hb hm hj hs hbr hi hp)
    (fun sha hsha => by simpa [ObjectStore.has, hb] using hsha) hj fun sha hsha => hu ▸ hsha

/-- Other intents, and other losses. -/
theorem Serving.withIntents (h : Serving C acked out s) {ints lost : List (Path σ ι)}
    (hints : ∀ sha, objectState s.journal (.blob sha) = some .intent → .blob sha ∈ ints) :
    Serving C acked out { s with intents := ints, lost := lost } := by
  refine Running.serving ?_ h.blobs
  refine ⟨h.intact, h.closed, h.manifests, fun path hp hpath => ?_, h.puts, h.intended,
    h.stray_none, fun f hf => ?_, h.stray_known, h.stray_pending, hints, fun path hpath => ?_,
    h.nodup⟩
  · exact h.acknowledged path hp ((has_congr rfl rfl path).symm.trans hpath)
  · obtain ⟨hmanifest, hgone, hknown⟩ := h.stray_follows f hf
    exact ⟨hmanifest, fun path heq => (has_congr rfl rfl path).trans (hgone path heq), hknown⟩
  · exact (has_congr rfl rfl path).trans (h.pending path hpath)

/-! ### An append -/

omit [DecidableEq σ] [DecidableEq ι] in
/-- **The rule for an append.** -/
theorem append_ends (s : ObjectStore σ ι) (io : Io σ ι) (f : Fields σ ι) :
    Ends io (append f) s
      (fun _ t => io (.append f) = .ok ∧ s.broken = false ∧
        t = { s with journal := s.journal ++ [f] })
      (fun _ t => t = s ∨
        io (.append f) = .failsLate ∧ t = { s with broken := true, stray := some f })
      (fun t => io (.append f) = .dies ∧ t = { s with stray := some f }) := by
  unfold Ends append
  cases hbroken : s.broken with
  | true => exact .inl rfl
  | false =>
    rw [if_neg Bool.false_ne_true]
    cases hio : io (.append f) with
    | ok => exact ⟨rfl, rfl, rfl⟩
    | fails => exact .inl rfl
    | failsLate => exact .inr ⟨rfl, rfl⟩
    | dies => exact ⟨rfl, rfl⟩

/-- **An append of a record that follows**, between two operations. -/
theorem Serving.append_ends (h : Serving C acked out s) (io : Io σ ι) (hf : Follows C s s.journal f)
    (hknown : ∀ path, f = .deleteIntent path → HasPut s.journal path)
    (hpending : ∀ path, f = .delete path → path ∈ s.pendingDeletes) :
    Ends io (append f) s
      (fun _ t => s.broken = false ∧ t = { s with journal := s.journal ++ [f] })
      (fun _ t => Serving C acked out t ∧ SameFiles s t ∧ t.journal = s.journal ∧
        t.pendingDeletes = s.pendingDeletes) (Resting C acked) := by
  refine (Store.append_ends s io f).mono (fun _ _ ht => ht.2) (fun _ t ht => ?_) fun t ht => ?_
  · rcases ht with rfl | ⟨-, rfl⟩
    · exact ⟨h, .refl t, rfl, rfl⟩
    · exact ⟨h.of_fewer (h.toRunning.astray hf hknown hpending) (fun _ hsha => hsha) rfl
        fun _ hsha => hsha, ⟨rfl, rfl, rfl⟩, rfl, rfl⟩
  · rw [ht.2]
    exact h.toRunning.dies hf hknown

/-- **One record more, between two operations.** -/
theorem Serving.appended (h : Serving C acked out s) (hf : Follows C s s.journal f)
    (hbroken : s.broken = false) {ints pend : List (Path σ ι)} {unj : List σ}
    (hknown : ∀ path, f = .deleteIntent path → HasPut s.journal path ∨ path ∈ pend)
    (hints : ∀ sha, objectState (s.journal ++ [f]) (.blob sha) = some .intent → .blob sha ∈ ints)
    (hpend : ∀ path ∈ s.pendingDeletes, path ∈ pend ∨ f = .delete path)
    (hgone : ∀ path ∈ pend, s.has path = false) (hnodup : pend.Nodup)
    (hunj : ∀ sha ∈ s.unjournaled, sha ∈ unj ∨ HasPut (s.journal ++ [f]) (.blob sha)) :
    Serving C acked out
      { s with
        journal := s.journal ++ [f]
        intents := ints
        pendingDeletes := pend
        unjournaled := unj } := by
  have hrun := h.toRunning.appended hf hbroken hknown hints hpend hgone hnodup
  have hblobs : ∀ sha, s.has (.blob sha) = true →
      out = some sha ∨ sha ∈ unj ∨ HasPut (s.journal ++ [f]) (.blob sha) := by
    intro sha hhas
    rcases h.blobs sha hhas with hout | hin | hput
    · exact .inl hout
    · exact .inr (hunj sha hin)
    · refine .inr (.inr (hput.concat ?_))
      rintro rfl
      rw [hf.gone _ rfl] at hhas
      cases hhas
  have hrun' := hrun.of_eq (t := { s with
    journal := s.journal ++ [f]
    intents := ints
    pendingDeletes := pend
    unjournaled := unj }) rfl rfl rfl rfl rfl rfl rfl
  exact { hrun' with blobs := hblobs }

end Invariants

end Store
end LaneBroker
